import EdgeNetSwitch.Control.PacketStatsReport
import EdgeNetSwitch.Control.Proofs.ControlDispatchProofs
import EdgeNetSwitch.Packet.Proofs.NumeralProofs

/-!
# Proofs: `packet-stats`

The text form has lines, of which each number has one, except that the source ends four of them without a
newline. The drops of the JSON form are the values of an object that is assigned one entry after the other.
-/

namespace EdgeNetSwitch.Control

open Bytes

variable {p : Platform} {ctx : ControlContext} {snap : RuntimeStatus} {order : IterationOrder PacketDropReason}
  {m : PacketMetrics} {reason reason' : PacketDropReason} {n n' : UInt64}

/-! ## The responses -/

theorem handlePacketStats_eq {arg : Bytes} (h : loadSnapshot ctx = some snap) (harg : ¬ (arg ≠ [] ∧ arg ≠ json)) :
    handlePacketStats p ctx arg = report p arg (packetStatsJson ctx.drop_order snap.packet)
      (packetStatsText ctx.drop_order snap.packet) := by
  rw [handlePacketStats, reportSnapshot, checkArgument, if_neg harg, h]
  rfl

theorem reports (h : loadSnapshot ctx = some snap) :
    Reports p ctx (packetStatsText ctx.drop_order snap.packet) (packetStatsJson ctx.drop_order snap.packet) := by
  constructor
  · show handlePacketStats p ctx [] = _
    rw [handlePacketStats_eq h (by decide)]
    exact if_neg (by decide)
  · show handlePacketStats p ctx json = _
    rw [handlePacketStats_eq h (by decide)]
    exact if_pos rfl

/-! ## The lines of the text form -/

/-- `total_drops`. -/
def totalDrops (order : IterationOrder PacketDropReason) (m : PacketMetrics) : UInt64 :=
  (drops order m).foldl (fun total_drops drop => total_drops + drop.2) 0

def dropLine (drop : PacketDropReason × UInt64) : Bytes :=
  bytesOf "drops_" ++ dropReasonToString drop.1 ++ bytesOf "=" ++ to_string drop.2.toNat

/-- The line with five numbers. -/
def fusedLine (m : PacketMetrics) : Bytes :=
  entry "rx_bytes_per_sec_raw" (to_string m.rx_bytes_per_sec_raw.toNat) ++
  entry "terminal_events" (to_string m.terminal_events.toNat) ++
  entry "duplicate_events" (to_string m.duplicate_events.toNat) ++
  entry "pending_terminal_events" (to_string m.pending_terminal_events.toNat) ++
  entry "average_processing_latency_ns" (to_string m.average_processing_latency_ns.toNat)

/-- The lines before those about drops. -/
def firstLines (m : PacketMetrics) : List Bytes :=
  [entry "rx_packets" (to_string m.rx_packets.toNat),
    entry "rx_bytes" (to_string m.rx_bytes.toNat),
    entry "ingress_packets" (to_string m.ingress_packets.toNat),
    entry "processed_packets" (to_string m.processed_packets.toNat),
    entry "processing_gap" (to_string m.processing_gap.toNat)]

/-- The lines after those about drops. -/
def lastLines (m : PacketMetrics) : List Bytes :=
  [entry "rx_packets_per_sec" (to_string m.rx_packets_per_sec.toNat),
    entry "rx_bytes_per_sec" (to_string m.rx_bytes_per_sec.toNat),
    entry "rx_packets_per_sec_raw" (to_string m.rx_packets_per_sec_raw.toNat),
    fusedLine m,
    entry "max_processing_latency_ns" (to_string m.max_processing_latency_ns.toNat),
    entry "udp_drain_completions" (to_string m.udp_drain_completions.toNat)]

/-- The lines, without their ends. -/
def statLines (order : IterationOrder PacketDropReason) (m : PacketMetrics) : List Bytes :=
  firstLines m ++ (drops order m).map dropLine ++
    entry "drops_total" (to_string (totalDrops order m).toNat) :: lastLines m

theorem packetStatsText_eq (order : IterationOrder PacketDropReason) (m : PacketMetrics) :
    packetStatsText order m = Lines.unlines 0x0A (statLines order m) := by
  have hnewline : newline = [0x0A] := by decide
  have hdrops : (((drops order m).map dropLine).flatMap fun line => line ++ [0x0A]) =
      ((drops order m).map fun drop => bytesOf "drops_" ++ dropReasonToString drop.1 ++ bytesOf "=" ++
        to_string drop.2.toNat ++ newline).flatten := by
    rw [List.flatMap_def, List.map_map, hnewline]
    rfl
  delta packetStatsText
  simp only [Lines.unlines, statLines, List.flatMap_append, hdrops, List.flatMap_cons, firstLines, lastLines,
    fusedLine, List.flatMap_nil, count, line, hnewline, totalDrops, List.append_assoc,
    List.append_nil]

theorem not_mem_to_string {c : UInt8} (h : isdigit c = false) (k : ℕ) : c ∉ to_string k := by
  intro hc
  rw [isdigit_of_mem_to_string hc] at h
  cases h

theorem entry_eq (key : String) (value : Bytes) : entry key value = bytesOf key ++ 0x3D :: value := by
  have heq : bytesOf "=" = [0x3D] := by decide
  rw [entry, heq, List.append_assoc, List.singleton_append]

theorem dropLine_eq (drop : PacketDropReason × UInt64) : dropLine drop =
    bytesOf "drops_" ++ dropReasonToString drop.1 ++ 0x3D :: to_string drop.2.toNat := by
  have heq : bytesOf "=" = [0x3D] := by decide
  rw [dropLine, heq, List.append_assoc, List.singleton_append]

theorem newline_not_mem_append {key : Bytes} (h : (0x0A : UInt8) ∉ key) (k : ℕ) :
    (0x0A : UInt8) ∉ key ++ 0x3D :: to_string k := by
  rw [List.mem_append, List.mem_cons]
  rintro (hkey | heq | hvalue)
  · exact h hkey
  · exact absurd heq (by decide)
  · exact not_mem_to_string (by decide) k hvalue

theorem newline_not_mem_entry {key : String} (h : (0x0A : UInt8) ∉ bytesOf key) (k : ℕ) :
    (0x0A : UInt8) ∉ entry key (to_string k) := by
  rw [entry_eq]
  exact newline_not_mem_append h k

theorem newline_not_mem_dropLine (drop : PacketDropReason × UInt64) : (0x0A : UInt8) ∉ dropLine drop := by
  have hkey : (0x0A : UInt8) ∉ bytesOf "drops_" ++ dropReasonToString drop.1 := by
    cases drop.1 <;> decide
  rw [dropLine_eq]
  exact newline_not_mem_append hkey _

theorem newline_not_mem_fusedLine (m : PacketMetrics) : (0x0A : UInt8) ∉ fusedLine m := by
  simp only [fusedLine, List.mem_append, not_or]
  refine ⟨⟨⟨⟨?_, ?_⟩, ?_⟩, ?_⟩, ?_⟩
  all_goals exact newline_not_mem_entry (by decide) _

theorem lines_packetStatsText (order : IterationOrder PacketDropReason) (m : PacketMetrics) :
    Lines.lines 0x0A (packetStatsText order m) = statLines order m := by
  have hfirst : ∀ line ∈ firstLines m, (0x0A : UInt8) ∉ line := by
    simp only [firstLines, List.forall_mem_cons]
    refine ⟨?_, ?_, ?_, ?_, ?_, List.forall_mem_nil _⟩
    all_goals exact newline_not_mem_entry (by decide) _
  have hdrops : ∀ line ∈ (drops order m).map dropLine, (0x0A : UInt8) ∉ line :=
    List.forall_mem_map.2 fun drop _ => newline_not_mem_dropLine drop
  have hlast : ∀ line ∈ lastLines m, (0x0A : UInt8) ∉ line := by
    simp only [lastLines, List.forall_mem_cons]
    refine ⟨?_, ?_, ?_, newline_not_mem_fusedLine m, ?_, ?_, List.forall_mem_nil _⟩
    all_goals exact newline_not_mem_entry (by decide) _
  rw [packetStatsText_eq]
  apply Lines.lines_unlines
  rw [statLines, List.forall_mem_append, List.forall_mem_append, List.forall_mem_cons]
  exact ⟨⟨hfirst, hdrops⟩, newline_not_mem_entry (by decide) _, hlast⟩

/-- A key and a number are read back. -/
theorem readCount_append {key : Bytes} (hne : key ≠ []) (h : (0x3D : UInt8) ∉ key) (k : ℕ) :
    readCount (key ++ 0x3D :: to_string k) = some (key, k) := by
  have hdigits : (to_string k).all isdigit = true := by
    rw [List.all_eq_true]
    exact fun c hc => isdigit_of_mem_to_string hc
  have hvalue : to_string k ≠ [] := by
    intro hnil
    exact Nat.toDigits_ne_nil (List.map_eq_nil_iff.1 hnil)
  rw [readCount, Lines.keyValue?_append h, Option.bind_some, if_pos ⟨hne, hvalue, hdigits⟩,
    digitsValue_to_string]

theorem readCount_entry {key : String} (hne : bytesOf key ≠ []) (h : (0x3D : UInt8) ∉ bytesOf key) (k : ℕ) :
    readCount (entry key (to_string k)) = some (bytesOf key, k) := by
  rw [entry_eq, readCount_append hne h]

theorem readCount_dropLine (drop : PacketDropReason × UInt64) :
    readCount (dropLine drop) = some (bytesOf "drops_" ++ dropReasonToString drop.1, drop.2.toNat) := by
  have hkey : (0x3D : UInt8) ∉ bytesOf "drops_" ++ dropReasonToString drop.1 := by
    cases drop.1 <;> decide
  have hne : bytesOf "drops_" ++ dropReasonToString drop.1 ≠ [] := by
    cases drop.1 <;> decide
  rw [dropLine_eq, readCount_append hne hkey]

/-- The value on the line with five numbers is no number. -/
theorem readCount_fusedLine (m : PacketMetrics) : readCount (fusedLine m) = none := by
  obtain ⟨more, heq, hmem⟩ : ∃ more, fusedLine m = bytesOf "rx_bytes_per_sec_raw" ++ 0x3D :: more ∧
      (0x74 : UInt8) ∈ more := by
    have ht : (0x74 : UInt8) ∈ bytesOf "terminal_events" := by decide
    refine ⟨to_string m.rx_bytes_per_sec_raw.toNat ++
      (entry "terminal_events" (to_string m.terminal_events.toNat) ++
      (entry "duplicate_events" (to_string m.duplicate_events.toNat) ++
      (entry "pending_terminal_events" (to_string m.pending_terminal_events.toNat) ++
      entry "average_processing_latency_ns" (to_string m.average_processing_latency_ns.toNat)))), ?_, ?_⟩
    · simp only [fusedLine, entry_eq "rx_bytes_per_sec_raw", List.append_assoc, List.cons_append]
    · rw [entry_eq "terminal_events"]
      exact List.mem_append_right _ (List.mem_append_left _ (List.mem_append_left _ ht))
  have hno : ¬ more.all isdigit = true := by
    rw [List.all_eq_true]
    intro hall
    exact absurd (hall _ hmem) (by decide)
  rw [heq, readCount, Lines.keyValue?_append (by decide), Option.bind_some, if_neg fun h => hno h.2.2]

/-- The text form is not a list of numbers. -/
theorem not_decodes (order : IterationOrder PacketDropReason) (m : PacketMetrics) (data : Json) :
    ¬ DecodesBack (packetStatsText order m) data := by
  intro h
  have hmem : fusedLine m ∈ statLines order m := by simp [statLines, lastLines]
  have hsome := h.lines_ok (fusedLine m) (by rw [lines_packetStatsText]; exact hmem)
  rw [readCount_fusedLine] at hsome
  cases hsome

/-! ## The drops -/

theorem mem_drops : (reason, n) ∈ drops order m ↔ m.drops_by_reason reason = some n := by
  rw [drops, List.mem_filterMap]
  constructor
  · rintro ⟨r, -, hr⟩
    obtain ⟨k, hk, heq⟩ := Option.map_eq_some_iff.1 hr
    cases heq
    exact hk
  · intro h
    exact ⟨reason, order.complete reason, by rw [h, Option.map_some]⟩

/-- The loop sees a reason once. -/
theorem drops_pairwise (order : IterationOrder PacketDropReason) (m : PacketMetrics) :
    (drops order m).Pairwise fun d e => d.1 ≠ e.1 := by
  rw [drops, List.pairwise_filterMap]
  refine order.nodup.imp fun hne d hd e he => ?_
  obtain ⟨k, -, rfl⟩ := Option.map_eq_some_iff.1 hd
  obtain ⟨k', -, rfl⟩ := Option.map_eq_some_iff.1 he
  exact hne

theorem sum_drops (order : IterationOrder PacketDropReason) (m : PacketMetrics) :
    ((drops order m).map fun drop => drop.2.toNat).sum = dropsSum m := by
  have hlist : ∀ l : List PacketDropReason,
      ((l.filterMap fun reason => (m.drops_by_reason reason).map fun n => (reason, n)).map
        fun drop => drop.2.toNat).sum = (l.map fun reason => ((m.drops_by_reason reason).getD 0).toNat).sum := by
    intro l
    induction l with
    | nil => rfl
    | cons reason l ih =>
      cases hreason : m.drops_by_reason reason with
      | none => simp [hreason, ih]
      | some n => simp [hreason, ih]
  have huniv : order.items.toFinset = Finset.univ := by
    ext reason
    simp [order.complete reason]
  rw [drops, hlist, dropsSum, ← huniv, List.sum_toFinset _ order.nodup]

/-- The total of the text form is the sum modulo 2^64. -/
theorem totalDrops_toNat (order : IterationOrder PacketDropReason) (m : PacketMetrics) :
    (totalDrops order m).toNat = dropsSum m % 2 ^ 64 := by
  have hfold : ∀ (l : List (PacketDropReason × UInt64)) (acc : UInt64),
      (l.foldl (fun total_drops drop => total_drops + drop.2) acc).toNat =
        (acc.toNat + (l.map fun drop => drop.2.toNat).sum) % 2 ^ 64 := by
    intro l
    induction l with
    | nil => exact fun acc => (Nat.mod_eq_of_lt acc.toNat_lt).symm
    | cons drop l ih =>
      intro acc
      rw [List.foldl_cons, ih, UInt64.toNat_add, List.map_cons, List.sum_cons, Nat.mod_add_mod, Nat.add_assoc]
  rw [totalDrops, hfold, sum_drops]
  simp

theorem readCounts_packetStatsText (order : IterationOrder PacketDropReason) (m : PacketMetrics) :
    readCounts (packetStatsText order m) = (firstLines m).filterMap readCount ++
      (drops order m).map (fun drop => (bytesOf "drops_" ++ dropReasonToString drop.1, drop.2.toNat)) ++
      (bytesOf "drops_total", (totalDrops order m).toNat) :: (lastLines m).filterMap readCount := by
  have hdrops : ((drops order m).map dropLine).filterMap readCount =
      (drops order m).map fun drop => (bytesOf "drops_" ++ dropReasonToString drop.1, drop.2.toNat) := by
    rw [List.filterMap_map, ← List.filterMap_eq_map]
    exact List.filterMap_congr fun drop _ => readCount_dropLine drop
  rw [readCounts, lines_packetStatsText, statLines, List.filterMap_append, List.filterMap_append, hdrops,
    List.filterMap_cons_some (readCount_entry (by decide) (by decide) _)]

/-- What the text form has for the total. -/
theorem lookup_drops_total (order : IterationOrder PacketDropReason) (m : PacketMetrics) :
    (readCounts (packetStatsText order m)).lookup (bytesOf "drops_total") = some (dropsSum m % 2 ^ 64) := by
  have hfirst : ((firstLines m).filterMap readCount).lookup (bytesOf "drops_total") = none := by
    have hkeys : bytesOf "drops_total" ∉ [bytesOf "rx_packets", bytesOf "rx_bytes", bytesOf "ingress_packets",
        bytesOf "processed_packets", bytesOf "processing_gap"] := by
      decide
    have hread : ((firstLines m).filterMap readCount).map Prod.fst = [bytesOf "rx_packets", bytesOf "rx_bytes",
        bytesOf "ingress_packets", bytesOf "processed_packets", bytesOf "processing_gap"] := by
      simp only [firstLines]
      iterate 5 rw [List.filterMap_cons_some (readCount_entry (by decide) (by decide) _)]
      rfl
    rw [List.lookup_eq_none_iff]
    intro e he
    have hmem := List.mem_map_of_mem (f := Prod.fst) he
    rw [hread] at hmem
    rw [bne_iff_ne]
    intro heq
    rw [← heq] at hmem
    exact hkeys hmem
  have hdrops : ((drops order m).map fun drop =>
      (bytesOf "drops_" ++ dropReasonToString drop.1, drop.2.toNat)).lookup (bytesOf "drops_total") = none := by
    rw [List.lookup_eq_none_iff]
    intro e he
    obtain ⟨drop, -, rfl⟩ := List.mem_map.1 he
    show (bytesOf "drops_total" != bytesOf "drops_" ++ dropReasonToString drop.1) = true
    cases drop.1 <;> decide
  rw [readCounts_packetStatsText, List.lookup_append, List.lookup_append, hfirst, hdrops,
    List.lookup_cons_self, totalDrops_toNat]
  rfl

/-! ## The drops of the JSON form -/

/-- What is assigned to the object under `drops`. -/
def dropFields (order : IterationOrder PacketDropReason) (m : PacketMetrics) : List (Bytes × Json) :=
  (drops order m).map fun drop => (dropReasonToString drop.1, .unsigned drop.2.toNat)

theorem dropsObject_eq (order : IterationOrder PacketDropReason) (m : PacketMetrics) :
    dropsObject (packetStatsJson order m) = Json.assign [] (dropFields order m) := by
  have hfield : (packetStatsJson order m).field? (bytesOf "drops") =
      some (.object (Json.assign [] (dropFields order m))) := by
    have hkeys : [bytesOf "rx_packets", bytesOf "rx_bytes", bytesOf "ingress_packets",
        bytesOf "processed_packets", bytesOf "processing_gap", bytesOf "drops",
        bytesOf "rx_packets_per_sec", bytesOf "rx_bytes_per_sec", bytesOf "rx_packets_per_sec_raw",
        bytesOf "rx_bytes_per_sec_raw", bytesOf "terminal_events", bytesOf "duplicate_events",
        bytesOf "pending_terminal_events", bytesOf "average_processing_latency_ns",
        bytesOf "max_processing_latency_ns", bytesOf "latency_samples",
        bytesOf "udp_drain_completions"].Nodup := by
      decide
    apply Json.field?_ofFields_of_mem
    · simp only [List.map_cons, List.map_nil]
      exact hkeys
    · simp [Json.ofFields, Json.assign, dropFields]
  rw [dropsObject, hfield]

theorem total_dropFields (order : IterationOrder PacketDropReason) (m : PacketMetrics) :
    Json.total (dropFields order m) = dropsSum m := by
  rw [Json.total, dropFields, List.map_map, ← sum_drops order m]
  rfl

/-- Two reasons with one key have none of their own. -/
theorem unnamed_of_eq (h : dropReasonToString reason = dropReasonToString reason') (hne : reason ≠ reason') :
    reason ∈ unnamed ∧ reason' ∈ unnamed := by
  revert h hne
  cases reason <;> cases reason' <;> decide

theorem dropReasonToString_of_unnamed (h : reason ∈ unnamed) :
    dropReasonToString reason = bytesOf "unknown" := by
  simp only [unnamed, List.mem_cons, List.not_mem_nil, or_false] at h
  rcases h with rfl | rfl | rfl | rfl <;> rfl

theorem mem_dropFields {k : Bytes} {v : Json} : (k, v) ∈ dropFields order m ↔
    ∃ reason n, m.drops_by_reason reason = some n ∧ k = dropReasonToString reason ∧ v = .unsigned n.toNat := by
  rw [dropFields, List.mem_map]
  constructor
  · rintro ⟨drop, hdrop, heq⟩
    cases heq
    exact ⟨drop.1, drop.2, mem_drops.1 hdrop, rfl, rfl⟩
  · rintro ⟨reason, n, hreason, rfl, rfl⟩
    exact ⟨(reason, n), mem_drops.2 hreason, rfl⟩

/-- Reasons with one key, of which the loop sees one first, lose the count of that one. -/
theorem overwritesZeros_iff (order : IterationOrder PacketDropReason) (m : PacketMetrics) :
    Json.OverwritesZeros (dropFields order m) ↔
      (drops order m).Pairwise fun d e => dropReasonToString d.1 = dropReasonToString e.1 → d.2 = 0 := by
  have hzero : ∀ d : PacketDropReason × UInt64, (Json.unsigned d.2.toNat).count = 0 ↔ d.2 = 0 := fun d =>
    UInt64.toNat_inj (b := 0)
  rw [Json.OverwritesZeros, dropFields, List.pairwise_map]
  simp only [hzero]

theorem DropsFit.losesNoDrops (h : DropsFit m) (order : IterationOrder PacketDropReason) :
    LosesNoDrops (packetStatsText order m) (packetStatsJson order m) m := by
  refine ⟨fun reason n hreason => ?_, ?_, ?_⟩
  · rw [dropsObject_eq, Json.lookup_assign, List.lookup_nil, Option.or_none]
    refine Json.lookup_of_forall (List.mem_reverse.2 (mem_dropFields.2 ⟨reason, n, hreason, rfl, rfl⟩))
      fun w hw => ?_
    obtain ⟨reason', n', hreason', hkey, rfl⟩ := mem_dropFields.1 (List.mem_reverse.1 hw)
    by_cases hne : reason = reason'
    · rw [← hne, hreason] at hreason'
      cases hreason'
      rfl
    · obtain ⟨hr, hr'⟩ := unnamed_of_eq hkey hne
      obtain ⟨rfl, rfl⟩ := h.apart reason hr reason' hr' hne n n' hreason hreason'
      rfl
  · have hzeros : Json.OverwritesZeros (dropFields order m) := by
      rw [overwritesZeros_iff]
      refine (drops_pairwise order m).imp_of_mem fun {d e} hd he hne hkey => ?_
      obtain ⟨hr, hr'⟩ := unnamed_of_eq hkey hne
      exact (h.apart d.1 hr e.1 hr' hne d.2 e.2 (mem_drops.1 hd) (mem_drops.1 he)).1
    rw [dropsObject_eq, (Json.total_ofFields_iff _).2 hzeros, total_dropFields]
  · rw [lookup_drops_total, Nat.mod_eq_of_lt h.sum_lt]

theorem LosesNoDrops.dropsFit (h : LosesNoDrops (packetStatsText order m) (packetStatsJson order m) m) :
    DropsFit m := by
  constructor
  · intro reason hr reason' hr' hne n n' hreason hreason'
    have hkey : dropReasonToString reason = dropReasonToString reason' :=
      (dropReasonToString_of_unnamed hr).trans (dropReasonToString_of_unnamed hr').symm
    -- under their one key there is one number
    have heq : n = n' := by
      have hn := h.recoverable reason n hreason
      rw [hkey, h.recoverable reason' n' hreason'] at hn
      exact UInt64.toNat_inj.1 (Json.unsigned.inj (Option.some.inj hn.symm))
    have hzeros : Json.OverwritesZeros (dropFields order m) := by
      rw [← Json.total_ofFields_iff, total_dropFields, ← dropsObject_eq]
      exact h.sum_eq
    -- and the one that the loop sees first is zero
    have hpair : (drops order m).Pairwise fun d e => dropReasonToString d.1 = dropReasonToString e.1 →
        d.2 = 0 ∨ e.2 = 0 := by
      rw [overwritesZeros_iff] at hzeros
      exact hzeros.imp fun himp heq => Or.inl (himp heq)
    have hzero : n = 0 ∨ n' = 0 := by
      have hsymm : Std.Symm fun d e : PacketDropReason × UInt64 =>
          dropReasonToString d.1 = dropReasonToString e.1 → d.2 = 0 ∨ e.2 = 0 :=
        ⟨fun d e himp heq => (himp heq.symm).symm⟩
      have hdrop : (reason, n) ≠ (reason', n') := fun heq => hne (congrArg Prod.fst heq)
      exact hpair.forall (mem_drops.2 hreason) (mem_drops.2 hreason') hdrop hkey
    subst heq
    exact ⟨hzero.elim id id, hzero.elim id id⟩
  · have htotal := h.total_eq
    rw [lookup_drops_total] at htotal
    have hmod : dropsSum m % 2 ^ 64 = dropsSum m := Option.some.inj htotal
    rw [← hmod]
    exact Nat.mod_lt _ (by decide)

/-- The response to `packet-stats:json` has the drops of the snapshot exactly if no two of the reasons
without a key of their own have been counted, and the total of the text form has not wrapped. -/
theorem losesNoDrops_iff (p : Platform) (ctx : ControlContext) (snap : RuntimeStatus)
    (h : loadSnapshot ctx = some snap) :
    let text := packetStatsText ctx.drop_order snap.packet
    let data := packetStatsJson ctx.drop_order snap.packet
    Reports p ctx text data ∧ (LosesNoDrops text data snap.packet ↔ DropsFit snap.packet) :=
  ⟨reports h, LosesNoDrops.dropsFit, fun hfit => hfit.losesNoDrops ctx.drop_order⟩

/-- A snapshot with drops for two reasons, and nothing else. -/
def droppedFor (reason reason' : PacketDropReason) (n n' : UInt64) : RuntimeStatus where
  metrics := {}
  health := { silence_duration_ms := 0 }
  state := .running
  packet := {
    drops_by_reason := fun r => if r = reason then some n else if r = reason' then some n' else none }

/-- Three packets dropped at a full queue and two lost by simulation. -/
theorem losesNoDrops_iff_named :
    let m := (droppedFor .queueOverflow .simulatedLoss 3 2).packet
    LosesNoDrops (packetStatsText declared m) (packetStatsJson declared m) m := by
  refine (losesNoDrops_iff printing { publisher := some (some (droppedFor .queueOverflow .simulatedLoss 3 2)) }
    _ rfl).2.2 ⟨?_, by decide⟩
  intro reason hr reason' hr' hne n n' hn hn'
  have hqueue : PacketDropReason.queueOverflow ∉ unnamed := by decide
  have honly : ∀ r ∈ unnamed, ∀ k,
      (droppedFor .queueOverflow .simulatedLoss 3 2).packet.drops_by_reason r = some k →
      r = .simulatedLoss := by
    intro r hmem k hk
    by_contra hno
    have hfirst : r ≠ .queueOverflow := fun heq => hqueue (heq ▸ hmem)
    simp [droppedFor, hno, hfirst] at hk
  exact absurd ((honly reason hr n hn).trans (honly reason' hr' n' hn').symm) hne

/-- Of 5 packets lost by simulation and 7 by an error, the response has 7. -/
theorem drops_lost : ¬ ∀ (p : Platform) (ctx : ControlContext) (snap : RuntimeStatus),
    loadSnapshot ctx = some snap → ∀ text data, Reports p ctx text data → LosesNoDrops text data snap.packet := by
  intro hall
  let snap := droppedFor .simulatedLoss .processingError 5 7
  have hlost := hall printing { publisher := some (some snap) } snap rfl _ _ (reports rfl)
  exact absurd (hlost.dropsFit.apart .simulatedLoss (by decide) .processingError (by decide) (by decide) 5 7
    rfl rfl).1 (by decide)

/-! ## The text form -/

/-- No response to `packet-stats` reads back. -/
theorem not_decodesBack (p : Platform) (ctx : ControlContext) (snap : RuntimeStatus)
    (h : loadSnapshot ctx = some snap) :
    let text := packetStatsText ctx.drop_order snap.packet
    let data := packetStatsJson ctx.drop_order snap.packet
    Reports p ctx text data ∧ ¬ DecodesBack text data :=
  ⟨reports h, not_decodes ctx.drop_order snap.packet _⟩

/-- Not even where nothing was dropped. -/
theorem not_decodesBack_idle :
    ¬ DecodesBack (packetStatsText declared (droppedFor .unknown .unknown 0 0).packet)
      (packetStatsJson declared (droppedFor .unknown .unknown 0 0).packet) :=
  (not_decodesBack printing { publisher := some (some (droppedFor .unknown .unknown 0 0)) } _ rfl).2

/-- The five numbers on one line are no number. -/
theorem fused_line : ¬ ∀ (p : Platform) (ctx : ControlContext) (snap : RuntimeStatus),
    loadSnapshot ctx = some snap → ∀ text data, Reports p ctx text data → DecodesBack text data := by
  intro hall
  let snap := droppedFor .queueOverflow .simulatedLoss 3 2
  exact not_decodes _ _ _ (hall printing { publisher := some (some snap) } snap rfl _ _ (reports rfl))

end EdgeNetSwitch.Control
