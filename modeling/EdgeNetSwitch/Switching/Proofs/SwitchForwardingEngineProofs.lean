import EdgeNetSwitch.Switching.LearningSwitch
import EdgeNetSwitch.Switching.Proofs.MacTableProofs

/-!
# Proofs: the engine is a learning switch

The two parts of an engine are related to the history separately: the registry holds the states of
`portState`, and the table has been through the `learn` calls of the packets, so that what is known
of the table (`MacTable.run_getElem?`) says where a station was heard last.
-/

namespace EdgeNetSwitch

open EngineOp Recency

/-! ## The registry -/

namespace InterfaceRegistry

theorem findPort_addPort (r : InterfaceRegistry) (port : SwitchPort) (p : UInt32) :
    (r.addPort port).findPort p =
      if port.id = p then (r.findPort p).or (some port) else r.findPort p := by
  unfold findPort addPort
  rw [Std.ExtTreeMap.getElem?_insertIfNew]
  by_cases hp : port.id = p
  · subst hp
    by_cases hm : port.id ∈ r.ports
    · rw [if_neg (fun h => h.2 hm), if_pos rfl]
      rw [Std.ExtTreeMap.mem_iff_isSome_getElem?, Option.isSome_iff_exists] at hm
      obtain ⟨q, hq⟩ := hm
      rw [hq]
      rfl
    · rw [if_pos ⟨Std.LawfulEqCmp.compare_eq_iff_eq.2 rfl, hm⟩, if_pos rfl,
        Std.ExtTreeMap.getElem?_eq_none hm]
      rfl
  · rw [if_neg (fun h => hp (Std.LawfulEqCmp.eq_of_compare h.1)), if_neg hp]

theorem findPort_setState (r : InterfaceRegistry) (port_id : UInt32) (state : PortState)
    (p : UInt32) : (r.setState port_id state).findPort p =
      if port_id = p then (r.findPort p).map (·.setState state) else r.findPort p := by
  unfold findPort setState
  by_cases hp : port_id = p
  · subst hp
    cases hq : r.ports[port_id]? with
    | none => simp [hq]
    | some q => simp
  · cases hq : r.ports[port_id]? with
    | none => simp [hp]
    | some q => simp [hp, Std.ExtTreeMap.getElem?_insert]

/-- The active ports are those that are up. -/
theorem mem_activePortIds {r : InterfaceRegistry} (p : UInt32) :
    p ∈ r.activePortIds ↔ r.isUp p = true := by
  unfold activePortIds isUp findPort
  simp only [List.mem_map, List.mem_filter, Prod.exists, exists_and_right, exists_eq_right,
    Std.ExtTreeMap.mem_toList_iff_getElem?_eq_some]
  cases hq : r.ports[p]? with
  | none => simp
  | some q => simp

/-- They are listed in strictly ascending order. -/
theorem sorted_activePortIds (r : InterfaceRegistry) : r.activePortIds.Pairwise (· < ·) := by
  unfold activePortIds
  rw [List.pairwise_map]
  refine List.Pairwise.sublist List.filter_sublist ?_
  refine Std.ExtTreeMap.ordered_keys_toList.imp ?_
  intro a b h
  exact Std.compare_eq_lt.1 h

end InterfaceRegistry

namespace SwitchForwardingEngine

theorem run_append (c : ℕ) (ops : List EngineOp) (op : EngineOp) :
    run c (ops ++ [op]) = (run c ops).step op := by
  simp [run]

/-- A packet without one of its addresses is dropped and leaves the engine alone. -/
theorem processPacket_of_none (e : SwitchForwardingEngine) {packet : Packet} (ingress_port : UInt32)
    (tick : UInt64) (h : packet.source_mac = none ∨ packet.destination_mac = none) :
    e.processPacket packet ingress_port tick = ({}, e) := by
  unfold processPacket
  rcases h with h | h
  · rw [h]
  · rw [h]; cases packet.source_mac <;> rfl

/-- What a packet does to the engine: the table goes through at most one `learn` call. -/
theorem processPacket_engine (e : SwitchForwardingEngine) (packet : Packet)
    (ingress_port : UInt32) (tick : UInt64) :
    (e.processPacket packet ingress_port tick).2 =
      ⟨(tableOp? (.processPacket packet ingress_port tick)).toList.foldl MacTable.step e.mac_table,
        e.interfaces⟩ := by
  rcases hs : packet.source_mac with _ | source_mac
  · rw [processPacket_of_none e ingress_port tick (Or.inl hs)]
    simp [tableOp?, hs]
  · rcases hd : packet.destination_mac with _ | destination_mac
    · rw [processPacket_of_none e ingress_port tick (Or.inr hd)]
      simp [tableOp?, hs, hd]
    · simp only [processPacket, tableOp?, hs, hd]
      split_ifs
      · rfl
      · split
        · split_ifs <;> rfl
        · rfl

/-- The registry holds the states the history gives. -/
theorem run_findPort (c : ℕ) (ops : List EngineOp) (p : UInt32) :
    ((run c ops).interfaces.findPort p).map SwitchPort.state = portState ops p := by
  induction ops using List.reverseRecOn with
  | nil => simp [run, portState, InterfaceRegistry.findPort]
  | append_singleton ops op ih =>
    have hstep : portState (ops ++ [op]) p = portStep p (portState ops p) op := by
      simp [portState]
    rw [run_append, hstep, ← ih]
    cases op with
    | addPort port =>
      show ((((run c ops).interfaces).addPort port).findPort p).map _ = _
      rw [InterfaceRegistry.findPort_addPort]
      show _ = if port.id = p then _ else _
      split_ifs
      · cases (run c ops).interfaces.findPort p <;> rfl
      · rfl
    | setState port_id state =>
      show ((((run c ops).interfaces).setState port_id state).findPort p).map _ = _
      rw [InterfaceRegistry.findPort_setState]
      show _ = if port_id = p then _ else _
      split_ifs
      · cases (run c ops).interfaces.findPort p <;> rfl
      · rfl
    | processPacket packet ingress_port tick =>
      show ((((run c ops).processPacket packet ingress_port tick).2.interfaces).findPort p).map _ = _
      rw [processPacket_engine]
      rfl

theorem run_isUp (c : ℕ) (ops : List EngineOp) (p : UInt32) :
    (run c ops).interfaces.isUp p = true ↔ PortUp ops p := by
  unfold PortUp
  rw [← run_findPort c ops p]
  unfold InterfaceRegistry.isUp
  cases (run c ops).interfaces.findPort p with
  | none => simp
  | some q => simp

/-! ## The table -/

/-- The table has been through the `learn` calls of the packets. -/
theorem run_mac_table (c : ℕ) (ops : List EngineOp) :
    (run c ops).mac_table = MacTable.run c (ops.filterMap tableOp?) := by
  induction ops using List.reverseRecOn with
  | nil => rfl
  | append_singleton ops op ih =>
    have happ : MacTable.run c ((ops ++ [op]).filterMap tableOp?) =
        (tableOp? op).toList.foldl MacTable.step (MacTable.run c (ops.filterMap tableOp?)) := by
      rw [List.filterMap_append]
      unfold MacTable.run
      rw [List.foldl_append]
      congr 1
    rw [run_append, happ, ← ih]
    cases op with
    | addPort port => rfl
    | setState port_id state => rfl
    | processPacket packet ingress_port tick =>
      exact congrArg mac_table (processPacket_engine _ _ _ _)

end SwitchForwardingEngine

namespace EngineOp

/-- A packet that teaches the table something is heard from that station. -/
theorem tableOp?_eq_some {op : EngineOp} {top : TableOp} : tableOp? op = some top ↔
    ∃ packet ingress_port tick m, op = .processPacket packet ingress_port tick ∧
      op.source? = some m ∧ top = .learn m ingress_port tick := by
  cases op with
  | addPort port => simp [tableOp?]
  | setState port_id state => simp [tableOp?]
  | processPacket packet ingress_port tick =>
    rcases hs : packet.source_mac with _ | s <;> rcases hd : packet.destination_mac with _ | d <;>
      simp [tableOp?, source?, hs, hd, eq_comm]

theorem macs_tableOps (ops : List EngineOp) :
    TableOp.macs (ops.filterMap tableOp?) = sources ops := by
  unfold TableOp.macs sources
  rw [List.filterMap_filterMap]
  congr 1
  funext op
  cases op with
  | addPort port => rfl
  | setState port_id state => rfl
  | processPacket packet ingress_port tick =>
    rcases hs : packet.source_mac with _ | s <;> rcases hd : packet.destination_mac with _ | d <;>
      simp [tableOp?, source?, hs, hd]

/-- Where a station was heard last is what was learned about it last. -/
theorem latestIngress_iff {ops : List EngineOp} {m : MacAddress} {port : UInt32} :
    LatestIngress ops m port ↔
      ∃ tick post, TableOp.LastLearn (ops.filterMap tableOp?) m port tick post := by
  constructor
  · rintro ⟨pre, packet, tick, post, rfl, hm, hpost⟩
    have htop : tableOp? (.processPacket packet port tick) = some (.learn m port tick) :=
      tableOp?_eq_some.2 ⟨packet, port, tick, m, rfl, hm, rfl⟩
    refine ⟨tick, post.filterMap tableOp?, pre.filterMap tableOp?, ?_, ?_⟩
    · rw [List.filterMap_append, List.filterMap_cons_some htop]
    · rw [macs_tableOps]
      exact hpost
  · rintro ⟨tick, post, pre, heq, hm⟩
    obtain ⟨l₁, l₂, rfl, rfl, h₂⟩ := List.filterMap_eq_append_iff.1 heq
    obtain ⟨l₃, op, l₄, rfl, -, hop, rfl⟩ := List.filterMap_eq_cons_iff.1 h₂
    obtain ⟨packet, ingress_port, tick', m', rfl, hsrc, htop⟩ := tableOp?_eq_some.1 hop
    cases htop
    rw [macs_tableOps] at hm
    exact ⟨l₁ ++ l₃, packet, tick, l₄, by simp, hsrc, hm⟩

theorem notAged_tableOps (ops : List EngineOp) (tick : UInt64) {pre post : List TableOp}
    {op : TableOp} (h : ops.filterMap tableOp? = pre ++ op :: post) :
    TableOp.NotAged tick post := by
  intro now max_age hm
  have hmem : TableOp.ageOut now max_age ∈ ops.filterMap tableOp? := by
    rw [h]
    exact List.mem_append_right _ (List.mem_cons_of_mem _ hm)
  obtain ⟨op', -, hop'⟩ := List.mem_filterMap.1 hmem
  obtain ⟨_, _, _, _, -, -, htop⟩ := tableOp?_eq_some.1 hop'
  cases htop

theorem ticks_append (ops : List EngineOp) (op : EngineOp) :
    ticks (ops ++ [op]) = ticks ops ++ ticks [op] := List.filterMap_append

theorem ticks_tableOps (ops : List EngineOp) :
    (TableOp.ticks (ops.filterMap tableOp?)).Sublist (ticks ops) := by
  induction ops with
  | nil => exact List.Sublist.refl _
  | cons op ops ih =>
    cases op with
    | addPort port => exact ih
    | setState port_id state => exact ih
    | processPacket packet ingress_port tick =>
      have ht : ticks (.processPacket packet ingress_port tick :: ops) = tick :: ticks ops := rfl
      rw [ht]
      rcases hs : packet.source_mac with _ | s
      · rw [List.filterMap_cons_none (by simp [tableOp?, hs])]
        exact ih.cons _
      · rcases hd : packet.destination_mac with _ | d
        · rw [List.filterMap_cons_none (by simp [tableOp?, hs, hd])]
          exact ih.cons _
        · rw [List.filterMap_cons_some
            (show _ = some (.learn s ingress_port tick) by simp [tableOp?, hs, hd])]
          exact ih.cons_cons _

/-- Strictly increasing ticks are a clock the table accepts. -/
theorem wellTimed_tableOps {ops : List EngineOp} (h : (ticks ops).Pairwise (· < ·)) :
    TableOp.WellTimed (ops.filterMap tableOp?) := by
  induction ops using List.reverseRecOn with
  | nil => exact .nil
  | append_singleton ops op ih =>
    rw [ticks_append, List.pairwise_append] at h
    obtain ⟨hops, -, hlt⟩ := h
    rw [List.filterMap_append]
    cases htop : tableOp? op with
    | none =>
      rw [List.filterMap_cons_none htop, List.filterMap_nil, List.append_nil]
      exact ih hops
    | some top =>
      rw [List.filterMap_cons_some htop, List.filterMap_nil]
      obtain ⟨packet, ingress_port, tick, m, rfl, -, rfl⟩ := tableOp?_eq_some.1 htop
      refine .learn m ingress_port (ih hops) ?_
      intro t ht
      exact hlt t ((ticks_tableOps ops).subset ht) tick (by simp [ticks])

end EngineOp

namespace SwitchForwardingEngine

/-! ## Decisions -/

/-- The decision on a packet with both addresses. -/
theorem processPacket_of_some (e : SwitchForwardingEngine) {packet : Packet} (ingress_port : UInt32)
    (tick : UInt64) {src dst : MacAddress} (hs : packet.source_mac = some src)
    (hd : packet.destination_mac = some dst) {table : MacTable}
    (ht : e.mac_table.learn src ingress_port tick = table) :
    (e.processPacket packet ingress_port tick).1 =
      if dst.isBroadcast then ⟨.flood, floodPorts { e with mac_table := table } ingress_port⟩
      else match table.lookup dst with
        | some port => if e.interfaces.isUp port then ⟨.forwardToPorts, [port]⟩ else ⟨.drop, []⟩
        | none => ⟨.flood, floodPorts { e with mac_table := table } ingress_port⟩ := by
  simp only [processPacket, hs, hd, ht]
  split_ifs
  · rfl
  · cases table.lookup dst with
    | none => rfl
    | some port => cases hup : e.interfaces.isUp port <;> simp [hup]

/-- The ports a flood goes to. -/
theorem floodPorts_spec (e : SwitchForwardingEngine) (ingress_port : UInt32) :
    (e.floodPorts ingress_port).Pairwise (· < ·) ∧
      ∀ p, p ∈ e.floodPorts ingress_port ↔ e.interfaces.isUp p = true ∧ p ≠ ingress_port := by
  unfold floodPorts
  refine ⟨(InterfaceRegistry.sorted_activePortIds _).sublist List.filter_sublist, fun p => ?_⟩
  rw [List.mem_filter, InterfaceRegistry.mem_activePortIds, bne_iff_ne]

theorem run_floodPorts (c : ℕ) (pre : List EngineOp) (ingress_port : UInt32) (table : MacTable) :
    (floodPorts { run c pre with mac_table := table } ingress_port).Pairwise (· < ·) ∧
      ∀ p, p ∈ floodPorts { run c pre with mac_table := table } ingress_port ↔
        PortUp pre p ∧ p ≠ ingress_port := by
  obtain ⟨hsorted, hmem⟩ := floodPorts_spec { run c pre with mac_table := table } ingress_port
  refine ⟨hsorted, fun p => ?_⟩
  rw [hmem]
  show (run c pre).interfaces.isUp p = true ∧ _ ↔ _
  rw [run_isUp]

/-- The table knows a station exactly when it is among the `c` heard most recently, and then under
the port of its latest packet. -/
theorem run_lookup (c : ℕ) {ops : List EngineOp} (h : (ticks ops).Pairwise (· < ·))
    (m : MacAddress) (p : UInt32) : (run c ops).mac_table.lookup m = some p ↔
      m ∈ (recent (sources ops)).take c ∧ LatestIngress ops m p := by
  rw [run_mac_table, MacTable.lookup, Option.map_eq_some_iff, latestIngress_iff, ← macs_tableOps]
  constructor
  · rintro ⟨e, he, rfl⟩
    obtain ⟨hm, -, post, hl, -⟩ := (MacTable.run_getElem? c (wellTimed_tableOps h) m e).1 he
    exact ⟨hm, _, post, hl⟩
  · rintro ⟨hm, tick, post, hl⟩
    obtain ⟨pre, heq, -⟩ := id hl
    refine ⟨⟨m, p, tick⟩, (MacTable.run_getElem? c (wellTimed_tableOps h) m _).2 ?_, rfl⟩
    exact ⟨hm, rfl, post, hl, notAged_tableOps ops tick heq⟩

/-- A station that was heard has a latest ingress port. -/
theorem exists_latestIngress {ops : List EngineOp} {m : MacAddress} (h : m ∈ sources ops) :
    ∃ p, LatestIngress ops m p := by
  induction ops using List.reverseRecOn with
  | nil => simp [sources] at h
  | append_singleton ops op ih =>
    by_cases hop : op.source? = some m
    · cases op with
      | processPacket packet ingress_port tick =>
        exact ⟨ingress_port, ops, packet, tick, [], rfl, hop, by simp [sources]⟩
      | addPort port => cases hop
      | setState port_id state => cases hop
    · have hnot : m ∉ sources [op] := by
        unfold sources
        rw [List.mem_filterMap]
        rintro ⟨op', hop', he⟩
        rw [List.mem_singleton.1 hop'] at he
        exact hop he
      have hm : m ∈ sources ops := by
        unfold sources at h hnot ⊢
        rw [List.filterMap_append, List.mem_append] at h
        exact h.resolve_right hnot
      obtain ⟨p, pre, packet, tick, post, rfl, hs, hpost⟩ := ih hm
      refine ⟨p, pre, packet, tick, post ++ [op], by simp, hs, ?_⟩
      unfold sources at hpost hnot ⊢
      rw [List.filterMap_append, List.mem_append, not_or]
      exact ⟨hpost, hnot⟩

/-- A packet with both addresses teaches the table its source. -/
theorem run_append_mac_table {c : ℕ} {pre : List EngineOp} {packet : Packet}
    {ingress_port : UInt32} {tick : UInt64} {src dst : MacAddress}
    (hs : packet.source_mac = some src) (hd : packet.destination_mac = some dst) :
    (run c (pre ++ [.processPacket packet ingress_port tick])).mac_table =
      (run c pre).mac_table.learn src ingress_port tick := by
  rw [run_append]
  show ((run c pre).processPacket packet ingress_port tick).2.mac_table = _
  rw [processPacket_engine]
  simp only [tableOp?, hs, hd]
  rfl

theorem mem_recent {α : Type*} [DecidableEq α] {h : List α} {a : α} : a ∈ recent h ↔ a ∈ h := by
  simp [recent]

/-- `SwitchForwardingEngine` is a learning switch: every packet of a run gets the decision its
history calls for, and one without addresses leaves the table alone. -/
theorem processPacket_learns (c : ℕ) (pre : List EngineOp) (packet : Packet)
    (ingress_port : UInt32) (tick : UInt64)
    (h : (ticks (pre ++ [.processPacket packet ingress_port tick])).Pairwise (· < ·)) :
    LearningDecision c pre packet ingress_port tick
        ((run c pre).processPacket packet ingress_port tick).1 ∧
      (packet.source_mac = none ∨ packet.destination_mac = none →
        (run c (pre ++ [.processPacket packet ingress_port tick])).mac_table =
          (run c pre).mac_table) := by
  refine ⟨⟨?_, ?_, ?_⟩, ?_⟩
  · intro hmiss
    rw [processPacket_of_none _ _ _ hmiss]
  · intro src dst hs hd hb hm
    obtain ⟨p, hp⟩ := exists_latestIngress (mem_recent.1 (List.mem_of_mem_take hm))
    have hlook := (run_lookup c h dst p).2 ⟨hm, hp⟩
    rw [run_append_mac_table hs hd] at hlook
    rw [processPacket_of_some _ _ _ hs hd rfl, hb, hlook]
    refine ⟨p, hp, fun hup => ?_, fun hup => ?_⟩
    · simp [(run_isUp c pre p).2 hup]
    · have hdown : (run c pre).interfaces.isUp p = false :=
        Bool.eq_false_iff.2 fun h => hup ((run_isUp c pre p).1 h)
      simp [hdown]
  · intro src dst hs hd hor
    have hflood : ((run c pre).processPacket packet ingress_port tick).1 =
        ⟨.flood, floodPorts { run c pre with
          mac_table := (run c pre).mac_table.learn src ingress_port tick } ingress_port⟩ := by
      rw [processPacket_of_some _ _ _ hs hd rfl]
      by_cases hb : dst.isBroadcast
      · rw [if_pos hb]
      · have hlook : ((run c pre).mac_table.learn src ingress_port tick).lookup dst = none := by
          rw [Option.eq_none_iff_forall_ne_some]
          intro p hp
          rw [← run_append_mac_table hs hd, run_lookup c h] at hp
          exact hor.elim hb fun hn => hn hp.1
        rw [if_neg hb, hlook]
    rw [hflood]
    exact ⟨rfl, run_floodPorts c pre ingress_port _⟩
  · intro hmiss
    rw [run_append]
    show ((run c pre).processPacket packet ingress_port tick).2.mac_table = _
    rw [processPacket_of_none _ _ _ hmiss]

/-- A packet from station `m` to station `n`. -/
def frame (m n : UInt8) : Packet :=
  { source_mac := some (.station m), destination_mac := some (.station n) }

/-- A station that moved from port 1 to port 2 is reached on port 2. -/
theorem processPacket_learns_relearn :
    LearningDecision 4 [.addPort ⟨2, [], .up⟩,
        .processPacket (frame 1 2) 1 10, .processPacket (frame 1 2) 2 20] (frame 2 1) 3 30
      ((run 4 [.addPort ⟨2, [], .up⟩,
        .processPacket (frame 1 2) 1 10, .processPacket (frame 1 2) 2 20]).processPacket (frame 2 1) 3 30).1 :=
  (processPacket_learns 4 _ _ _ _ (by simp [ticks])).1

end SwitchForwardingEngine

end EdgeNetSwitch
