import EdgeNetSwitch.Packet.Proofs.LifecycleAccountingProofs
import Mathlib.Algebra.Order.BigOperators.Group.Finset

/-!
# Proofs: the counters of the statistics

What a handler adds to a counter is what its message adds to the reference count, modulo `2 ^ 64`
(`Counts.onMessage`), and counters that are the reference counts give a snapshot that accounts for
the history (`accounts_mod`, `accounts_exact`).
-/

namespace EdgeNetSwitch

namespace PacketStats

open StatsMessage Terminal

theorem value_fetchAdd (s : PacketStats) (counter k : Counter) (n : UInt64) :
    (s.fetchAdd counter n).value k = s.value k + if counter = k then n else 0 := by
  cases counter with
  | drop r =>
    cases k with
    | drop r' =>
      by_cases hr : r = r'
      · subst hr
        simp [fetchAdd, value]
      · simp [fetchAdd, value, hr, Ne.symm hr]
    | _ => simp [fetchAdd, value]
  | _ => cases k <;> simp [fetchAdd, value]

theorem value_foldl_fetchAdd (l : List (Counter × UInt64)) (s : PacketStats) (k : Counter) :
    (l.foldl (fun s x => s.fetchAdd x.1 x.2) s).value k = s.value k + UInt64.ofNat (gain k l) := by
  induction l generalizing s with
  | nil => simp [gain]
  | cons x l ih =>
    have hcons : gain k (x :: l) = (if x.1 = k then x.2.toNat else 0) + gain k l := by simp [gain]
    rw [List.foldl_cons, ih, value_fetchAdd, hcons, UInt64.ofNat_add, UInt64.add_assoc]
    by_cases hx : x.1 = k <;> simp [hx]

theorem completed_foldl_fetchAdd (l : List (Counter × UInt64)) (s : PacketStats) :
    (l.foldl (fun s x => s.fetchAdd x.1 x.2) s).completed_lifecycles = s.completed_lifecycles := by
  induction l generalizing s with
  | nil => rfl
  | cons x l ih =>
    rw [List.foldl_cons, ih]
    cases x.1 <;> rfl

theorem recordLatency_some (s : PacketStats) {p : Packet} {now_ns n : UInt64}
    (h : latency? p now_ns = some n) : s.recordLatency p now_ns =
      if n > s.max_processing_latency_ns then
        { (s.fetchAdd .totalProcessingLatency n).fetchAdd .latencySamples 1 with
          max_processing_latency_ns := n }
      else (s.fetchAdd .totalProcessingLatency n).fetchAdd .latencySamples 1 := by
  unfold recordLatency
  rw [h]
  rfl

/-- Recording a latency touches nothing but the latency counters. -/
theorem recordLatency_spec (s : PacketStats) (p : Packet) (now_ns : UInt64) :
    (s.recordLatency p now_ns).completed_lifecycles = s.completed_lifecycles ∧
      ∀ k : Counter, k.Counted → (s.recordLatency p now_ns).value k = s.value k := by
  cases hl : latency? p now_ns with
  | none =>
    have hs : s.recordLatency p now_ns = s := by simp [recordLatency, hl]
    exact ⟨by rw [hs], fun _ _ => by rw [hs]⟩
  | some n =>
    rw [recordLatency_some s hl]
    refine ⟨by split_ifs <;> rfl, fun k hk => ?_⟩
    cases k <;> first | exact hk.elim | (split_ifs <;> rfl)

/-- The statistics `s` are those of the history `h`. -/
structure Counts (s : PacketStats) (h : List StatsMessage) : Prop where
  completed : s.completed_lifecycles = lifecycles (terminals h)
  counted : ∀ k : Counter, k.Counted → s.value k = UInt64.ofNat (expected h k)

theorem counts_nil : Counts {} [] :=
  ⟨rfl, fun k _ => by cases k <;> rfl⟩

/-- Every handler keeps the statistics those of the history. -/
theorem Counts.onMessage {s : PacketStats} {h : List StatsMessage} (hs : Counts s h)
    (now_ns : UInt64) (m : StatsMessage) : Counts (s.onMessage now_ns m) (h ++ [m]) := by
  cases m with
  | packetRx p =>
    refine ⟨?_, fun k hk => ?_⟩
    · rw [terminals_append_of_none rfl]
      exact hs.completed
    · have hadd := value_foldl_fetchAdd [(.ingressPackets, 1)] s k
      rw [expected_packetRx, UInt64.ofNat_add, ← hs.counted k hk, ← hadd]
      rfl
  | ingressIdlePoll =>
    refine ⟨?_, fun k hk => ?_⟩
    · rw [terminals_append_of_none rfl]
      exact hs.completed
    · have hadd := value_foldl_fetchAdd [(.udpDrainCompletions, 1)] s k
      rw [expected_ingressIdlePoll, UInt64.ofNat_add, ← hs.counted k hk, ← hadd]
      rfl
  | terminal t =>
    have hmem : decide (t.lifecycle_id ∈ s.completed_lifecycles) =
        decide (t.lifecycle_id ∈ lifecycles (terminals h)) := by rw [hs.completed]
    -- the handler without the latency at its end
    have hadd : Counts ((increments (decide (t.lifecycle_id ∈ s.completed_lifecycles)) t).foldl
        (fun s x => s.fetchAdd x.1 x.2)
        { s with completed_lifecycles := insert t.lifecycle_id s.completed_lifecycles })
        (h ++ [.terminal t]) := by
      refine ⟨?_, fun k hk => ?_⟩
      · rw [completed_foldl_fetchAdd, terminals_append_terminal, lifecycles_append, ← hs.completed]
      · rw [value_foldl_fetchAdd, expected_terminal, UInt64.ofNat_add, ← hs.counted k hk, hmem]
        cases k <;> rfl
    cases t with
    | dropped d => exact hadd
    | processed p =>
      simp only [PacketStats.onMessage, onTerminalMessage]
      split_ifs with hc
      · exact hadd
      · exact ⟨(recordLatency_spec _ p now_ns).1.trans hadd.completed, fun k hk =>
          ((recordLatency_spec _ p now_ns).2 k hk).trans (hadd.counted k hk)⟩

theorem drop_counters_recordLatency (s : PacketStats) (p : Packet) (now_ns : UInt64) :
    (s.recordLatency p now_ns).drop_counters = s.drop_counters := by
  cases hl : latency? p now_ns with
  | none => simp [recordLatency, hl]
  | some n =>
    rw [recordLatency_some s hl]
    split_ifs <;> rfl

/-- The reasons with a drop counter are those of the history `h`. -/
def Keyed (s : PacketStats) (h : List StatsMessage) : Prop :=
  ∀ r, (s.drop_counters r).isSome ↔ r ∈ reasons h

theorem isSome_drop_fetchAdd (s : PacketStats) (counter : Counter) (n : UInt64)
    (r : PacketDropReason) : ((s.fetchAdd counter n).drop_counters r).isSome ↔
      (s.drop_counters r).isSome ∨ counter = .drop r := by
  cases counter with
  | drop r' =>
    by_cases hr : r' = r
    · subst hr
      simp [fetchAdd]
    · simp [fetchAdd, hr, Ne.symm hr]
  | _ => simp [fetchAdd]

theorem isSome_drop_foldl (l : List (Counter × UInt64)) (s : PacketStats) (r : PacketDropReason) :
    ((l.foldl (fun s x => s.fetchAdd x.1 x.2) s).drop_counters r).isSome ↔
      (s.drop_counters r).isSome ∨ .drop r ∈ l.map Prod.fst := by
  induction l generalizing s with
  | nil => simp
  | cons x l ih =>
    rw [List.foldl_cons, ih, isSome_drop_fetchAdd, List.map_cons, List.mem_cons, or_assoc,
      eq_comm (a := x.1)]

/-- A reason is among those of a longer history when it was before or is new. -/
theorem mem_reasons_terminal {h : List StatsMessage} {t : Terminal} {r : PacketDropReason} :
    r ∈ reasons (h ++ [.terminal t]) ↔ r ∈ reasons h ∨
      .drop r ∈ (increments (decide (t.lifecycle_id ∈ lifecycles (terminals h))) t).map Prod.fst := by
  have hcount := expected_terminal (h := h) (t := t) (.drop r)
  have hcount' : (reasons (h ++ [.terminal t])).count r = (reasons h).count r +
    gain (.drop r) (increments (decide (t.lifecycle_id ∈ lifecycles (terminals h))) t) := hcount
  rw [← List.count_pos_iff, hcount', ← List.count_pos_iff (l := reasons h)]
  by_cases hm : t.lifecycle_id ∈ lifecycles (terminals h)
  · rw [decide_eq_true hm]
    cases t <;> simp [increments, gain]
  · rw [decide_eq_false hm]
    cases t with
    | processed p => simp [increments, gain]
    | dropped d =>
      by_cases hr : d.reason = r
      · simp [increments, gain, hr]
      · simp [increments, gain, hr, Ne.symm hr]

theorem Keyed.onMessage {s : PacketStats} {h : List StatsMessage} (hk : Keyed s h)
    (hs : Counts s h) (now_ns : UInt64) (m : StatsMessage) :
    Keyed (s.onMessage now_ns m) (h ++ [m]) := by
  intro r
  cases m with
  | packetRx p | ingressIdlePoll =>
    rw [reasons, terminals_append_of_none rfl]
    exact hk r
  | terminal t =>
    have hadd := isSome_drop_foldl
      (increments (decide (t.lifecycle_id ∈ s.completed_lifecycles)) t)
      { s with completed_lifecycles := insert t.lifecycle_id s.completed_lifecycles } r
    rw [mem_reasons_terminal, ← hk r, ← hs.completed, ← hadd]
    cases t with
    | dropped d => exact Iff.rfl
    | processed p =>
      simp only [PacketStats.onMessage, onTerminalMessage]
      split_ifs with hc
      · exact Iff.rfl
      · rw [drop_counters_recordLatency]

theorem snapshotAt_eq (s : PacketStats) : s.snapshotAt = PacketMetrics.finish
    { rx_packets := s.rx_packets
      rx_bytes := s.rx_bytes
      drops_by_reason := s.drop_counters
      ingress_packets := s.ingress_packets
      processed_packets := s.processed_packets
      terminal_events := s.terminal_events
      duplicate_events := s.duplicate_events
      total_processing_latency_ns := s.total_processing_latency_ns
      max_processing_latency_ns := s.max_processing_latency_ns
      latency_samples := s.latency_samples
      udp_drain_completions := s.udp_drain_completions } := rfl

/-- Statistics whose counters are the reference counts modulo `2 ^ 64` give such a snapshot. -/
theorem accounts_mod {s : PacketStats} {h : List StatsMessage}
    (hv : ∀ k : Counter, k.Counted → (s.value k).toNat = expected h k % 2 ^ 64) :
    s.snapshotAt.Accounts (· % 2 ^ 64) h := by
  have hp := hv .processedPackets trivial
  have ht := hv .terminalEvents trivial
  have hd : ∀ r, (s.value (.drop r)).toNat = (reasons h).count r % 2 ^ 64 := fun r => hv _ trivial
  refine ⟨hv .ingressPackets trivial, ht, ?_, hv .duplicateEvents trivial, hp, hd, ?_,
    hv .rxBytes trivial⟩
  · have hsum : (∑ r, (s.value (.drop r)).toNat) % 2 ^ 64 =
        (∑ r, (reasons h).count r) % 2 ^ 64 := by
      rw [Finset.sum_nat_mod, Finset.sum_nat_mod _ _ fun r => (reasons h).count r]
      congr 1
      apply Finset.sum_congr rfl
      intro r _
      rw [hd, Nat.mod_mod]
    have hall := length_processed_add_reasons h
    show (s.value .terminalEvents).toNat =
      ((s.value .processedPackets).toNat + ∑ r, (s.value (.drop r)).toNat) % 2 ^ 64
    rw [Nat.add_mod, hsum, hp, ht, Nat.mod_mod, ← Nat.add_mod]
    exact congrArg (· % 2 ^ 64) hall.symm
  · have hrx := hv .rxPackets trivial
    exact UInt64.toNat_inj.1 (hrx.trans hp.symm)

/-- Below `2 ^ 64` messages no count is reduced. -/
theorem accounts_exact {m : PacketMetrics} {h : List StatsMessage}
    (hm : m.Accounts (· % 2 ^ 64) h) (hlt : h.length < 2 ^ 64) : m.Accounts id h := by
  have hterm : (terminals h).length ≤ h.length := List.length_filterMap_le _ _
  have hcard := card_lifecycles_le (terminals h)
  have hall := length_processed_add_reasons h
  have hrx : (h.filterMap packetRx?).length ≤ h.length := List.length_filterMap_le _ _
  have hle : ∀ r, (reasons h).count r ≤ ∑ r, (reasons h).count r := fun r =>
    Finset.single_le_sum (f := fun r => (reasons h).count r) (fun _ _ => Nat.zero_le _)
      (Finset.mem_univ r)
  have hp : m.processed_packets.toNat = (processed h).length := by
    rw [hm.processed_packets, Nat.mod_eq_of_lt (by omega)]
  have hd : ∀ r, ((m.drops_by_reason r).getD 0).toNat = (reasons h).count r := by
    intro r
    have := hle r
    rw [hm.drops_by_reason, Nat.mod_eq_of_lt (by omega)]
  refine ⟨?_, ?_, ?_, ?_, hp, hd, hm.rx_packets, hm.rx_bytes⟩
  · rw [hm.ingress_packets, Nat.mod_eq_of_lt (by omega), id]
  · rw [hm.terminal_events, Nat.mod_eq_of_lt (by omega), id]
  · have hsum : ∑ r, ((m.drops_by_reason r).getD 0).toNat = ∑ r, (reasons h).count r :=
      Finset.sum_congr rfl fun r _ => hd r
    rw [hm.terminal_sum, hsum, hp, hall, Nat.mod_eq_of_lt (by omega), id]
  · rw [hm.duplicate_events, Nat.mod_eq_of_lt (by omega), id]

end PacketStats

end EdgeNetSwitch
