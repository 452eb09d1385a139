import EdgeNetSwitch.Daemon.SequenceNumbers
import EdgeNetSwitch.Daemon.Proofs.WorkerRoundsProofs

/-!
# Proofs: sequence numbers and recorded order

To the collector and to the recorder, every action is a step of `Tickets` (`outcome_move`,
`record_move`). So the numbers are the places as long as every entry is appended oldest first, and the
first entry that is not gets a number that is not its place.
-/

namespace EdgeNetSwitch

namespace Runtime

open Threads Tickets

variable {s s' : Runtime} {a : Action} {w : Env} {k : List Action} {c d : Config Runtime Action}

theorem outcome_move (h : exec a w s = some (s', k)) :
    Move s.collector.next_sequence s'.collector.next_sequence
      (s.collector.outcomes.map ReplayOutcome.sequence)
      (s'.collector.outcomes.map ReplayOutcome.sequence) (outcomeNumber a)
      (weight outcomeNumber k) := by
  by_cases happend : ∃ o, a = .appendOutcome o
  · obtain ⟨o, rfl⟩ := happend
    cases h
    exact .append o.sequence rfl (List.map_append ..) rfl rfl
  · have happend' : ∀ o, a ≠ .appendOutcome o := fun o ha => happend ⟨o, ha⟩
    have h0 : outcomeNumber a = 0 := by
      cases a <;> first | rfl | exact absurd rfl (happend' _)
    by_cases hdel : ∃ msg, a = .deliver .replayOutcomeCollector msg
    · obtain ⟨msg, rfl⟩ := hdel
      have hcall : s.callback msg w .replayOutcomeCollector = (s', k) := Option.some.inj h
      simp only [callback] at hcall
      split at hcall <;> cases hcall
      · rename_i t ht
        refine .draw rfl rfl rfl ?_
        cases t <;> rfl
      · exact .stay rfl rfl rfl rfl
    · have hdel' : ∀ msg, a ≠ .deliver .replayOutcomeCollector msg := fun msg ha => hdel ⟨msg, ha⟩
      have hcoll := (exec_frame h).collector hdel' happend'
      refine .stay (by rw [hcoll]) (by rw [hcoll]) h0 (weight_eq_zero fun b hb => ?_)
      have hlb := exec_leaves h b hb
      cases b <;> first | rfl | skip
      cases a <;> first | exact hlb.elim | skip
      rename_i sub msg
      cases sub <;> first | exact hlb.elim | exact absurd rfl (hdel' _)

theorem record_move (h : exec a w s = some (s', k)) :
    Move s.recorder.next_sequence s'.recorder.next_sequence
      (s.recorder.records.map ReplayRecord.sequence)
      (s'.recorder.records.map ReplayRecord.sequence) (recordNumber a)
      (weight recordNumber k) := by
  by_cases happend : ∃ r, a = .appendRecord r
  · obtain ⟨r, rfl⟩ := happend
    cases h
    exact .append r.sequence rfl (List.map_append ..) rfl rfl
  · have happend' : ∀ r, a ≠ .appendRecord r := fun r ha => happend ⟨r, ha⟩
    have h0 : recordNumber a = 0 := by
      cases a <;> first | rfl | exact absurd rfl (happend' _)
    by_cases hdel : ∃ msg, a = .deliver .replayRecorder msg
    · obtain ⟨msg, rfl⟩ := hdel
      have hcall : s.callback msg w .replayRecorder = (s', k) := Option.some.inj h
      simp only [callback] at hcall
      split at hcall <;> cases hcall
      · exact .draw rfl rfl rfl rfl
      · exact .stay rfl rfl rfl rfl
    · have hdel' : ∀ msg, a ≠ .deliver .replayRecorder msg := fun msg ha => hdel ⟨msg, ha⟩
      have hrec := (exec_frame h).recorder hdel' happend'
      refine .stay (by rw [hrec]) (by rw [hrec]) h0 (weight_eq_zero fun b hb => ?_)
      have hlb := exec_leaves h b hb
      cases b <;> first | rfl | skip
      cases a <;> first | exact hlb.elim | skip
      rename_i sub msg
      cases sub <;> first | exact hlb.elim | exact absurd rfl (hdel' _)

/-- Numbers follow the order of the entries. -/
structure Ticketed (c : Config Runtime Action) : Prop where
  outcomes : Tickets.InOrder c.shared.collector.next_sequence
    (c.shared.collector.outcomes.map ReplayOutcome.sequence) (c.load outcomeNumber)
  records : Tickets.InOrder c.shared.recorder.next_sequence
    (c.shared.recorder.records.map ReplayRecord.sequence) (c.load recordNumber)

/-- Only a terminal message draws a number for an outcome. -/
theorem outcome_drawn (h : exec a w s = some (s', k)) (hne : weight outcomeNumber k ≠ 0) :
    ∃ msg, a = .deliver .replayOutcomeCollector msg ∧ msg.terminal? ≠ none := by
  by_contra hno
  refine hne (weight_eq_zero fun b hb => ?_)
  have hlb := exec_leaves h b hb
  cases b <;> first | rfl | skip
  cases a <;> first | exact hlb.elim | skip
  rename_i sub msg
  cases sub <;> first | exact hlb.elim | skip
  have hterm : msg.terminal? = none := by
    by_contra hsome
    exact hno ⟨msg, rfl, hsome⟩
  simp [exec, Subscriber.captures, callback, hterm] at h
  simp [h.2] at hb

/-- Only a received packet draws a number for a record. -/
theorem record_drawn (h : exec a w s = some (s', k)) (hne : weight recordNumber k ≠ 0) :
    ∃ msg, a = .deliver .replayRecorder msg ∧ msg.packetRx? ≠ none := by
  by_contra hno
  refine hne (weight_eq_zero fun b hb => ?_)
  have hlb := exec_leaves h b hb
  cases b <;> first | rfl | skip
  cases a <;> first | exact hlb.elim | skip
  rename_i sub msg
  cases sub <;> first | exact hlb.elim | skip
  have hrx : msg.packetRx? = none := by
    by_contra hsome
    exact hno ⟨msg, rfl, hsome⟩
  simp [exec, Subscriber.captures, callback, hrx] at h
  simp [h.2] at hb

/-- A step that draws with room left, or appends oldest first, leaves the numbers in order. -/
theorem inOrder_step {number : Action → Multiset UInt64} {next next' : UInt64} {done done' : List UInt64}
    (hin : Tickets.InOrder next done (c.load number)) (hr : Replaces a k c d)
    (hmove : Move next next' done done' (number a) (weight number k))
    (hdraw : weight number k ≠ 0 → (c.load number).card < 2 ^ 64)
    (hold : ∀ n, number a = {n} → ∀ m ∈ c.load number, age next m ≤ age next n) :
    Tickets.InOrder next' done' (d.load number) := by
  obtain ⟨x, hlc, hld⟩ := hr.load number
  rw [hlc] at hin hdraw hold
  rw [hld]
  exact hin.move hmove hdraw hold

theorem Ticketed.step (hc : Ticketed c) (hφ : OldestFirst c a) (h : Step program c a d) :
    Ticketed d := by
  obtain ⟨w, k, he, hr⟩ := step_spec h
  constructor
  · refine inOrder_step hc.outcomes hr (outcome_move he) (fun hne => ?_) fun n hn => ?_
    · obtain ⟨msg, rfl, hterm⟩ := outcome_drawn he hne
      exact hφ hterm
    · cases a <;> first | exact absurd hn (Multiset.singleton_ne_zero n).symm | skip
      cases Multiset.singleton_inj.1 hn
      exact hφ
  · refine inOrder_step hc.records hr (record_move he) (fun hne => ?_) fun n hn => ?_
    · obtain ⟨msg, rfl, hrx⟩ := record_drawn he hne
      exact hφ hrx
    · cases a <;> first | exact absurd hn (Multiset.singleton_ne_zero n).symm | skip
      cases Multiset.singleton_inj.1 hn
      exact hφ

theorem Ticketed.sequenceIsOrder (hc : Ticketed c) : SequenceIsOrder c.shared := by
  refine ⟨fun i o ho => hc.outcomes.getElem? ?_, fun i r hr => hc.records.getElem? ?_⟩
  · rw [List.getElem?_map, ho]
    rfl
  · rw [List.getElem?_map, hr]
    rfl

theorem ticketed_start (subscribers : List Subscriber) (cfg : FailureConfig)
    (engine : Option SwitchForwardingEngine) (transport : Option TransportManager)
    {callers : List (List Action)} (hcallers : ∀ t ∈ callers, ∀ a ∈ t, IsEntry a) :
    Ticketed (start (initial subscribers cfg engine transport) callers) := by
  have hload : ∀ f : Action → Multiset UInt64, (∀ a, IsEntry a → f a = 0) → f .processLoop = 0 →
      (start (initial subscribers cfg engine transport) callers).load f = 0 := by
    intro f hf hloop
    refine load_eq_zero fun t ht a ha => ?_
    rcases List.mem_cons.1 ht with rfl | ht
    · rw [List.mem_singleton.1 ha, hloop]
    · exact hf a (hcallers t ht a ha)
  constructor
  · rw [hload outcomeNumber (fun a ha => ?_) rfl]
    · exact inOrder_nil
    · cases a <;> first | rfl | exact ha.elim
  · rw [hload recordNumber (fun a ha => ?_) rfl]
    · exact inOrder_nil
    · cases a <;> first | rfl | exact ha.elim

/-- A number that is the place the list goes on with is the oldest in hand. -/
theorem oldest_of_place {number : Action → Multiset UInt64} {next n : UInt64} {done : List UInt64}
    (hin : Tickets.InOrder next done (c.load number)) (hr : Replaces a k c d) (hn : number a = {n})
    (hplace : n = UInt64.ofNat done.length) : ∀ m ∈ c.load number, age next m ≤ age next n := by
  obtain ⟨x, hlc, -⟩ := hr.load number
  rw [hlc, hn] at hin ⊢
  intro m hm
  rcases Multiset.mem_add.1 hm with hm | hm
  · rw [Multiset.mem_singleton.1 hm]
  · exact hin.oldest_iff.1 hplace m hm

/-- An outcome that is not appended oldest first gets a number that is not its place. -/
theorem Ticketed.outcome_out_of_place {o : ReplayOutcome} (hc : Ticketed c)
    (h : Step program c (.appendOutcome o) d) (hφ : ¬ OldestFirst c (.appendOutcome o)) :
    ¬ SequenceIsOrder d.shared := by
  intro hd
  obtain ⟨w, k, he, hr⟩ := step_spec h
  have hcoll : d.shared.collector.outcomes = c.shared.collector.outcomes ++ [o] := by
    simp only [exec, Option.some.injEq, Prod.mk.injEq] at he
    rw [← he.1]
  refine hφ (oldest_of_place hc.outcomes hr rfl ?_)
  rw [List.length_map]
  exact hd.outcomes c.shared.collector.outcomes.length o (by simp [hcoll])

theorem Ticketed.record_out_of_place {r : ReplayRecord} (hc : Ticketed c)
    (h : Step program c (.appendRecord r) d) (hφ : ¬ OldestFirst c (.appendRecord r)) :
    ¬ SequenceIsOrder d.shared := by
  intro hd
  obtain ⟨w, k, he, hr⟩ := step_spec h
  have hrec : d.shared.recorder.records = c.shared.recorder.records ++ [r] := by
    simp only [exec, Option.some.injEq, Prod.mk.injEq] at he
    rw [← he.1]
  refine hφ (oldest_of_place hc.records hr rfl ?_)
  rw [List.length_map]
  exact hd.records c.shared.recorder.records.length r (by simp [hrec])

/-- As long as every entry is appended oldest first, the numbers are the places; the first entry that
is not gets another number. -/
theorem sequence_is_order (subscribers : List Subscriber) (cfg : FailureConfig)
    (engine : Option SwitchForwardingEngine) (transport : Option TransportManager)
    {callers : List (List Action)} (hcallers : ∀ t ∈ callers, ∀ a ∈ t, IsEntry a)
    (h : Reaches program OldestFirst
      (start (initial subscribers cfg engine transport) callers) c) :
    SequenceIsOrder c.shared ∧ ∀ a d, Step program c a d → Recording a → ¬ OldestFirst c a →
      ¬ SequenceIsOrder d.shared := by
  have hc : Ticketed c := h.invariant (ticketed_start subscribers cfg engine transport hcallers)
    fun _ _ _ hc hφ hs => hc.step hφ hs
  refine ⟨hc.sequenceIsOrder, fun a d hstep hrec hφ => ?_⟩
  cases a <;> first | exact hrec.elim | skip
  · exact hc.record_out_of_place hstep hφ
  · exact hc.outcome_out_of_place hstep hφ

/-- Two threads report a drop each, one after the other. -/
theorem sequence_is_order_two : ∃ c,
    Reaches program OldestFirst (start (initial [.replayOutcomeCollector] {} none none)
      [[.publish .publisher (PacketProcessor.dropMessage {} .parseError 5)],
        [.publish .publisher (PacketProcessor.dropMessage {} .rateLimited 5)]]) c ∧
    c.shared.collector.outcomes = [⟨0, .dropped, 0, .parseError⟩, ⟨1, .dropped, 0, .rateLimited⟩] ∧
    SequenceIsOrder c.shared := by
  have hplay : ∃ c, play program OldestFirst [(1, {}), (2, {}), (1, {}), (2, {}), (1, {}), (2, {})]
      (start (initial [.replayOutcomeCollector] {} none none)
        [[.publish .publisher (PacketProcessor.dropMessage {} .parseError 5)],
          [.publish .publisher (PacketProcessor.dropMessage {} .rateLimited 5)]]) = some c ∧
      c.shared.collector.outcomes =
        [⟨0, .dropped, 0, .parseError⟩, ⟨1, .dropped, 0, .rateLimited⟩] := ⟨_, rfl, rfl⟩
  obtain ⟨c, hplay, hout⟩ := hplay
  have hr := reaches_of_play hplay
  exact ⟨c, hr, hout, (sequence_is_order _ _ _ _ (by simp [IsEntry]) hr).1⟩

/-- The worker draws the first number for its packet, and the thread that publishes the second packet,
which is lost, draws the second one and appends before it. Two threads publish packets likewise. -/
theorem sequence_overtaken : (∃ c,
    Reaches program anyStep (start (initial [.packetProcessor, .replayOutcomeCollector]
        { enabled := true, lifecycle_rules := [⟨2, .simulatedLoss⟩] } none none)
      [[.publish .publisher ⟨.packetRx, 5, .packet { lifecycle_id := 1, timestamp_ms := 5 }⟩,
        .publish .publisher ⟨.packetRx, 5, .packet { lifecycle_id := 2, timestamp_ms := 5 }⟩]]) c ∧
    ¬ c.Pending Recording ∧
    c.shared.collector.outcomes = [⟨1, .dropped, 2, .simulatedLoss⟩, ⟨0, .processed, 1, .unknown⟩]) ∧
  ∃ c, Reaches program anyStep (start (initial [.replayRecorder] {} none none)
      [[.publish .publisher ⟨.packetRx, 5, .packet { lifecycle_id := 1 }⟩],
        [.publish .publisher ⟨.packetRx, 5, .packet { lifecycle_id := 2 }⟩]]) c ∧
    ¬ c.Pending Recording ∧
    c.shared.recorder.records = [⟨1, { lifecycle_id := 2 }⟩, ⟨0, { lifecycle_id := 1 }⟩] := by
  have houtcomes : ∃ c, play program anyStep
      ((List.replicate 4 1 ++ List.replicate 4 0 ++ List.replicate 6 1 ++ [0]).map fun i => (i, {}))
      (start (initial [.packetProcessor, .replayOutcomeCollector]
        { enabled := true, lifecycle_rules := [⟨2, .simulatedLoss⟩] } none none)
      [[.publish .publisher ⟨.packetRx, 5, .packet { lifecycle_id := 1, timestamp_ms := 5 }⟩,
        .publish .publisher ⟨.packetRx, 5, .packet { lifecycle_id := 2, timestamp_ms := 5 }⟩]]) =
        some c ∧ ¬ c.Pending Recording ∧
      c.shared.collector.outcomes =
        [⟨1, .dropped, 2, .simulatedLoss⟩, ⟨0, .processed, 1, .unknown⟩] :=
    ⟨_, rfl, by decide, rfl⟩
  have hrecords : ∃ c, play program anyStep
      ([1, 2, 1, 2, 2, 1].map fun i => (i, {})) (start (initial [.replayRecorder] {} none none)
      [[.publish .publisher ⟨.packetRx, 5, .packet { lifecycle_id := 1 }⟩],
        [.publish .publisher ⟨.packetRx, 5, .packet { lifecycle_id := 2 }⟩]]) = some c ∧
      ¬ c.Pending Recording ∧
      c.shared.recorder.records = [⟨1, { lifecycle_id := 2 }⟩, ⟨0, { lifecycle_id := 1 }⟩] :=
    ⟨_, rfl, by decide, rfl⟩
  obtain ⟨c, hplay, hpending, hout⟩ := houtcomes
  obtain ⟨c', hplay', hpending', hout'⟩ := hrecords
  exact ⟨⟨c, reaches_of_play hplay, hpending, hout⟩, c', reaches_of_play hplay', hpending', hout'⟩

end Runtime

end EdgeNetSwitch
