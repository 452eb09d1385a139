import EdgeNetSwitch.Daemon.Proofs.WorkerRoundsProofs

/-!
# Proofs: the processor is a bounded queue

Each packet taken in comes to one injected failure or one locked check, and each refused check to one
`QueueOverflow` (`exec_checked`, `exec_overflow`). What the worker publishes is read off its rounds.
-/

namespace EdgeNetSwitch

namespace Runtime

open Threads PacketProcessor

variable {s s' : Runtime} {a : Action} {w : Env} {k : List Action} {c d : Config Runtime Action}
  {tr : List (Runtime × Action)}

/-! ## Callbacks -/

/-- The packets `p` that have come to a failure or to the locked check. -/
def settled (tr : List (Runtime × Action)) (p : Packet) : ℕ :=
  (injectedFailures tr).count p + (fifo tr).accepted.count p + (fifo tr).refused.count p

theorem injectedFailures_inject (tr : List (Runtime × Action)) (s : Runtime) (p : Packet) :
    injectedFailures (tr ++ [(s, .inject p)]) = injectedFailures tr ++
      (if (s.injector.inject p).1.is_terminal then [p] else []) := by
  unfold injectedFailures
  rw [List.filterMap_append]
  congr 1
  by_cases h : (s.injector.inject p).1.is_terminal <;> simp [h]

theorem injectedFailures_append_other (ha : ∀ p, a ≠ .inject p) :
    injectedFailures (tr ++ [(s, a)]) = injectedFailures tr := by
  unfold injectedFailures
  rw [List.filterMap_append]
  cases a <;> first | exact List.append_nil _ | exact absurd rfl (ha _)

/-- The packets checked and refused do not depend on what the worker takes. -/
theorem settled_append_other {p : Packet} (hinj : ∀ q, a ≠ .inject q)
    (henq : ∀ q t, a ≠ .enqueue q t) : settled (tr ++ [(s, a)]) p = settled tr p := by
  unfold settled
  rw [injectedFailures_append_other hinj]
  by_cases hloop : a = .processLoop
  · subst hloop
    rw [fifo_processLoop]
    cases hq : (fifo tr).queue with
    | nil => rw [BoundedFifo.step_poll_nil hq]
    | cons x q => rw [BoundedFifo.step_poll_cons hq]
  · rw [fifo_append_other henq hloop]

theorem settled_enqueue (tr : List (Runtime × Action)) (s : Runtime) (q p : Packet) (t : UInt64) :
    settled (tr ++ [(s, .enqueue q t)]) p = settled tr p + unchecked p (.enqueue q t) := by
  unfold settled
  rw [injectedFailures_append_other (by simp), fifo_enqueue]
  by_cases hlt : (fifo tr).queue.length < maxQueueSize
  · rw [BoundedFifo.step_offer_of_lt hlt]
    simp only [List.count_append, List.count_singleton, unchecked, beq_iff_eq]
    omega
  · rw [BoundedFifo.step_offer_of_full (Nat.not_lt.1 hlt)]
    simp only [List.count_append, List.count_singleton, unchecked, beq_iff_eq]
    omega

theorem unchecked_of_leaves {p : Packet} {b : Action} (h : Leaves a b)
    (hdel : ∀ msg, a ≠ .deliver .packetProcessor msg) (hinj : ∀ q, a ≠ .inject q) :
    unchecked p b = 0 := by
  cases b <;> first | rfl | skip
  · cases a <;> first | exact h.elim | skip
    rename_i sub msg
    cases sub <;> first | exact h.elim | exact absurd rfl (hdel _)
  · cases a <;> first | exact h.elim | exact absurd rfl (hinj _) | skip
    rename_i sub msg
    cases sub <;> exact h.elim

/-- What one action does to the packets `p` taken in. -/
theorem exec_checked (p : Packet) (h : exec a w s = some (s', k)) : ∃ δ,
    s'.taken.count p = s.taken.count p + δ ∧
    settled (tr ++ [(s, a)]) p + weight (unchecked p) k = settled tr p + unchecked p a + δ := by
  have hframe := exec_frame h
  by_cases hdel : ∃ msg, a = .deliver .packetProcessor msg
  · obtain ⟨msg, rfl⟩ := hdel
    rw [settled_append_other (by simp) (by simp)]
    simp only [exec] at h
    split_ifs at h
    · cases h
      exact ⟨0, rfl, rfl⟩
    · simp only [callback, Option.some.injEq] at h
      split at h <;> cases h
      · rename_i q _
        exact ⟨if q = p then 1 else 0, by simp [List.count_singleton], by simp [unchecked]⟩
      · exact ⟨0, rfl, rfl⟩
  · have hdel' : ∀ msg, a ≠ .deliver .packetProcessor msg := fun msg ha => hdel ⟨msg, ha⟩
    refine ⟨0, by rw [hframe.taken hdel', add_zero], ?_⟩
    by_cases hinj : ∃ q, a = .inject q
    · obtain ⟨q, rfl⟩ := hinj
      have hfifo : fifo (tr ++ [(s, .inject q)]) = fifo tr := fifo_append_other (by simp) (by simp)
      unfold settled
      rw [injectedFailures_inject, hfifo]
      simp only [exec, Option.some.injEq, Prod.mk.injEq] at h
      rw [← h.2]
      by_cases hterm : (s.injector.inject q).1.is_terminal
      · rw [if_pos hterm, if_pos hterm, List.count_append, List.count_singleton]
        simp only [weight_cons, weight_nil, unchecked, beq_iff_eq]
        omega
      · rw [if_neg hterm, if_neg hterm, List.append_nil]
        simp only [weight_cons, weight_nil, unchecked]
        omega
    · have hinj' : ∀ q, a ≠ .inject q := fun q ha => hinj ⟨q, ha⟩
      have hw : weight (unchecked p) k = 0 := weight_eq_zero fun b hb =>
        unchecked_of_leaves (exec_leaves h b hb) hdel' hinj'
      by_cases henq : ∃ q t, a = .enqueue q t
      · obtain ⟨q, t, rfl⟩ := henq
        rw [settled_enqueue, hw]
      · have henq' : ∀ q t, a ≠ .enqueue q t := fun q t ha => henq ⟨q, t, ha⟩
        have h0 : unchecked p a = 0 := by
          cases a <;> first | rfl | exact absurd rfl (hinj' _) | exact absurd rfl (henq' _ _)
        rw [settled_append_other hinj' henq', hw, h0]

/-! ## Overflows -/

/-- The packets refused, as a report names them. -/
def refusedIds (tr : List (Runtime × Action)) : List (UInt64 × UInt64) :=
  (fifo tr).refused.map fun p => (p.id, p.lifecycle_id)

theorem overflows_append (log : List (Source × Message)) (src : Source) (msg : Message)
    (id : UInt64 × UInt64) : (overflows (log ++ [(src, msg)])).count id =
      (overflows log).count id + reporting id (.publish src msg) := by
  have happ : overflows (log ++ [(src, msg)]) = overflows log ++
      (if src = .processor ∨ src = .worker then overflow? msg else none).toList := by
    unfold overflows
    rw [List.filterMap_append]
    congr 1
  rw [happ, List.count_append, count_toList]
  cases src <;> simp [reporting]

theorem overflow?_dropMessage (p : Packet) (reason : PacketDropReason) (t : UInt64) :
    overflow? (dropMessage p reason t) =
      if reason = .queueOverflow then some (p.id, p.lifecycle_id) else none := rfl

/-- No injected failure is an overflow. -/
theorem dropReason_ne_queueOverflow (type : FailureType) :
    type.dropReason ≠ .queueOverflow := by
  cases type <;> simp [FailureType.dropReason]

/-- Only the locked check leaves a report. -/
theorem weight_reporting {id : UInt64 × UInt64} (h : exec a w s = some (s', k))
    (henq : ∀ q t, a ≠ .enqueue q t) : weight (reporting id) k = 0 := by
  apply weight_eq_zero
  intro b hb
  have hlb := exec_leaves h b hb
  cases b with
  | publish src msg =>
    cases src <;> first | rfl | skip
    · -- an injected failure
      cases a <;> first | exact hlb.elim | exact absurd rfl (henq _ _) | skip
      · rename_i sub m
        cases sub <;> exact hlb.elim
      · simp only [exec, Option.some.injEq, Prod.mk.injEq] at h
        rw [← h.2] at hb
        split_ifs at hb
        · cases List.mem_singleton.1 hb
          simp [reporting, overflow?_dropMessage, dropReason_ne_queueOverflow]
        · cases List.mem_singleton.1 hb
    · -- a message of the worker
      cases a <;> first | exact hlb.elim | skip
      · rename_i sub m
        cases sub <;> exact hlb.elim
      · rename_i p
        rcases exec_processPacket h with ⟨t, -, -, rfl⟩ | ⟨-, hrest⟩
        · cases List.mem_singleton.1 hb
          simp [reporting, overflow?_dropMessage]
        · rcases hlb with ⟨reason, t, rfl⟩ | rfl | ⟨decision, rfl⟩
          · rcases hrest with ⟨_, _, _, _, -, -, -, -, rfl⟩ | ⟨-, -, rfl⟩
            · rcases List.mem_append.1 hb with hb | hb
              · split_ifs at hb <;> simp at hb
              · simp [dropMessage, forwardingMessage, processedMessage] at hb
            · simp [dropMessage, processedMessage] at hb
          · rfl
          · rfl
  | _ => rfl

/-- What one action does to the packets refused. -/
theorem exec_overflow (id : UInt64 × UInt64) (hq : s.queue = (fifo tr).queue)
    (h : exec a w s = some (s', k)) : ∃ δ,
    (refusedIds (tr ++ [(s, a)])).count id = (refusedIds tr).count id + δ ∧
    (overflows s'.log).count id + weight (reporting id) k =
      (overflows s.log).count id + reporting id a + δ := by
  have hframe := exec_frame h
  by_cases henq : ∃ p t, a = .enqueue p t
  · obtain ⟨p, t, rfl⟩ := henq
    unfold refusedIds
    rw [fifo_enqueue, hframe.log (by simp)]
    rcases exec_enqueue h with ⟨hfull, rfl, rfl⟩ | ⟨hlt, rfl, rfl⟩
    · rw [BoundedFifo.step_offer_of_full (hq ▸ hfull)]
      refine ⟨if (p.id, p.lifecycle_id) = id then 1 else 0, ?_, ?_⟩
      · simp [List.count_singleton]
      · simp [reporting, overflow?_dropMessage]
    · rw [BoundedFifo.step_offer_of_lt (hq ▸ hlt)]
      exact ⟨0, rfl, rfl⟩
  · have henq' : ∀ p t, a ≠ .enqueue p t := fun p t ha => henq ⟨p, t, ha⟩
    have hrefused : refusedIds (tr ++ [(s, a)]) = refusedIds tr := by
      unfold refusedIds
      by_cases hloop : a = .processLoop
      · subst hloop
        rw [fifo_processLoop]
        cases hq : (fifo tr).queue with
        | nil => rw [BoundedFifo.step_poll_nil hq]
        | cons x q => rw [BoundedFifo.step_poll_cons hq]
      · rw [fifo_append_other henq' hloop]
    refine ⟨0, by rw [hrefused, add_zero], ?_⟩
    rw [weight_reporting h henq']
    by_cases hpub : ∃ src msg, a = .publish src msg
    · obtain ⟨src, msg, rfl⟩ := hpub
      rw [(exec_publish h).1, overflows_append]
    · have hpub' : ∀ src msg, a ≠ .publish src msg := fun src msg ha => hpub ⟨src, msg, ha⟩
      have h0 : reporting id a = 0 := by
        cases a <;> first | rfl | exact absurd rfl (hpub' _ _)
      rw [hframe.log hpub', h0]

/-! ## Outcomes -/

/-- The outcome an effect publishes. -/
def outcome : Action → List Terminal
  | .publish .worker msg => (msg.terminal?.map Terminal.untimed).toList
  | _ => []

theorem workerOutcomes_published (tr : List (Runtime × Action)) :
    workerOutcomes (published tr) = (effects tr).flatMap outcome := by
  induction tr using List.reverseRecOn with
  | nil => rfl
  | append_singleton tr x ih =>
    obtain ⟨s, a⟩ := x
    have happ : workerOutcomes (published tr ++ published [(s, a)]) =
        workerOutcomes (published tr) ++ workerOutcomes (published [(s, a)]) :=
      List.filterMap_append
    rw [published_append, happ, ih, effects_append, List.flatMap_append]
    congr 1
    cases a <;> first | rfl | skip
    rename_i src msg
    cases src <;> first | rfl | skip
    show workerOutcomes [(.worker, msg)] = outcome (.publish .worker msg) ++ []
    cases h : msg.terminal? <;> simp [workerOutcomes, outcome, h]

/-- A round publishes one outcome, that of its packet. -/
theorem flatMap_outcome {p : Packet} (h : exec (.processPacket p) w s = some (s', k)) :
    k.flatMap outcome = [classify p] := by
  rcases exec_processPacket h with ⟨t, hr, -, rfl⟩ | ⟨hr, hrest⟩
  · rw [classify, if_pos (rejects_of_eq_some hr)]
    rfl
  · have hclassify : classify p = .processed (sized p) := if_neg (rejects_eq_none.1 hr)
    have htransmit : ∀ (ports : List UInt32),
        (ports.map fun port => Action.transmit port (sized p)).flatMap outcome = [] := by
      intro ports
      rw [List.flatMap_eq_nil_iff]
      intro b hb
      obtain ⟨port, -, rfl⟩ := List.mem_map.1 hb
      rfl
    rw [hclassify]
    rcases hrest with ⟨_, _, decision, _, -, -, -, -, rfl⟩ | ⟨-, -, rfl⟩
    · rw [List.flatMap_append]
      split_ifs
      · rw [htransmit]
        rfl
      · rfl
    · rfl

/-- Rounds are begun for the packets accepted, in order. -/
theorem InRounds.accepted {rounds : List Round} (hc : InRounds tr c rounds) :
    rounds.map Round.packet <+: (fifo tr).accepted := by
  have hpolled : (fifo tr).polled <+: (fifo tr).accepted :=
    ⟨_, BoundedFifo.polled_append_queue (queueOps tr)⟩
  exact (List.prefix_append _ _).trans (hc.packets ▸ hpolled)

theorem InRounds.outcomes {rounds : List Round} (hc : InRounds tr c rounds) :
    workerOutcomes c.shared.log <+: (fifo tr).accepted.map classify := by
  have hrounds : (rounds.flatMap Round.effects).flatMap outcome =
      rounds.map fun r => classify r.packet := by
    rw [List.flatMap_assoc, List.map_eq_flatMap]
    refine List.flatMap_congr fun r hr => ?_
    obtain ⟨w, s', he⟩ := hc.exec r hr
    exact flatMap_outcome he
  have h1 : workerOutcomes c.shared.log <+: rounds.map fun r => classify r.packet := by
    rw [← hrounds, ← hc.effects, List.flatMap_append, hc.log, workerOutcomes_published]
    exact List.prefix_append _ _
  have h2 := hc.accepted.map classify
  rw [List.map_map] at h2
  exact h1.trans h2

/-! ## Refinement -/

/-- The accounts of the callbacks. -/
structure Checked (tr : List (Runtime × Action)) (c : Config Runtime Action) : Prop where
  queue : c.shared.queue = (fifo tr).queue
  checked : ∀ p, c.shared.taken.count p = settled tr p + c.load (unchecked p)
  overflow : ∀ id, (refusedIds tr).count id =
    (overflows c.shared.log).count id + c.load (reporting id)

theorem Checked.step (hc : Checked tr c) (h : Step program c a d) :
    Checked (tr ++ [(c.shared, a)]) d := by
  obtain ⟨w, k, he, hr⟩ := step_spec h
  refine ⟨queue_step hc.queue he, fun p => ?_, fun id => ?_⟩
  · obtain ⟨δ, hf, hg⟩ := exec_checked p he
    exact hr.balance (hc.checked p) hf hg
  · obtain ⟨δ, hf, hg⟩ := exec_overflow id hc.queue he
    exact hr.balance (hc.overflow id) hf hg

theorem checked_start {callers : List (List Action)} (hqueue : s.queue = []) (htaken : s.taken = [])
    (hlog : s.log = []) (hcallers : ∀ t ∈ callers, ∀ a ∈ t, IsEntry a) :
    Checked [] (start s callers) := by
  have hload : ∀ f : Action → ℕ, (∀ a, IsEntry a → f a = 0) → f .processLoop = 0 →
      (start s callers).load f = 0 := by
    intro f hf hloop
    refine load_eq_zero fun t ht a ha => ?_
    rcases List.mem_cons.1 ht with rfl | ht
    · rw [List.mem_singleton.1 ha, hloop]
    · exact hf a (hcallers t ht a ha)
  refine ⟨hqueue, fun p => ?_, fun id => ?_⟩
  · rw [hload (unchecked p) (fun a ha => ?_) rfl]
    · show s.taken.count p = 0
      rw [htaken, List.count_nil]
    · cases a <;> first | rfl | exact ha.elim
  · rw [hload (reporting id) (fun a ha => ?_) rfl]
    · show 0 = (overflows s.log).count id
      rw [hlog]
      rfl
    · cases a <;> first | rfl | skip
      rename_i src msg
      cases src <;> first | rfl | exact absurd rfl ha.1 | exact absurd rfl ha.2

/-- In every run the processor is a bounded queue. -/
theorem refinesFifo (subscribers : List Subscriber) (cfg : FailureConfig)
    (engine : Option SwitchForwardingEngine) (transport : Option TransportManager)
    {callers : List (List Action)} (hcallers : ∀ t ∈ callers, ∀ a ∈ t, IsEntry a)
    (h : Trace program (start (initial subscribers cfg engine transport) callers) tr c) :
    RefinesFifo tr c := by
  have hchecked : Checked tr c :=
    h.invariant (I := Checked) (checked_start rfl rfl rfl hcallers) fun _ _ _ _ hc hs => hc.step hs
  obtain ⟨rounds, hrounds⟩ := inRounds_of_trace hcallers rfl rfl rfl h
  refine ⟨hchecked.queue, ?_, hchecked.checked, hchecked.overflow, hrounds.outcomes⟩
  rw [hchecked.queue]
  exact BoundedFifo.length_queue_le _

/-- Two packets, the second of them over the worker's limit. -/
theorem refinesFifo_two : ∃ tr c,
    Trace program (start (initial [.packetProcessor] {} none none)
      [[.publish .publisher ⟨.packetRx, 5, .packet { lifecycle_id := 7, timestamp_ms := 5 }⟩],
        [.publish .publisher ⟨.packetRx, 5, .packet { lifecycle_id := 8 }⟩]]) tr c ∧
    workerOutcomes c.shared.log = [.processed { lifecycle_id := 7, timestamp_ms := 5 },
      .dropped ⟨.validationError, 0, 0, 8⟩] ∧ RefinesFifo tr c := by
  have hplay : ∃ c, play program anyStep
      [(1, {}), (2, {}), (1, {}), (2, {}), (1, {}), (2, {}), (1, {}), (2, {}), (0, {}), (0, {}),
        (0, {}), (0, {}), (0, {}), (0, {})]
      (start (initial [.packetProcessor] {} none none)
        [[.publish .publisher ⟨.packetRx, 5, .packet { lifecycle_id := 7, timestamp_ms := 5 }⟩],
          [.publish .publisher ⟨.packetRx, 5, .packet { lifecycle_id := 8 }⟩]]) = some c ∧
      workerOutcomes c.shared.log = [.processed { lifecycle_id := 7, timestamp_ms := 5 },
        .dropped ⟨.validationError, 0, 0, 8⟩] := ⟨_, rfl, rfl⟩
  obtain ⟨c, hplay, hlog⟩ := hplay
  obtain ⟨tr, htr⟩ := (reaches_of_play hplay).trace
  exact ⟨tr, c, htr, hlog, refinesFifo _ _ _ _ (by simp [IsEntry]) htr⟩

end Runtime

end EdgeNetSwitch
