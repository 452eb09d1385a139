import EdgeNetSwitch.Daemon.Conservation
import EdgeNetSwitch.Daemon.Proofs.RuntimeProofs

/-!
# Proofs: no packet is lost or counted twice

The conservation law holds in every interleaving (`inFlight_balance`). At the exit of the worker it
becomes an equation between packets and terminal messages only if no callback is still on its way to
the queue, since the worker does not wait for callbacks.
-/

namespace EdgeNetSwitch

namespace Runtime

open Threads PacketProcessor

variable {s s' : Runtime} {a : Action} {w : Env} {k : List Action} {c d : Config Runtime Action}

theorem terminated_append (log : List (Source × Message)) (src : Source) (msg : Message)
    (L : UInt64) : (terminated (log ++ [(src, msg)])).count L =
      (terminated log).count L + holds L (.publish src msg) := by
  have happ : terminated (log ++ [(src, msg)]) = terminated log ++
      (if src = .processor ∨ src = .worker then msg.terminal?.map Terminal.lifecycle_id
        else none).toList := by
    unfold terminated
    rw [List.filterMap_append]
    congr 1
  rw [happ, List.count_append, count_toList]
  cases src <;> simp [holds]

/-- An action without packets leaves no action with packets, apart from the callback of the
processor and the worker taking one from the queue. -/
theorem holds_eq_zero_of_leaves {L : UInt64} {b : Action} (h : Leaves a b) (ha : holds L a = 0)
    (hdel : ∀ msg, a ≠ .deliver .packetProcessor msg) (hloop : a ≠ .processLoop)
    (hinj : ∀ p, a ≠ .inject p) (hadm : ∀ p t, a ≠ .enqueue p t)
    (hproc : ∀ p, a ≠ .processPacket p) : holds L b = 0 := by
  cases a with
  | publish src msg => cases b <;> first | rfl | exact h.elim
  | deliver sub msg =>
    cases sub <;> cases b <;> first | rfl | exact h.elim | exact absurd rfl (hdel _) | skip
    rename_i src m
    cases src <;> first | rfl | exact h.elim
  | inject p => exact absurd rfl (hinj p)
  | enqueue p t => exact absurd rfl (hadm p t)
  | processLoop => exact absurd rfl hloop
  | processPacket p => exact absurd rfl (hproc p)
  | handleReadable recv | publishSynthetic arg p | replay records =>
    cases b <;> first | rfl | exact h.elim | skip
    rename_i src m
    cases src <;> first | rfl | exact h.elim
  | _ => cases b <;> first | rfl | exact h.elim

theorem holds_dropMessage (L : UInt64) (p : Packet) (reason : PacketDropReason) (t : UInt64) :
    holds L (.publish .processor (dropMessage p reason t)) = holds L (.inject p) ∧
      holds L (.publish .worker (dropMessage p reason t)) = holds L (.inject p) := by
  constructor <;> simp [holds, dropMessage, Message.terminal?, Terminal.lifecycle_id]

/-- What one action does to the packets of `L`. -/
theorem exec_conserves (L : UInt64) (h : exec a w s = some (s', k)) : ∃ δ,
    (s'.taken.map Packet.lifecycle_id).count L = (s.taken.map Packet.lifecycle_id).count L + δ ∧
    (terminated s'.log).count L + (s'.queue.map Packet.lifecycle_id).count L +
        weight (holds L) k =
      (terminated s.log).count L + (s.queue.map Packet.lifecycle_id).count L + holds L a + δ := by
  have hframe := exec_frame h
  have hleaves := exec_leaves h
  -- the actions that leave queue, log and the packets taken in alone
  have hquiet : holds L a = 0 → (∀ src msg, a ≠ .publish src msg) →
      (∀ msg, a ≠ .deliver .packetProcessor msg) → a ≠ .processLoop → (∀ p, a ≠ .inject p) →
      (∀ p t, a ≠ .enqueue p t) → (∀ p, a ≠ .processPacket p) → ∃ δ,
      (s'.taken.map Packet.lifecycle_id).count L = (s.taken.map Packet.lifecycle_id).count L + δ ∧
      (terminated s'.log).count L + (s'.queue.map Packet.lifecycle_id).count L +
          weight (holds L) k =
        (terminated s.log).count L + (s.queue.map Packet.lifecycle_id).count L + holds L a + δ := by
    intro h0 hpub hdel hloop hinj hadm hproc
    have hw : weight (holds L) k = 0 := weight_eq_zero fun b hb =>
      holds_eq_zero_of_leaves (hleaves b hb) h0 hdel hloop hinj hadm hproc
    refine ⟨0, by rw [hframe.taken hdel, add_zero], ?_⟩
    rw [hframe.log hpub, hframe.queue hadm hloop]
    omega
  cases a with
  | publish src msg =>
    have hw : weight (holds L) k = 0 := weight_eq_zero fun b hb => by
      have := hleaves b hb
      cases b <;> first | rfl | exact this.elim
    refine ⟨0, by rw [hframe.taken (by simp), add_zero], ?_⟩
    rw [hw, hframe.queue (by simp) (by simp)]
    cases h
    rw [terminated_append]
    omega
  | deliver sub msg =>
    by_cases hsub : sub = .packetProcessor
    · subst hsub
      rw [hframe.log (by simp), hframe.queue (by simp) (by simp)]
      simp only [exec] at h
      split_ifs at h
      · cases h
        exact ⟨0, rfl, rfl⟩
      · simp only [callback, Option.some.injEq] at h
        split at h <;> cases h
        · rename_i p _
          refine ⟨if p.lifecycle_id = L then 1 else 0, ?_, ?_⟩
          · simp [List.count_singleton]
          · simp [holds]
        · exact ⟨0, rfl, rfl⟩
    · apply hquiet <;> simp [hsub, holds]
  | inject p =>
    refine ⟨0, by rw [hframe.taken (by simp), add_zero], ?_⟩
    rw [hframe.log (by simp), hframe.queue (by simp) (by simp)]
    have hw : weight (holds L) k = holds L (.inject p) := by
      simp only [exec, Option.some.injEq, Prod.mk.injEq] at h
      rw [← h.2]
      by_cases hterm : (s.injector.inject p).1.is_terminal
      · rw [if_pos hterm, weight_cons, weight_nil, (holds_dropMessage L p _ _).1, add_zero]
      · rw [if_neg hterm, weight_cons, weight_nil, add_zero]
        rfl
    omega
  | enqueue p t =>
    refine ⟨0, by rw [hframe.taken (by simp), add_zero], ?_⟩
    rw [hframe.log (by simp)]
    rcases exec_enqueue h with ⟨-, rfl, rfl⟩ | ⟨-, rfl, rfl⟩
    · rw [weight_cons, weight_nil, (holds_dropMessage L p _ _).1]
      simp only [holds]
      omega
    · simp [holds, List.count_singleton]
      omega
  | processLoop =>
    refine ⟨0, by rw [hframe.taken (by simp), add_zero], ?_⟩
    rw [hframe.log (by simp)]
    rcases exec_processLoop h with ⟨p, queue, hq, rfl, rfl⟩ | ⟨-, -, rfl, rfl⟩
    · simp [hq, holds, List.count_cons]
      omega
    · simp [holds]
  | processPacket p =>
    refine ⟨0, by rw [hframe.taken (by simp), add_zero], ?_⟩
    rw [hframe.log (by simp), hframe.queue (by simp) (by simp)]
    have hw : weight (holds L) k = holds L (.processPacket p) := by
      have hmsg : holds L (.publish .worker (processedMessage (sized p))) =
          holds L (.processPacket p) := by
        simp [holds, processedMessage, sized, Message.terminal?, Terminal.lifecycle_id]
      rcases exec_processPacket h with
        ⟨t, -, -, rfl⟩ | ⟨-, ⟨_, _, decision, _, -, -, -, -, rfl⟩ | ⟨-, -, rfl⟩⟩
      · rw [weight_cons, weight_nil, (holds_dropMessage L p _ _).2, add_zero]
        rfl
      · rw [weight_append, weight_cons, weight_cons, weight_nil, hmsg, weight_eq_zero fun b hb => ?_]
        · simp [holds, forwardingMessage, Message.terminal?]
        · split_ifs at hb
          · obtain ⟨port, -, rfl⟩ := List.mem_map.1 hb
            rfl
          · simp at hb
      · rw [weight_cons, weight_nil, hmsg, add_zero]
    omega
  | _ => apply hquiet <;> simp [holds]

theorem holds_eq_zero_of_isCall {L : UInt64} (h : IsCall a) : holds L a = 0 := by
  cases a <;> first | rfl | exact h.elim | skip
  rename_i src msg
  cases src <;> first | rfl | exact absurd rfl h.1 | exact absurd rfl h.2

section Start

variable {subscribers : List Subscriber} {cfg : FailureConfig}
  {engine : Option SwitchForwardingEngine} {transport : Option TransportManager}
  {callers : List (List Action)} {φ : Config Runtime Action → Action → Prop}

/-- The conservation law, in every interleaving. -/
theorem inFlight_balance (hcallers : ∀ t ∈ callers, ∀ a ∈ t, IsCall a)
    (h : Reaches program φ (start (initial subscribers cfg engine transport) callers) c)
    (L : UInt64) : (c.shared.taken.map Packet.lifecycle_id).count L =
      (terminated c.shared.log).count L + inFlight L c := by
  rw [inFlight, ← add_assoc]
  refine h.invariant (I := fun c => (c.shared.taken.map Packet.lifecycle_id).count L =
    (terminated c.shared.log).count L + (c.shared.queue.map Packet.lifecycle_id).count L +
      c.load (holds L)) ?_ ?_
  · rw [load_eq_zero fun t ht a ha => ?_]
    · rfl
    · rcases List.mem_cons.1 ht with rfl | ht
      · rw [List.mem_singleton.1 ha]
        rfl
      · exact holds_eq_zero_of_isCall (hcallers t ht a ha)
  · intro c a d hc _ hs
    obtain ⟨o, k, he, hr⟩ := step_spec hs
    obtain ⟨δ, hf, hg⟩ := exec_conserves L he
    exact hr.balance hc hf hg

/-! ## Shutdown -/

/-- What a quiet shutdown keeps: no callback is in progress once the processor has been stopped, and
the worker leaves an empty queue. -/
structure Quiet (c : Config Runtime Action) : Prop where
  worker : WorkerThread c
  stopped : c.shared.running = false → ¬ c.Pending InCallback
  exited : c.shared.exited = true → c.shared.queue = [] ∧ c.shared.running = false

theorem inCallback_of_leaves {b : Action} (h : Leaves a b) (hb : InCallback b) :
    InCallback a ∨ ∃ src msg, a = .publish src msg ∧ msg.type = .packetRx := by
  cases a with
  | publish src msg =>
    cases b with
    | deliver sub m =>
      cases sub <;> first | exact hb.elim | skip
      exact Or.inr ⟨src, msg, rfl, by simpa [Subscriber.types] using h.2⟩
    | _ => exact h.elim
  | deliver sub msg =>
    cases sub <;> cases b <;> first | exact h.elim | exact hb.elim | exact Or.inl trivial | skip
    rename_i src m
    cases src <;> first | exact h.elim | exact hb.elim
  | inject p | enqueue p t => exact Or.inl trivial
  | processPacket p | handleReadable recv | publishSynthetic arg p | replay records =>
    cases b <;> first | exact h.elim | exact hb.elim | skip
    rename_i src m
    cases src <;> first | exact h.elim | exact hb.elim
  | _ => cases b <;> first | exact h.elim | exact hb.elim

theorem quiet_start (hcallers : ∀ t ∈ callers, ∀ a ∈ t, IsCall a) :
    Quiet (start (initial subscribers cfg engine transport) callers) := by
  refine ⟨workerThread_start rfl hcallers, fun h => ?_, fun h => ?_⟩
  · cases h
  · cases h

theorem Quiet.step (hc : Quiet c) (hφ : QuietShutdown c a) (h : Step program c a d) : Quiet d := by
  have hworker := hc.worker.step h
  obtain ⟨o, k, he, hr⟩ := step_spec h
  have hframe := exec_frame he
  refine ⟨hworker, fun hrun => ?_, fun hx => ?_⟩
  · by_cases ha : a = .stopProcessor
    · subst ha
      refine hr.not_pending (fun b hb => ?_) hφ
      exact (exec_leaves he b hb).elim
    · rw [hframe.running ha] at hrun
      have hnot := hc.stopped hrun
      refine hr.not_pending (fun b hb hcb => ?_) hnot
      rcases inCallback_of_leaves (exec_leaves he b hb) hcb with hca | ⟨src, msg, rfl, hrx⟩
      · obtain ⟨t, ht, x, hxt, rfl⟩ := hr.pending
        exact hnot ⟨t, ht, _, hxt, hca⟩
      · rw [show c.shared.running = true from hφ hrx] at hrun
        cases hrun
  · by_cases ha : a = .processLoop
    · subst ha
      rcases exec_processLoop he with ⟨p, queue, -, hs, -⟩ | ⟨hq, hrun, hs, -⟩
      · -- a worker that has exited is not in its loop
        rw [hs] at hx
        have h0 := hc.worker.exited hx
        obtain ⟨t, ht, x, hxt, rfl⟩ := hr.pending
        have := load_pos (w := loopToken) ⟨t, ht, _, hxt, by simp [loopToken]⟩
        omega
      · rw [hs]
        exact ⟨hq, hrun⟩
    · rw [hframe.exited ha] at hx
      obtain ⟨hq, hrun⟩ := hc.exited hx
      have hadm : ∀ p t, a ≠ .enqueue p t := by
        rintro p t rfl
        obtain ⟨u, hu, x, hxu, rfl⟩ := hr.pending
        exact hc.stopped hrun ⟨u, hu, _, hxu, trivial⟩
      rw [hframe.queue hadm ha]
      refine ⟨hq, ?_⟩
      by_cases hstop : a = .stopProcessor
      · subst hstop
        simp only [exec, Option.some.injEq, Prod.mk.injEq] at he
        rw [← he.1]
      · rw [hframe.running hstop, hrun]

/-- After a quiet shutdown the worker exits with nothing left in flight. -/
theorem Quiet.inFlight_eq_zero (hc : Quiet c) (hx : c.shared.exited = true) (L : UInt64) :
    inFlight L c = 0 := by
  obtain ⟨hq, hrun⟩ := hc.exited hx
  have hload : c.load (holds L) = 0 := by
    apply load_eq_zero
    intro t ht a ha
    have hcb : ¬ InCallback a := fun h => hc.stopped hrun ⟨t, ht, a, ha, h⟩
    have hw : ¬ OfWorker a := fun h => hc.worker.not_pending hx ⟨t, ht, a, ha, h⟩
    cases a <;> first | rfl | exact absurd trivial hcb | exact absurd trivial hw | skip
    rename_i src msg
    cases src <;> first | rfl | exact absurd trivial hcb | exact absurd trivial hw
  rw [inFlight, hq, hload]
  rfl

/-- Every packet taken in has, in every state of every run, one terminal message or one copy in
flight; and after a quiet shutdown the worker exits with an empty queue and no packet lost. -/
theorem packet_conservation (hcallers : ∀ t ∈ callers, ∀ a ∈ t, IsCall a) :
    (∀ c, Reaches program anyStep (start (initial subscribers cfg engine transport) callers) c →
      ∀ L, (c.shared.taken.map Packet.lifecycle_id).count L =
        (terminated c.shared.log).count L + inFlight L c) ∧
    ∀ c, Reaches program QuietShutdown
        (start (initial subscribers cfg engine transport) callers) c →
      c.shared.exited = true → c.shared.queue = [] ∧
        ∀ L, (c.shared.taken.map Packet.lifecycle_id).count L =
          (terminated c.shared.log).count L := by
  refine ⟨fun c h L => inFlight_balance hcallers h L, fun c h hx => ?_⟩
  have hc : Quiet c := h.invariant (quiet_start hcallers) fun _ _ _ hc hφ hs => hc.step hφ hs
  refine ⟨(hc.exited hx).1, fun L => ?_⟩
  rw [inFlight_balance hcallers h L, hc.inFlight_eq_zero hx L, add_zero]

end Start

/-- One packet through a quiet shutdown. -/
theorem packet_conservation_one : ∃ c,
    Reaches program QuietShutdown (start (initial [.packetProcessor] {} none none)
      [[.publish .publisher ⟨.packetRx, 5, .packet { lifecycle_id := 7, timestamp_ms := 5 }⟩],
        [.stopProcessor, .joinWorker]]) c ∧
    c.shared.exited = true ∧ c.shared.queue = [] ∧
      ∀ L, (c.shared.taken.map Packet.lifecycle_id).count L = (terminated c.shared.log).count L := by
  have hplay : ∃ c, play program QuietShutdown
      [(1, {}), (1, {}), (1, {}), (1, {}), (0, {}), (0, {}), (0, {}), (2, {}), (0, {})]
      (start (initial [.packetProcessor] {} none none)
        [[.publish .publisher ⟨.packetRx, 5, .packet { lifecycle_id := 7, timestamp_ms := 5 }⟩],
          [.stopProcessor, .joinWorker]]) = some c ∧ c.shared.exited = true := ⟨_, rfl, rfl⟩
  obtain ⟨c, hplay, hx⟩ := hplay
  have hr := reaches_of_play hplay
  exact ⟨c, hr, hx, (packet_conservation (by simp [IsCall])).2 c hr hx⟩

/-- A callback that is still on its way to the queue when the processor is stopped loses its packet:
the worker exits, and the packet is queued afterwards. -/
theorem packet_lost_at_shutdown : ∃ c,
    Reaches program anyStep (start (initial [.packetProcessor] {} none none)
      [[.publish .publisher ⟨.packetRx, 5, .packet { lifecycle_id := 7, timestamp_ms := 5 }⟩],
        [.stopProcessor, .joinWorker]]) c ∧
    c.shared.exited = true ∧ c.shared.queue ≠ [] ∧
      (c.shared.taken.map Packet.lifecycle_id).count 7 ≠ (terminated c.shared.log).count 7 := by
  have hplay : ∃ c, play program anyStep [(1, {}), (1, {}), (1, {}), (2, {}), (0, {}), (1, {})]
      (start (initial [.packetProcessor] {} none none)
        [[.publish .publisher ⟨.packetRx, 5, .packet { lifecycle_id := 7, timestamp_ms := 5 }⟩],
          [.stopProcessor, .joinWorker]]) = some c ∧ c.shared.exited = true ∧
      c.shared.queue ≠ [] ∧
      (c.shared.taken.map Packet.lifecycle_id).count 7 ≠ (terminated c.shared.log).count 7 := by
    refine ⟨_, rfl, rfl, ?_, ?_⟩ <;> decide
  obtain ⟨c, hplay, h⟩ := hplay
  exact ⟨c, reaches_of_play hplay, h⟩

end Runtime

end EdgeNetSwitch
