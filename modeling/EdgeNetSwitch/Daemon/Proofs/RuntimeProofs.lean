import EdgeNetSwitch.Daemon.Conservation
import EdgeNetSwitch.Threads.Proofs.ProgramProofs

/-!
# Proofs: what one action does

Two facts about every action: the parts of the state it leaves alone (`Frame`), and the actions it
can leave in its place (`Leaves`).
-/

namespace EdgeNetSwitch

namespace Runtime

open Threads PacketProcessor

variable {s s' : Runtime} {a : Action} {w : Env} {k : List Action}

theorem count_toList {β : Type*} [BEq β] [LawfulBEq β] (o : Option β) (x : β)
    [Decidable (o = some x)] : o.toList.count x = if o = some x then 1 else 0 := by
  cases o with
  | none => simp
  | some y => by_cases h : y = x <;> simp [h]

theorem packetRx?_or_terminal? (msg : Message) : msg.packetRx? = none ∨ msg.terminal? = none := by
  obtain ⟨type, t, payload⟩ := msg
  cases type <;> first | exact Or.inl rfl | exact Or.inr rfl

/-- `PacketProcessor` subscribes to the messages that carry a packet to it. -/
theorem type_of_packetRx? {msg : Message} (h : msg.packetRx? ≠ none) :
    msg.type ∈ Subscriber.types .packetProcessor := by
  unfold Message.packetRx? at h
  split at h
  · simp_all [Subscriber.types]
  · exact absurd rfl h

theorem step_spec {c d : Config Runtime Action} (h : Step program c a d) :
    ∃ w k, exec a w c.shared = some (d.shared, k) ∧ Replaces a k c d := h.spec

/-! ## The actions with branches -/

/-- The loop takes a packet and goes on, or is left. -/
theorem exec_processLoop (h : exec .processLoop w s = some (s', k)) :
    (∃ p queue, s.queue = p :: queue ∧ s' = { s with queue } ∧ k = [.processPacket p, .processLoop]) ∨
      s.queue = [] ∧ s.running = false ∧ s' = { s with exited := true } ∧ k = [] := by
  simp only [exec] at h
  split at h
  · rename_i p queue hq
    cases h
    exact Or.inl ⟨p, queue, hq, rfl, rfl⟩
  · rename_i hq
    split_ifs at h with hrun
    cases h
    exact Or.inr ⟨hq, Bool.eq_false_iff.2 hrun, rfl, rfl⟩

/-- A packet is refused by a full queue, and queued otherwise. -/
theorem exec_enqueue {p : Packet} {t : UInt64} (h : exec (.enqueue p t) w s = some (s', k)) :
    maxQueueSize ≤ s.queue.length ∧ s' = s ∧ k = [.publish .processor (dropMessage p .queueOverflow t)] ∨
      s.queue.length < maxQueueSize ∧ s' = { s with queue := s.queue ++ [p] } ∧ k = [] := by
  simp only [exec] at h
  split_ifs at h with hfull
  · cases h
    exact Or.inl ⟨hfull, rfl, rfl⟩
  · cases h
    exact Or.inr ⟨Nat.lt_of_not_le hfull, rfl, rfl⟩

/-- The worker passes a packet that meets neither condition. -/
theorem rejects_eq_none {p : Packet} {t : UInt64} :
    rejects p t = none ↔ ¬ (p.payload.length > maxPayloadSize ∨ p.timestamp_ms = 0) := by
  unfold rejects
  by_cases h1 : p.payload.length > maxPayloadSize
  · simp [h1]
  · by_cases h2 : p.timestamp_ms = 0 <;> simp [h1, h2]

theorem rejects_of_eq_some {p : Packet} {t u : UInt64} (h : rejects p t = some u) :
    p.payload.length > maxPayloadSize ∨ p.timestamp_ms = 0 := by
  by_contra hn
  rw [rejects_eq_none.2 hn] at h
  cases h

/-- A packet is rejected, or forwarded and reported, or only reported. -/
theorem exec_processPacket {p : Packet} (h : exec (.processPacket p) w s = some (s', k)) :
    (∃ t, rejects p w.now_ms = some t ∧ s' = s ∧
      k = [.publish .worker (dropMessage p .validationError t)]) ∨
    rejects p w.now_ms = none ∧ ((∃ engine port decision engine',
        s.forwarding_engine = some engine ∧ p.ingress_port = some port ∧
        engine.processPacket (sized p) port p.timestamp_ms = (decision, engine') ∧
        s' = { s with forwarding_engine := some engine' } ∧
        k = (if s.transport_manager.isSome then decision.egress_ports.map (.transmit · (sized p)) else []) ++
          [.publish .worker (forwardingMessage (sized p) decision),
            .publish .worker (processedMessage (sized p))]) ∨
      (s.forwarding_engine = none ∨ p.ingress_port = none) ∧ s' = s ∧
        k = [.publish .worker (processedMessage (sized p))]) := by
  have hport : (sized p).ingress_port = p.ingress_port := rfl
  simp only [exec] at h
  cases hr : rejects p w.now_ms with
  | some t =>
    simp only [hr] at h
    cases h
    exact Or.inl ⟨t, rfl, rfl, rfl⟩
  | none =>
    refine Or.inr ⟨rfl, ?_⟩
    simp only [hr, hport] at h
    cases hengine : s.forwarding_engine with
    | none =>
      simp only [hengine] at h
      cases h
      exact Or.inr ⟨Or.inl rfl, rfl, rfl⟩
    | some engine =>
      cases hp : p.ingress_port with
      | none =>
        simp only [hengine, hp] at h
        cases h
        exact Or.inr ⟨Or.inr rfl, rfl, rfl⟩
      | some port =>
        simp only [hengine, hp] at h
        cases h
        exact Or.inl ⟨engine, port, _, _, rfl, rfl, rfl, rfl, rfl⟩

/-! ## Frame and leaves -/

/-- What `a` leaves alone. -/
structure Frame (a : Action) (s s' : Runtime) : Prop where
  subscribers : (∀ sub, a ≠ .subscribe sub) → s'.subscribers = s.subscribers
  destroyed : (∀ object, a ≠ .destroy object) → s'.destroyed = s.destroyed
  queue : (∀ p t, a ≠ .enqueue p t) → a ≠ .processLoop → s'.queue = s.queue
  running : a ≠ .stopProcessor → s'.running = s.running
  exited : a ≠ .processLoop → s'.exited = s.exited
  injector : (∀ p, a ≠ .inject p) → s'.injector = s.injector
  forwarding_engine : (∀ p, a ≠ .processPacket p) → s'.forwarding_engine = s.forwarding_engine
  transport_manager : (∀ port p, a ≠ .transmit port p) →
    s'.transport_manager = s.transport_manager
  stats : (∀ msg, a ≠ .deliver .packetStats msg) → s'.stats = s.stats ∧ s'.counted = s.counted
  collector : (∀ msg, a ≠ .deliver .replayOutcomeCollector msg) → (∀ o, a ≠ .appendOutcome o) →
    s'.collector = s.collector
  recorder : (∀ msg, a ≠ .deliver .replayRecorder msg) → (∀ r, a ≠ .appendRecord r) →
    s'.recorder = s.recorder
  lifecycle_gen : (∀ recv, a ≠ .handleReadable recv) → s'.lifecycle_gen = s.lifecycle_gen
  epoll_exited : a ≠ .epollExit → s'.epoll_exited = s.epoll_exited
  log : (∀ src msg, a ≠ .publish src msg) → s'.log = s.log
  taken : (∀ msg, a ≠ .deliver .packetProcessor msg) → s'.taken = s.taken
  dangling : (∀ sub msg, a ≠ .deliver sub msg) → s'.dangling = s.dangling

theorem frame_refl (a : Action) (s : Runtime) : Frame a s s := by
  constructor <;> intros <;> first | rfl | exact ⟨rfl, rfl⟩

theorem exec_frame (h : exec a w s = some (s', k)) : Frame a s s' := by
  cases a with
  | deliver sub msg =>
    simp only [exec] at h
    split_ifs at h
    · cases h
      constructor <;> intros <;> first | rfl | exact ⟨rfl, rfl⟩ | simp_all
    · cases sub <;> simp only [callback, Option.some.injEq] at h
      all_goals first | (split at h) | skip
      all_goals
        cases h
        first
          | exact frame_refl _ _
          | (constructor <;> intros <;> first | rfl | exact ⟨rfl, rfl⟩ | simp_all)
  | processPacket p =>
    rcases exec_processPacket h with ⟨t, -, rfl, -⟩ | ⟨-, ⟨_, _, _, _, -, -, -, rfl, -⟩ | ⟨-, rfl, -⟩⟩
    · exact frame_refl _ _
    · constructor <;> intros <;> first | rfl | exact ⟨rfl, rfl⟩ | simp_all
    · exact frame_refl _ _
  | processLoop =>
    rcases exec_processLoop h with ⟨p, queue, -, rfl, -⟩ | ⟨-, -, rfl, -⟩
    · constructor <;> intros <;> first | rfl | exact ⟨rfl, rfl⟩ | simp_all
    · constructor <;> intros <;> first | rfl | exact ⟨rfl, rfl⟩ | simp_all
  | replay records =>
    cases records <;> cases h <;> exact frame_refl _ _
  | enqueue p t =>
    rcases exec_enqueue h with ⟨-, rfl, -⟩ | ⟨-, rfl, -⟩
    · exact frame_refl _ _
    · constructor <;> intros <;> first | rfl | exact ⟨rfl, rfl⟩ | simp_all
  | joinEpoll | joinWorker =>
    simp only [exec] at h
    split_ifs at h
    cases h
    exact frame_refl _ _
  | _ =>
    cases h
    first
      | exact frame_refl _ _
      | (constructor <;> intros <;> first | rfl | exact ⟨rfl, rfl⟩ | simp_all)

/-- `a` can leave `b` in its place. -/
def Leaves : Action → Action → Prop
  | .publish _ msg, .deliver sub m => m = msg ∧ msg.type ∈ sub.types
  | .deliver .packetProcessor msg, .inject p => msg.packetRx? = some p
  | .deliver .replayRecorder _, .appendRecord _ => True
  | .deliver .replayOutcomeCollector _, .appendOutcome _ => True
  | .deliver (.client _) _, .publish .client _ => True
  | .inject p, .publish .processor msg => ∃ reason t, msg = dropMessage p reason t
  | .inject p, .enqueue q _ => q = p
  | .enqueue p _, .publish .processor msg => ∃ reason t, msg = dropMessage p reason t
  | .processLoop, .processPacket _ => True
  | .processLoop, .processLoop => True
  | .processPacket p, .publish .worker msg =>
    (∃ reason t, msg = dropMessage p reason t) ∨ msg = processedMessage (sized p) ∨
      ∃ decision, msg = forwardingMessage (sized p) decision
  | .processPacket _, .transmit _ _ => True
  | .handleReadable recv, .publish (.receiver recv') msg =>
    recv' = recv ∧ ∃ gen clock, (UdpReceiver.handleReadable gen recv clock).2.1 = some msg
  | .sendPacket arg, .publishSynthetic arg' p => arg' = arg ∧ p ∈ handleSendPacket arg
  | .publishSynthetic arg p, .publish (.control arg') msg =>
    arg' = arg ∧ ∃ t, publishSyntheticPacket p t = some msg
  | .replay records, .publish .replayPlayer msg =>
    ∃ record ∈ records, msg = ⟨.packetRx, record.packet.timestamp_ms, .packet record.packet⟩
  | .replay records, .replay records' => ∃ record, records = record :: records'
  | _, _ => False

theorem exec_leaves (h : exec a w s = some (s', k)) : ∀ b ∈ k, Leaves a b := by
  cases a with
  | publish src msg =>
    cases h
    intro b hb
    obtain ⟨sub, hsub, rfl⟩ := List.mem_map.1 hb
    exact ⟨rfl, by simpa using (List.mem_filter.1 hsub).2⟩
  | deliver sub msg =>
    simp only [exec] at h
    split_ifs at h
    · cases h
      simp
    · cases sub <;> simp only [callback, Option.some.injEq] at h
      all_goals first | (split at h) | skip
      all_goals
        cases h
        simp_all [Leaves]
  | inject p =>
    simp only [exec, Option.some.injEq, Prod.mk.injEq] at h
    obtain ⟨-, rfl⟩ := h
    intro b hb
    by_cases hterm : (s.injector.inject p).1.is_terminal
    · rw [if_pos hterm] at hb
      rw [List.mem_singleton.1 hb]
      exact ⟨_, _, rfl⟩
    · rw [if_neg hterm] at hb
      rw [List.mem_singleton.1 hb]
      exact rfl
  | enqueue p t =>
    rcases exec_enqueue h with ⟨-, -, rfl⟩ | ⟨-, -, rfl⟩
    · intro b hb
      rw [List.mem_singleton.1 hb]
      exact ⟨_, _, rfl⟩
    · simp
  | processPacket p =>
    rcases exec_processPacket h with
      ⟨t, -, -, rfl⟩ | ⟨-, ⟨_, _, decision, _, -, -, -, -, rfl⟩ | ⟨-, -, rfl⟩⟩
    · intro b hb
      rw [List.mem_singleton.1 hb]
      exact Or.inl ⟨_, _, rfl⟩
    · intro b hb
      rcases List.mem_append.1 hb with hb | hb
      · split_ifs at hb
        · obtain ⟨port, -, rfl⟩ := List.mem_map.1 hb
          trivial
        · simp at hb
      · simp only [List.mem_cons, List.not_mem_nil, or_false] at hb
        rcases hb with rfl | rfl
        · exact Or.inr (Or.inr ⟨_, rfl⟩)
        · exact Or.inr (Or.inl rfl)
    · intro b hb
      rw [List.mem_singleton.1 hb]
      exact Or.inr (Or.inl rfl)
  | processLoop =>
    rcases exec_processLoop h with ⟨p, queue, -, -, rfl⟩ | ⟨-, -, -, rfl⟩
    · simp [Leaves]
    · simp
  | replay records =>
    cases records <;> cases h <;> simp [Leaves]
  | joinEpoll | joinWorker =>
    simp only [exec] at h
    split_ifs at h
    cases h
    simp
  | handleReadable recv =>
    cases h
    intro b hb
    obtain ⟨msg, hmsg, rfl⟩ := List.mem_map.1 hb
    exact ⟨rfl, _, _, Option.mem_toList.1 hmsg⟩
  | sendPacket arg =>
    cases h
    intro b hb
    obtain ⟨p, hp, rfl⟩ := List.mem_map.1 hb
    exact ⟨rfl, hp⟩
  | publishSynthetic arg p =>
    cases h
    intro b hb
    obtain ⟨msg, hmsg, rfl⟩ := List.mem_map.1 hb
    exact ⟨rfl, _, Option.mem_toList.1 hmsg⟩
  | _ =>
    cases h
    simp

theorem exec_publish {src : Source} {msg : Message}
    (h : exec (.publish src msg) w s = some (s', k)) :
    s' = { s with log := s.log ++ [(src, msg)] } ∧
      k = (s.subscribers.filter fun sub => msg.type ∈ sub.types).map (.deliver · msg) := by
  cases h
  exact ⟨rfl, rfl⟩

/-- On a live object the callback runs. -/
theorem exec_deliver {sub : Subscriber} {msg : Message} (hs : s.destroyed = [])
    (h : exec (.deliver sub msg) w s = some (s', k)) : s.callback msg w sub = (s', k) := by
  simpa [exec, hs] using h

/-- No callback of other code is invoked when none is registered. -/
theorem not_deliver_client {b : Action} (hs : ∀ type, Subscriber.client type ∉ s.subscribers)
    (h : exec a w s = some (s', k)) (hb : b ∈ k) : ∀ type msg, b ≠ .deliver (.client type) msg := by
  rintro type msg rfl
  cases a with
  | publish src m =>
    rw [(exec_publish h).2] at hb
    obtain ⟨sub, hsub, heq⟩ := List.mem_map.1 hb
    cases heq
    exact hs type (List.mem_of_mem_filter hsub)
  | deliver sub m => cases sub <;> exact exec_leaves h _ hb
  | _ => exact exec_leaves h _ hb

/-! ## The worker thread -/

/-- Carried by the worker thread until it exits. -/
def loopToken : Action → ℕ
  | .processLoop => 1
  | _ => 0

/-- A stack of the worker ends with its loop; the others have no worker actions. -/
def WorkerStack (t : List Action) : Prop :=
  (∀ b ∈ t, ¬ OfWorker b ∧ b ≠ .processLoop) ∨ ∃ u, t = u ++ [.processLoop] ∧ .processLoop ∉ u

/-- The messages of the worker. -/
def WorkerMessage (msg : Message) : Prop :=
  msg.type = .packetProcessed ∨ msg.type = .packetDropped ∨ msg.type = .forwardingDecisionMade

/-- The actions of the worker thread. -/
def OnWorker : Action → Prop
  | .processLoop | .processPacket _ | .transmit _ _ | .appendOutcome _ => True
  | .publish .worker msg => WorkerMessage msg
  | .deliver (.client _) _ => False
  | .deliver sub msg => WorkerMessage msg ∧ msg.type ∈ sub.types
  | _ => False

theorem onWorker_of_leaves {b : Action} (h : Leaves a b) (ha : OnWorker a)
    (hclient : ∀ type msg, b ≠ .deliver (.client type) msg) : OnWorker b := by
  cases a with
  | publish src msg =>
    cases src <;> first | exact ha.elim | skip
    cases b <;> first | exact h.elim | skip
    rename_i sub m
    obtain ⟨rfl, htype⟩ := h
    cases sub <;> first | exact ⟨ha, htype⟩ | exact absurd rfl (hclient _ _)
  | deliver sub msg =>
    cases sub <;> first | exact ha.elim | skip
    all_goals cases b <;> first | exact h.elim | trivial | skip
    all_goals
      obtain ⟨hm, htype⟩ := ha
      rcases hm with hm | hm | hm <;> simp [hm, Subscriber.types] at htype
  | processPacket p =>
    cases b <;> first | exact h.elim | trivial | skip
    rename_i src msg
    cases src <;> first | exact h.elim | skip
    rcases h with ⟨reason, t, rfl⟩ | rfl | ⟨decision, rfl⟩
    · exact Or.inr (Or.inl rfl)
    · exact Or.inl rfl
    · exact Or.inr (Or.inr rfl)
  | processLoop => cases b <;> first | exact h.elim | trivial
  | transmit port p => cases b <;> exact h.elim
  | appendOutcome o => cases b <;> exact h.elim
  | _ => exact ha.elim

/-- There is one worker thread, until it exits. -/
structure WorkerThread (c : Config Runtime Action) : Prop where
  shape : c.Stacks WorkerStack
  token : c.load loopToken ≤ 1
  exited : c.shared.exited = true → c.load loopToken = 0

theorem eq_processLoop_of_leaves (h : Leaves a .processLoop) : a = .processLoop := by
  cases a <;> first | rfl | exact h.elim | skip
  rename_i sub msg
  cases sub <;> exact h.elim

theorem ofWorker_of_leaves {b : Action} (h : Leaves a b) (hb : OfWorker b) :
    OfWorker a ∨ a = .processLoop := by
  cases b with
  | processPacket p =>
    cases a <;> first | exact Or.inr rfl | exact h.elim | skip
    rename_i sub msg
    cases sub <;> exact h.elim
  | publish src msg =>
    cases src <;> first | exact hb.elim | skip
    cases a <;> first | exact Or.inl trivial | exact h.elim | skip
    rename_i sub msg
    cases sub <;> exact h.elim
  | _ => exact hb.elim

/-- A stack without the loop and actions of a kind that the loop alone starts stays one. -/
theorem free_of_leaves {Q : Action → Prop} {rest : List Action}
    (hQ : ∀ {b : Action}, Leaves a b → Q b → Q a ∨ a = .processLoop) (hleaves : ∀ b ∈ k, Leaves a b)
    (ht : ∀ b ∈ a :: rest, ¬ Q b ∧ b ≠ .processLoop) : ∀ b ∈ k ++ rest, ¬ Q b ∧ b ≠ .processLoop := by
  intro b hb
  obtain ⟨ha, ha'⟩ := ht a (by simp)
  rcases List.mem_append.1 hb with hb | hb
  · refine ⟨fun hq => ?_, fun he => ?_⟩
    · exact (hQ (hleaves b hb) hq).elim ha ha'
    · exact ha' (eq_processLoop_of_leaves (he ▸ hleaves b hb))
  · exact ht b (List.mem_cons_of_mem _ hb)

theorem processLoop_not_mem_of_leaves {rest : List Action} (hleaves : ∀ b ∈ k, Leaves a b)
    (hloop : .processLoop ∉ a :: rest) : .processLoop ∉ k ++ rest := by
  rw [List.mem_cons, not_or] at hloop
  rw [List.mem_append, not_or]
  exact ⟨fun hk => hloop.1 (eq_processLoop_of_leaves (hleaves _ hk)).symm, hloop.2⟩

theorem WorkerStack.step {rest : List Action} (h : exec a w s = some (s', k))
    (ht : WorkerStack (a :: rest)) : WorkerStack (k ++ rest) := by
  have hleaves := exec_leaves h
  rcases ht with ht | ⟨u, hu, hloop⟩
  · exact Or.inl (free_of_leaves ofWorker_of_leaves hleaves ht)
  · cases u with
    | nil =>
      obtain ⟨rfl, rfl⟩ := List.cons.inj hu
      rw [List.append_nil]
      rcases exec_processLoop h with ⟨p, queue, -, -, rfl⟩ | ⟨-, -, -, rfl⟩
      · exact Or.inr ⟨[.processPacket p], rfl, by simp⟩
      · exact Or.inl (by simp)
    | cons b u =>
      obtain ⟨rfl, rfl⟩ := List.cons.inj hu
      exact Or.inr ⟨k ++ u, (List.append_assoc _ _ _).symm, processLoop_not_mem_of_leaves hleaves hloop⟩

/-- Only the loop leaves the loop. -/
theorem weight_loopToken_le (h : exec a w s = some (s', k)) :
    weight loopToken k ≤ loopToken a := by
  by_cases ha : a = .processLoop
  · subst ha
    rcases exec_processLoop h with ⟨p, queue, -, -, rfl⟩ | ⟨-, -, -, rfl⟩
    · simp [loopToken]
    · simp
  · rw [weight_eq_zero fun b hb => ?_]
    · exact Nat.zero_le _
    · have hb := exec_leaves h b hb
      cases b <;> first | rfl | exact absurd (eq_processLoop_of_leaves hb) ha

theorem WorkerThread.step {c d : Config Runtime Action} (hc : WorkerThread c)
    (h : Step program c a d) : WorkerThread d := by
  obtain ⟨o, k, he, hr⟩ := step_spec h
  obtain ⟨x, hlc, hld⟩ := hr.load loopToken
  have hle := weight_loopToken_le he
  have htoken := hc.token
  refine ⟨hr.stacks hc.shape fun rest ht => ht.step he, by omega, fun hx => ?_⟩
  by_cases ha : a = .processLoop
  · subst ha
    have hlc' : c.load loopToken = 1 + x := hlc
    -- the loop was left if the worker has exited
    rcases exec_processLoop he with ⟨p, queue, -, hs, -⟩ | ⟨-, -, -, rfl⟩
    · rw [hs] at hx
      have := hc.exited hx
      omega
    · rw [hld, weight_nil]
      omega
  · have := hc.exited ((exec_frame he).exited ha ▸ hx)
    omega

/-- After its exit the worker has nothing in hand. -/
theorem WorkerThread.not_pending {c : Config Runtime Action} (hc : WorkerThread c)
    (hx : c.shared.exited = true) : ¬ c.Pending OfWorker := by
  rintro ⟨t, ht, b, hb, hw⟩
  rcases hc.shape t ht with hn | ⟨u, rfl, -⟩
  · exact (hn b hb).1 hw
  · have h := load_pos (w := loopToken) ⟨_, ht, .processLoop, by simp, by simp [loopToken]⟩
    have := hc.exited hx
    omega

theorem workerThread_start {s : Runtime} {callers : List (List Action)}
    (hs : s.exited = false) (hcallers : ∀ t ∈ callers, ∀ a ∈ t, IsCall a) :
    WorkerThread (start s callers) := by
  have hnot : ∀ a, IsCall a → ¬ OfWorker a ∧ a ≠ .processLoop := by
    intro a ha
    refine ⟨fun hw => ?_, fun he => by subst he; exact ha⟩
    cases a <;> first | exact hw.elim | exact ha | skip
    rename_i src msg
    cases src <;> first | exact hw.elim | exact ha.2 rfl
  have hload : (start s callers).load loopToken = 1 := by
    unfold start
    rw [load_mk_cons, load_eq_zero fun t ht a ha => ?_]
    · rfl
    · have := (hnot a (hcallers t ht a ha)).2
      cases a <;> first | rfl | exact absurd rfl this
  refine ⟨fun t ht => ?_, hload.le, fun hx => ?_⟩
  · rcases List.mem_cons.1 ht with rfl | ht
    · exact Or.inr ⟨[], rfl, by simp⟩
    · exact Or.inl fun b hb => hnot b (hcallers t ht b hb)
  · exact absurd hx (by simp [start, hs])

end Runtime

end EdgeNetSwitch
