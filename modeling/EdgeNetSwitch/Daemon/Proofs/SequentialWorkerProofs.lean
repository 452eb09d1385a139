import EdgeNetSwitch.Daemon.SequentialWorker
import EdgeNetSwitch.Daemon.Proofs.ForwardingProofs
import EdgeNetSwitch.Daemon.Proofs.ReplayProofs
import EdgeNetSwitch.Daemon.Proofs.ReplayStatsProofs

/-!
# Proofs: the worker as a loop over the packets accepted

The engine changes only where the worker begins a packet, so at each beginning it is what the packets begun
before have left (`Learned`); and the rounds of the worker are what the loop does for the packets begun. With
one publishing thread the packets accepted, in hand and still to come to the injector are those it lets pass
(`Admitting`).
-/

namespace EdgeNetSwitch

namespace Runtime

open Threads PacketProcessor

variable {s s' : Runtime} {a b : Action} {w : Env} {k : List Action} {c d : Config Runtime Action}
  {tr : List (Runtime × Action)} {transports : Bool} {engine : Option SwitchForwardingEngine}
  {packets : List Packet}

/-! ## One packet -/

@[simp] theorem untimed_dropMessage (source : Source) (p : Packet) (reason : PacketDropReason) (t : UInt64) :
    (Action.publish source (dropMessage p reason t)).untimed = .publish source (dropMessage p reason 0) := rfl

@[simp] theorem untimed_forwardingMessage (source : Source) (p : Packet) (decision : ForwardingDecision) :
    (Action.publish source (forwardingMessage p decision)).untimed =
      .publish source (forwardingMessage p decision) := rfl

@[simp] theorem untimed_processedMessage (source : Source) (p : Packet) :
    (Action.publish source (processedMessage p)).untimed = .publish source (processedMessage p) := rfl

theorem map_untimed_transmit (ports : List UInt32) (p : Packet) :
    (ports.map (Action.transmit · p)).map Action.untimed = ports.map (.transmit · p) := by
  rw [List.map_map]
  rfl

/-- What the worker does for a packet is what the loop does. -/
theorem exec_handle {p : Packet} (h : exec (.processPacket p) w s = some (s', k)) :
    k.map Action.untimed = (handle s.transport_manager.isSome s.forwarding_engine p).1 ∧
      s'.forwarding_engine = (handle s.transport_manager.isSome s.forwarding_engine p).2 := by
  unfold handle
  rcases exec_processPacket h with
    ⟨t, hr, rfl, rfl⟩ | ⟨hr, ⟨engine, port, decision, engine', hengine, hport, heq, rfl, rfl⟩ | ⟨hno, rfl, rfl⟩⟩
  · rw [if_pos (rejects_of_eq_some hr)]
    exact ⟨rfl, rfl⟩
  · rw [if_neg (rejects_eq_none.1 hr), hengine, hport]
    simp only [heq, and_true]
    rw [List.map_append]
    split_ifs
    · rw [map_untimed_transmit]
      rfl
    · rfl
  · rw [if_neg (rejects_eq_none.1 hr)]
    rcases hno with hno | hno
    · rw [hno]
      exact ⟨rfl, rfl⟩
    · rw [hno]
      cases s'.forwarding_engine <;> exact ⟨rfl, rfl⟩

theorem handleAll_append (engine : Option SwitchForwardingEngine) (packets : List Packet) (p : Packet) :
    handleAll transports engine (packets ++ [p]) =
      ((handleAll transports engine packets).1 ++ (handle transports (handleAll transports engine packets).2 p).1,
        (handle transports (handleAll transports engine packets).2 p).2) := by
  induction packets generalizing engine with
  | nil => simp [handleAll]
  | cons q packets ih => simp [handleAll, ih, List.append_assoc]

/-! ## Every run -/

/-- What the loop does for the packets begun, each with the engine it found. -/
def handledEffects (transports : Bool) (tr : List (Runtime × Action)) : List Action :=
  tr.flatMap fun x => (begun x.2).flatMap fun p => (handle transports x.1.forwarding_engine p).1

/-- The engine is what the packets begun have left. -/
structure Learned (transports : Bool) (engine : Option SwitchForwardingEngine) (tr : List (Runtime × Action))
    (s : Runtime) : Prop where
  transport : s.transport_manager.isSome = transports
  steady : ∀ x ∈ tr, x.1.transport_manager.isSome = transports
  effects : handledEffects transports tr = (handleAll transports engine (begunPackets tr)).1
  engine : s.forwarding_engine = (handleAll transports engine (begunPackets tr)).2

theorem begun_of_ne (ha : ∀ p, a ≠ .processPacket p) : begun a = [] := by
  cases a <;> first | rfl | exact absurd rfl (ha _)

theorem Learned.step (hs : Learned transports engine tr s) (h : exec a w s = some (s', k)) :
    Learned transports engine (tr ++ [(s, a)]) s' := by
  have htransport : s'.transport_manager.isSome = transports := by
    rcases exec_transport_manager h with heq | ⟨heq, -⟩
    · rw [heq]
      exact hs.transport
    · rw [heq]
      exact hs.transport
  refine ⟨htransport, fun x hx => ?_, ?_, ?_⟩
  · rcases List.mem_append.1 hx with hx | hx
    · exact hs.steady x hx
    · rw [List.mem_singleton.1 hx]
      exact hs.transport
  all_goals
    simp only [handledEffects, begunPackets, List.flatMap_append, List.flatMap_singleton]
    by_cases ha : ∃ p, a = .processPacket p
  · obtain ⟨p, rfl⟩ := ha
    show handledEffects transports tr ++ ((handle transports s.forwarding_engine p).1 ++ []) =
      (handleAll transports engine (begunPackets tr ++ [p])).1
    rw [handleAll_append, hs.effects, ← hs.engine, List.append_nil]
  · rw [begun_of_ne fun p hp => ha ⟨p, hp⟩, List.append_nil]
    show handledEffects transports tr ++ [] = _
    rw [List.append_nil]
    exact hs.effects
  · obtain ⟨p, rfl⟩ := ha
    show s'.forwarding_engine = (handleAll transports engine (begunPackets tr ++ [p])).2
    rw [handleAll_append, ← hs.engine, (exec_handle h).2, hs.transport]
  · rw [begun_of_ne fun p hp => ha ⟨p, hp⟩, List.append_nil]
    rcases exec_forwarding_engine h with heq | ⟨-, p, -, hp, -⟩
    · rw [heq]
      exact hs.engine
    · exact absurd ⟨p, hp⟩ ha

theorem learned_of_trace (hs : s.transport_manager.isSome = transports) (hengine : s.forwarding_engine = engine)
    {callers : List (List Action)} (h : Trace program (start s callers) tr c) :
    Learned transports engine tr c.shared := by
  refine h.invariant (I := fun tr c => Learned transports engine tr c.shared) ⟨hs, by simp, rfl, hengine⟩ ?_
  intro tr c a d hc hstep
  obtain ⟨w, k, he, -⟩ := step_spec hstep
  exact hc.step he

/-- What the steps that begin packets contribute is what the rounds do. -/
theorem flatMap_rounds {β : Type*} {rounds : List Round} {g : Runtime × Action → List β}
    (hg : ∀ x : Runtime × Action, isBegin x.2 = false → g x = [])
    (h : rounds.map (fun r => (r.state, Action.processPacket r.packet)) = tr.filter fun x => isBegin x.2) :
    tr.flatMap g = rounds.flatMap fun r => g (r.state, .processPacket r.packet) := by
  have hfilter : (tr.filter fun x => isBegin x.2).flatMap g = tr.flatMap g := by
    clear h
    induction tr with
    | nil => rfl
    | cons x tr ih =>
      rw [List.flatMap_cons, List.filter_cons]
      split_ifs with hx
      · rw [List.flatMap_cons, ih]
      · rw [ih, hg x (by simpa using hx), List.nil_append]
  rw [← hfilter, ← h, List.flatMap_map]

theorem begun_of_not_isBegin (ha : isBegin a = false) : begun a = [] := by
  cases a <;> first | rfl | exact absurd ha (by simp [isBegin])

theorem begunPackets_of_rounds {rounds : List Round}
    (h : rounds.map (fun r => (r.state, Action.processPacket r.packet)) = tr.filter fun x => isBegin x.2) :
    begunPackets tr = rounds.map Round.packet := by
  rw [begunPackets, flatMap_rounds (fun x hx => begun_of_not_isBegin hx) h, List.map_eq_flatMap]
  rfl

/-- The rounds are what the loop does for the packets begun. -/
theorem Learned.rounds {rounds : List Round} (hs : Learned transports engine tr s)
    (h : rounds.map (fun r => (r.state, Action.processPacket r.packet)) = tr.filter fun x => isBegin x.2)
    (hexec : ∀ r ∈ rounds, ∃ w s', exec (.processPacket r.packet) w r.state = some (s', r.effects)) :
    (rounds.flatMap Round.effects).map Action.untimed =
      (handleAll transports engine (rounds.map Round.packet)).1 := by
  rw [← begunPackets_of_rounds h, ← hs.effects, handledEffects,
    flatMap_rounds (fun x hx => by rw [begun_of_not_isBegin hx, List.flatMap_nil]) h, List.map_flatMap]
  refine List.flatMap_congr fun r hr => ?_
  obtain ⟨w, s', he⟩ := hexec r hr
  have hmem : (r.state, Action.processPacket r.packet) ∈ tr :=
    List.mem_of_mem_filter (h ▸ List.mem_map_of_mem hr)
  rw [(exec_handle he).1, hs.steady _ hmem]
  exact (List.append_nil _).symm

/-- The packets begun come first among those accepted. -/
theorem InRounds.begun_append {rounds : List Round} (hc : InRounds tr c rounds) :
    rounds.map Round.packet ++ (pending begun c ++ c.shared.queue) = (fifo tr).accepted := by
  rw [← List.append_assoc, hc.packets, hc.queue]
  exact BoundedFifo.polled_append_queue _

/-- The effects so far come first among those of the loop. -/
theorem InRounds.effects_append {rounds : List Round} (hc : InRounds tr c rounds)
    (hl : Learned transports engine tr c.shared) :
    (Runtime.effects tr).map Action.untimed ++ (pending effect c).map Action.untimed =
      (handleAll transports engine (rounds.map Round.packet)).1 := by
  rw [← List.map_append, hc.effects]
  exact hl.rounds hc.begins hc.exec

/-- In every run, what the worker does is what the loop over the packets accepted does. -/
theorem works_in_sequence (subscribers : List Subscriber) (cfg : FailureConfig)
    (engine : Option SwitchForwardingEngine) (transport : Option TransportManager)
    {callers : List (List Action)} (hcallers : ∀ t ∈ callers, ∀ a ∈ t, IsEntry a)
    (h : Trace program (start (initial subscribers cfg engine transport) callers) tr c) :
    WorksInSequence transport.isSome engine tr c := by
  have hlearned : ∀ {tr c}, Trace program (start (initial subscribers cfg engine transport) callers) tr c →
      Learned transport.isSome engine tr c.shared := learned_of_trace rfl rfl
  obtain ⟨rounds, hrounds⟩ := inRounds_of_trace hcallers rfl rfl rfl h
  have hbegun := begunPackets_of_rounds hrounds.begins
  constructor
  case begun =>
    rw [hbegun]
    exact ⟨_, hrounds.begun_append⟩
  case rounds =>
    rw [hbegun]
    exact ⟨_, hrounds.effects_append (hlearned h)⟩
  case learned => exact (hlearned h).engine
  case before =>
    intro before last hlast
    rw [hbegun] at hlast
    obtain ⟨first, lasts, rfl, rfl, hlasts⟩ := List.map_eq_append_iff.1 hlast
    obtain ⟨r, rfl, -⟩ := List.map_eq_singleton_iff.1 hlasts
    have hbegins := hrounds.begins
    rw [List.map_append] at hbegins
    obtain ⟨tr₁, tr₂, rfl, hbegins₁, -⟩ := List.filter_eq_append_iff.1 hbegins.symm
    obtain ⟨e, h₁⟩ := h.before
    rw [← (hlearned h₁).rounds hbegins₁.symm fun r hr => hrounds.exec r (List.mem_append_left _ hr)]
    apply List.IsPrefix.map
    have hall := hrounds.effects
    rw [List.flatMap_append, List.flatMap_singleton] at hall
    rcases hrounds.last with hnil | ⟨r', hr', hsuffix⟩
    · rw [hnil, List.append_nil] at hall
      rw [hall]
      exact List.prefix_append _ _
    · obtain rfl : r = r' := by simpa using hr'
      obtain ⟨done, hdone⟩ := hsuffix
      rw [← hdone, ← List.append_assoc] at hall
      rw [List.append_cancel_right hall]
      exact List.prefix_append _ _

/-- A packet has been transmitted, and its decision is still to be published. -/
theorem works_in_sequence_flood : ∃ tr c,
    Trace program (start (initial [.packetProcessor] {} (some twoPorts) (some {}))
      [[.publish .publisher ⟨.packetRx, 5, .packet arrival⟩]]) tr c ∧
    c.shared.log = [(.publisher, ⟨.packetRx, 5, .packet arrival⟩)] ∧
    WorksInSequence true (some twoPorts) tr c := by
  have hplay : ∃ c, play program anyStep [(1, {}), (1, {}), (1, {}), (1, {}), (0, {}), (0, {}), (0, {})]
      (start (initial [.packetProcessor] {} (some twoPorts) (some {}))
        [[.publish .publisher ⟨.packetRx, 5, .packet arrival⟩]]) = some c ∧
      c.shared.log = [(.publisher, ⟨.packetRx, 5, .packet arrival⟩)] := ⟨_, rfl, rfl⟩
  obtain ⟨c, hplay, hlog⟩ := hplay
  obtain ⟨tr, htr⟩ := (reaches_of_play hplay).trace
  exact ⟨tr, c, htr, hlog, works_in_sequence _ _ _ _ (by simp [IsEntry]) htr⟩

/-- When the worker has emptied its queue, it has done all that the loop does for the packets accepted. -/
theorem worksThrough_of_drained (subscribers : List Subscriber) (cfg : FailureConfig)
    (engine : Option SwitchForwardingEngine) (transport : Option TransportManager)
    {callers : List (List Action)} (hcallers : ∀ t ∈ callers, ∀ a ∈ t, IsEntry a)
    (h : Trace program (start (initial subscribers cfg engine transport) callers) tr c) (hd : Drained c) :
    WorksThrough transport.isSome engine (fifo tr).accepted tr c := by
  have hlearned : Learned transport.isSome engine tr c.shared := learned_of_trace rfl rfl h
  obtain ⟨rounds, hrounds⟩ := inRounds_of_trace hcallers rfl rfl rfl h
  have hnothing : ∀ {β : Type} (f : Action → List β), f .processLoop = [] → pending f c = [] := by
    intro β f hf
    rw [pending, List.flatMap_eq_nil_iff]
    exact fun t ht => flatMap_of_drained hd hf ht
  have hall : rounds.map Round.packet = (fifo tr).accepted := by
    have hpackets := hrounds.packets
    have hqueue := hrounds.queue
    rw [hnothing begun rfl, List.append_nil] at hpackets
    rw [hd.1] at hqueue
    have hfifo : (fifo tr).polled ++ (fifo tr).queue = (fifo tr).accepted :=
      BoundedFifo.polled_append_queue (queueOps tr)
    rw [← hqueue, List.append_nil] at hfifo
    rw [hpackets, hfifo]
  have heffects := hrounds.effects
  rw [hnothing effect rfl, List.append_nil] at heffects
  refine ⟨?_, ?_⟩
  · rw [heffects, ← hall]
    exact hlearned.rounds hrounds.begins hrounds.exec
  · rw [← hall, ← begunPackets_of_rounds hrounds.begins]
    exact hlearned.engine

/-! ## One publishing thread -/

section Publishing

variable {subs : List Subscriber} {i : FailureInjector} {rest : List Packet}

/-- A packet the injector has let pass, on its way to the queue. -/
def admitted : Action → List Packet
  | .enqueue p _ => [p]
  | _ => []

theorem admitted_of_ne (ha : ∀ p t, a ≠ .enqueue p t) : admitted a = [] := by
  cases a <;> first | rfl | exact absurd rfl (ha _ _)

theorem length_spared_le (i : FailureInjector) (packets : List Packet) :
    (spared i packets).length ≤ packets.length := by
  induction packets generalizing i with
  | nil => exact Nat.le_refl _
  | cons p packets ih =>
    rw [spared, List.length_cons]
    split_ifs
    · exact (ih _).trans (Nat.le_succ _)
    · exact Nat.succ_le_succ (ih _)

theorem accepted_poll (q : BoundedFifo.Fifo Packet) :
    (BoundedFifo.step maxQueueSize q .poll).accepted = q.accepted := by
  cases hq : q.queue with
  | nil => rw [BoundedFifo.step_poll_nil hq]
  | cons p queue => rw [BoundedFifo.step_poll_cons hq]

theorem flatMap_admitted_of_leaves (ha : ∀ p, a ≠ .inject p) (h : exec a w s = some (s', k)) :
    k.flatMap admitted = [] := by
  rw [List.flatMap_eq_nil_iff]
  intro b hb
  apply admitted_of_ne
  rintro p t rfl
  have hleaves := exec_leaves h _ hb
  cases a <;> first | exact hleaves | exact absurd rfl (ha _) | skip
  rename_i sub msg
  cases sub <;> exact hleaves

/-- What the publishing thread does to the packets spared: they pass from those to come (`rest` are those of the
other actions) to the action that has one in hand, and to the queue. -/
theorem exec_spared (hs : Wired subs) (hsubs : s.subscribers = subs) (hdestroyed : s.destroyed = [])
    (ha : OnSource a) (hqueue : s.queue = (fifo tr).queue)
    (hadm : ∀ p t, a = .enqueue p t → s.queue.length < maxQueueSize) (h : exec a w s = some (s', k)) :
    (fifo (tr ++ [(s, a)])).accepted ++ k.flatMap admitted ++ spared s'.injector (k.flatMap awaiting ++ rest) =
      (fifo tr).accepted ++ admitted a ++ spared s.injector (awaiting a ++ rest) := by
  have hframe := exec_frame h
  by_cases hinject : ∃ p, a = .inject p
  · obtain ⟨p, rfl⟩ := hinject
    rw [fifo_append_other (by simp) (by simp)]
    simp only [exec, Option.some.injEq, Prod.mk.injEq] at h
    obtain ⟨rfl, rfl⟩ := h
    show _ = (fifo tr).accepted ++ [] ++ spared s.injector (p :: rest)
    rw [spared, List.append_nil]
    by_cases hterm : (s.injector.inject p).1.is_terminal
    · rw [if_pos hterm, if_pos hterm]
      simp [admitted, awaiting, dropMessage, Message.packetRx?]
    · rw [if_neg hterm, if_neg hterm]
      simp [admitted, awaiting]
  · have hne : ∀ p, a ≠ .inject p := fun p hp => hinject ⟨p, hp⟩
    rw [flatMap_admitted_of_leaves hne h, hframe.injector hne]
    cases a with
    | publish src msg =>
      rw [fifo_append_other (by simp) (by simp), (exec_publish h).2, hsubs, awaiting_publish hs]
      rfl
    | deliver sub msg =>
      rw [fifo_append_other (by simp) (by simp)]
      have hcall := exec_deliver hdestroyed h
      cases sub <;> first | exact ha.elim | simp only [callback] at hcall
      case heartbeat | logger =>
        cases hcall
        rfl
      all_goals
        split at hcall <;> cases hcall
      · rename_i p hp
        simp [admitted, awaiting, hp]
      · rename_i hp
        simp [admitted, awaiting, hp]
      all_goals rfl
    | enqueue p t =>
      have hlt := hadm p t rfl
      rcases exec_enqueue h with ⟨hfull, -, -⟩ | ⟨-, -, rfl⟩
      · omega
      · rw [hqueue] at hlt
        rw [fifo_enqueue, BoundedFifo.step_offer_of_lt hlt]
        simp [admitted, awaiting]
    | replay records =>
      rw [fifo_append_other (by simp) (by simp)]
      cases records <;> cases h <;> simp [admitted, awaiting, Message.packetRx?]
    | appendRecord r | appendOutcome o =>
      rw [fifo_append_other (by simp) (by simp)]
      cases h
      rfl
    | inject p => exact absurd rfl (hne p)
    | _ => exact ha.elim

/-- A run in which one thread publishes `packets` to a bus with `subs`, begun with the injector `i`. -/
structure Admitting (subs : List Subscriber) (i : FailureInjector) (packets : List Packet)
    (tr : List (Runtime × Action)) (c : Config Runtime Action) : Prop where
  subscribers : c.shared.subscribers = subs
  destroyed : c.shared.destroyed = []
  queue : c.shared.queue = (fifo tr).queue
  threads : ∃ tw tp, c.threads = [tw, tp] ∧ (∀ a ∈ tw, OnWorker a) ∧ (∀ a ∈ tp, OnSource a) ∧
    tp.tail.flatMap admitted = [] ∧
    (fifo tr).accepted ++ tp.flatMap admitted ++ spared c.shared.injector (tp.flatMap awaiting) = spared i packets ∧
    (subs.count .replayRecorder = 1 →
      c.shared.recorder.records.map ReplayRecord.packet ++ tp.flatMap captured = packets)

/-- What an action of the publishing thread leaves holds one packet past the injector at most, on top. -/
theorem tail_admitted_of_exec (h : exec a w s = some (s', k)) : k.tail.flatMap admitted = [] := by
  by_cases hinject : ∃ p, a = .inject p
  · obtain ⟨p, rfl⟩ := hinject
    simp only [exec, Option.some.injEq, Prod.mk.injEq] at h
    obtain ⟨-, rfl⟩ := h
    split_ifs <;> rfl
  · have hnil := flatMap_admitted_of_leaves (fun p hp => hinject ⟨p, hp⟩) h
    rw [List.flatMap_eq_nil_iff] at hnil ⊢
    exact fun b hb => hnil b (List.mem_of_mem_tail hb)

theorem tail_admitted_append {l m : List Action} (hl : l.tail.flatMap admitted = [])
    (hm : m.flatMap admitted = []) : (l ++ m).tail.flatMap admitted = [] := by
  cases l with
  | nil =>
    rw [List.nil_append, List.flatMap_eq_nil_iff]
    exact fun b hb => List.flatMap_eq_nil_iff.1 hm b (List.mem_of_mem_tail hb)
  | cons b l =>
    rw [List.cons_append, List.tail_cons, List.flatMap_append, hm, List.append_nil]
    exact hl

theorem Admitting.step (hs : Wired subs) (hlen : packets.length ≤ maxQueueSize)
    (hc : Admitting subs i packets tr c) (h : Step program c a d) :
    Admitting subs i packets (tr ++ [(c.shared, a)]) d := by
  obtain ⟨tw, tp, hthreads, hworker, hsource, htail, hspared, hrec⟩ := hc.threads
  obtain ⟨w, k, he, hr⟩ := step_spec h
  have hframe := exec_frame he
  have hclient : ∀ b ∈ k, ∀ type msg, b ≠ .deliver (.client type) msg := fun b hb =>
    not_deliver_client (fun type => hc.subscribers ▸ hs.client type) he hb
  have hshared : OnSource a ∨ OnWorker a → d.shared.subscribers = subs ∧ d.shared.destroyed = [] := by
    intro ha
    refine ⟨?_, ?_⟩
    · rw [hframe.subscribers (by rintro sub rfl; exact ha.elim id id), hc.subscribers]
    · rw [hframe.destroyed (by rintro o rfl; exact ha.elim id id), hc.destroyed]
  have hqueue := queue_step hc.queue he
  rcases hr.two hthreads with ⟨rest, rfl, hd⟩ | ⟨rest, rfl, hd⟩
  · have ha := hworker a (by simp)
    obtain ⟨hsubs, hdestroyed⟩ := hshared (Or.inr ha)
    refine ⟨hsubs, hdestroyed, hqueue, _, _, hd, fun b hb => ?_, hsource, htail, ?_, fun hcount => ?_⟩
    · rcases List.mem_append.1 hb with hb | hb
      · exact onWorker_of_leaves (exec_leaves he b hb) ha (hclient b hb)
      · exact hworker b (List.mem_cons_of_mem _ hb)
    · have haccepted : (fifo (tr ++ [(c.shared, a)])).accepted = (fifo tr).accepted := by
        by_cases hloop : a = .processLoop
        · rw [hloop, fifo_processLoop, accepted_poll]
        · rw [fifo_append_other (by rintro p t rfl; exact ha) hloop]
      rw [haccepted, hframe.injector (by rintro p rfl; exact ha)]
      exact hspared
    · rw [exec_recorder ha he]
      exact hrec hcount
  · have ha := hsource a (by simp)
    obtain ⟨hsubs, hdestroyed⟩ := hshared (Or.inl ha)
    have hrest : rest.flatMap admitted = [] := htail
    rw [List.flatMap_cons, List.flatMap_cons, hrest, List.append_nil] at hspared
    have hroom : ∀ p t, a = .enqueue p t → c.shared.queue.length < maxQueueSize := by
      rintro p t rfl
      have hfifo := congrArg List.length (@BoundedFifo.polled_append_queue _ maxQueueSize (queueOps tr))
      have hlength := congrArg List.length hspared
      have hle := length_spared_le i packets
      rw [hc.queue]
      simp only [List.length_append, admitted, List.length_singleton] at hfifo hlength
      show (BoundedFifo.run maxQueueSize (queueOps tr)).queue.length < maxQueueSize
      change (BoundedFifo.run maxQueueSize (queueOps tr)).accepted.length + 1 + _ = _ at hlength
      omega
    refine ⟨hsubs, hdestroyed, hqueue, _, _, hd, hworker, fun b hb => ?_,
      tail_admitted_append (tail_admitted_of_exec he) hrest, ?_, fun hcount => ?_⟩
    · rcases List.mem_append.1 hb with hb | hb
      · exact onSource_of_leaves (exec_leaves he b hb) ha (hclient b hb)
      · exact hsource b (List.mem_cons_of_mem _ hb)
    · rw [List.flatMap_append, List.flatMap_append, hrest, List.append_nil,
        exec_spared hs hc.subscribers hc.destroyed ha hc.queue hroom he]
      exact hspared
    · have hcaptured := hrec hcount
      rw [List.flatMap_cons, ← List.append_assoc] at hcaptured
      rw [List.flatMap_append, ← List.append_assoc,
        exec_captured hc.subscribers hc.destroyed hcount ha he]
      exact hcaptured

/-- In a run that is over, the packets accepted are those spared. -/
theorem Admitting.drained (hc : Admitting subs i packets tr c) (hd : Drained c) :
    (fifo tr).accepted = spared i packets ∧ (subs.count .replayRecorder = 1 →
      c.shared.recorder.records.map ReplayRecord.packet = packets) := by
  obtain ⟨tw, tp, hthreads, -, -, -, hspared, hrec⟩ := hc.threads
  have htp : tp ∈ c.threads := by simp [hthreads]
  have hnothing : ∀ {β : Type} (f : Action → List β), f .processLoop = [] → tp.flatMap f = [] :=
    fun f hf => flatMap_of_drained hd hf htp
  rw [hnothing admitted rfl, hnothing awaiting rfl, List.append_nil] at hspared
  refine ⟨?_, fun hcount => ?_⟩
  · rw [← hspared]
    exact (List.append_nil _).symm
  · have hcaptured := hrec hcount
    rwa [hnothing captured rfl, List.append_nil] at hcaptured

theorem admitting_start (cfg : FailureConfig) (engine : Option SwitchForwardingEngine)
    (transport : Option TransportManager) {tp : List Action} (hsource : ∀ a ∈ tp, OnSource a)
    (hawaiting : tp.flatMap awaiting = packets) (hcaptured : tp.flatMap captured = packets)
    (hadmitted : tp.flatMap admitted = []) :
    Admitting subs { config := cfg } packets [] (start (initial subs cfg engine transport) [tp]) := by
  refine ⟨rfl, rfl, rfl, _, _, rfl, ?_, hsource, ?_, ?_, fun _ => hcaptured⟩
  · intro a ha
    rw [List.mem_singleton.1 ha]
    trivial
  · rw [List.flatMap_eq_nil_iff] at hadmitted ⊢
    exact fun b hb => hadmitted b (List.mem_of_mem_tail hb)
  · rw [hadmitted, hawaiting]
    rfl

theorem worksThrough_recorded (hs : Wired subs) (cfg : FailureConfig)
    (engine : Option SwitchForwardingEngine) (transport : Option TransportManager)
    (hlen : packets.length ≤ maxQueueSize) (h : Trace program (recorded subs cfg engine transport packets) tr c)
    (hd : Drained c) :
    WorksThrough transport.isSome engine (spared { config := cfg } packets) tr c ∧
      (subs.count .replayRecorder = 1 → c.shared.recorder.records.map ReplayRecord.packet = packets) := by
  have hpublish : ∀ a ∈ packets.map fun packet => Action.publish .publisher packet.rxMessage,
      IsEntry a ∧ OnSource a ∧ admitted a = [] := by
    intro a ha
    obtain ⟨p, -, rfl⟩ := List.mem_map.1 ha
    exact ⟨⟨nofun, nofun⟩, rfl, rfl⟩
  have hc : Admitting subs { config := cfg } packets tr c := by
    refine h.invariant (admitting_start cfg engine transport (fun a ha => (hpublish a ha).2.1) ?_
      (captured_recorded packets) ?_) fun _ _ _ _ hc hstep => hc.step hs hlen hstep
    · rw [List.flatMap_map]
      exact List.flatMap_singleton' packets
    · rw [List.flatMap_eq_nil_iff]
      exact fun a ha => (hpublish a ha).2.2
  obtain ⟨haccepted, hrecords⟩ := hc.drained hd
  refine ⟨?_, hrecords⟩
  rw [← haccepted]
  refine worksThrough_of_drained subs cfg engine transport (fun t ht a ha => ?_) h hd
  rw [List.mem_singleton.1 ht] at ha
  exact (hpublish a ha).1

theorem worksThrough_replayed (hs : Wired subs) (cfg : FailureConfig)
    (engine : Option SwitchForwardingEngine) (transport : Option TransportManager) {records : List ReplayRecord}
    (hrecords : records.map ReplayRecord.packet = packets) (hlen : packets.length ≤ maxQueueSize)
    (h : Trace program (replayed subs cfg engine transport records) tr c) (hd : Drained c) :
    WorksThrough transport.isSome engine (spared { config := cfg } packets) tr c := by
  have hreplay : ∀ a ∈ [Action.replay records], a = .replay records := fun a ha => List.mem_singleton.1 ha
  have hc : Admitting subs { config := cfg } packets tr c := by
    refine h.invariant (admitting_start cfg engine transport (fun a ha => ?_) ?_ ?_ rfl)
      fun _ _ _ _ hc hstep => hc.step hs hlen hstep
    · rw [hreplay a ha]
      trivial
    · simp [awaiting, hrecords]
    · simp [captured, hrecords]
  rw [← (hc.drained hd).1]
  refine worksThrough_of_drained subs cfg engine transport (fun t ht a ha => ?_) h hd
  rw [List.mem_singleton.1 ht] at ha
  rw [hreplay a ha]
  trivial

/-- Whatever the failure policy and the two interleavings, in a replay the worker makes the decisions of the run
it replays, transmits the same and reports the same, in the same order, and the engine learns the same. -/
theorem replay_works_alike {subs' : List Subscriber} {tr' : List (Runtime × Action)} {c' : Config Runtime Action}
    (hs : Wired subs) (hrec : subs.count .replayRecorder = 1) (hs' : Wired subs') (cfg : FailureConfig)
    (engine : Option SwitchForwardingEngine) (transport transport' : Option TransportManager)
    (hsame : transport'.isSome = transport.isSome) (hlen : packets.length ≤ 1024)
    (h : Trace program (recorded subs cfg engine transport packets) tr c) (hd : Drained c)
    (h' : Trace program (replayed subs' cfg engine transport' c.shared.recorder.records) tr' c')
    (hd' : Drained c') :
    WorksThrough transport.isSome engine (spared { config := cfg } packets) tr c ∧
      (effects tr').map Action.untimed = (effects tr).map Action.untimed ∧
      c'.shared.forwarding_engine = c.shared.forwarding_engine := by
  obtain ⟨hlive, hrecords⟩ := worksThrough_recorded hs cfg engine transport hlen h hd
  have hreplay := worksThrough_replayed hs' cfg engine transport' (hrecords hrec) hlen h' hd'
  rw [hsame] at hreplay
  refine ⟨hlive, ?_, ?_⟩
  · rw [hreplay.effects, hlive.effects]
  · rw [hreplay.engine, hlive.engine]

/-- The station heard on port 1 is answered. -/
def answer : Packet where
  lifecycle_id := 8
  timestamp_ms := 6
  source_mac := some (.station 2)
  destination_mac := some (.station 1)
  ingress_port := some 2

theorem replay_works_alike_two : ∃ tr c tr' c',
    Trace program (recorded [.packetProcessor, .packetStats, .replayRecorder] {} (some twoPorts) (some {})
      [arrival, answer]) tr c ∧
    Trace program (replayed [.packetStats, .packetProcessor] {} (some twoPorts) (some {})
      c.shared.recorder.records) tr' c' ∧
    WorksThrough true (some twoPorts) (spared { config := {} } [arrival, answer]) tr c ∧
    (effects tr').map Action.untimed = (effects tr).map Action.untimed ∧
    c'.shared.forwarding_engine = c.shared.forwarding_engine := by
  have hrecorded : ∃ c, play program anyStep
      ((List.replicate 14 1 ++ List.replicate 12 0).map fun i => (i, {}))
      (recorded [.packetProcessor, .packetStats, .replayRecorder] {} (some twoPorts) (some {})
        [arrival, answer]) = some c ∧ c.shared.queue = [] ∧ c.threads = [[.processLoop], []] ∧
      c.shared.recorder.records = [⟨0, arrival⟩, ⟨1, answer⟩] := ⟨_, rfl, rfl, rfl, rfl⟩
  have hreplayed : ∃ c', play program anyStep
      ((List.replicate 6 1 ++ List.replicate 6 0 ++ List.replicate 7 1 ++ List.replicate 6 0).map fun i => (i, {}))
      (replayed [.packetStats, .packetProcessor] {} (some twoPorts) (some {}) [⟨0, arrival⟩, ⟨1, answer⟩]) =
        some c' ∧ c'.shared.queue = [] ∧ c'.threads = [[.processLoop], []] := ⟨_, rfl, rfl, rfl⟩
  obtain ⟨c, hplay, hqueue, hthreads, hrecords⟩ := hrecorded
  obtain ⟨c', hplay', hqueue', hthreads'⟩ := hreplayed
  have hd : Drained c := ⟨hqueue, by simp [hthreads]⟩
  have hd' : Drained c' := ⟨hqueue', by simp [hthreads']⟩
  obtain ⟨tr, htr⟩ := (reaches_of_play hplay).trace
  rw [← hrecords] at hplay'
  obtain ⟨tr', htr'⟩ := (reaches_of_play hplay').trace
  exact ⟨tr, c, tr', c', htr, htr', replay_works_alike ⟨by decide, by decide, by simp⟩ (by decide)
    ⟨by decide, by decide, by simp⟩ {} (some twoPorts) (some {}) (some {}) rfl (by decide) htr hd htr' hd'⟩

end Publishing

end Runtime

end EdgeNetSwitch
