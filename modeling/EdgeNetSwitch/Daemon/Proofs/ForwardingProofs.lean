import EdgeNetSwitch.Daemon.Proofs.BoundedQueueProofs

/-!
# Proofs: the law of forwarding

Only a round of a forwarded packet reaches the forwarding engine, and only a `transmit` call the
transport (`exec_forwarding_engine`, `exec_transport_manager`); so both stay what they were while every
other packet is handled.
-/

namespace EdgeNetSwitch

namespace Runtime

open Threads PacketProcessor

variable {s s' : Runtime} {a : Action} {w : Env} {k : List Action} {c d : Config Runtime Action}
  {tr : List (Runtime × Action)}

theorem exec_forwarding_engine (h : exec a w s = some (s', k)) :
    s'.forwarding_engine = s.forwarding_engine ∨ (s'.forwarding_engine.isSome ∧
      ∃ p port, a = .processPacket p ∧ p.ingress_port = some port ∧
        ¬ (p.payload.length > 512 ∨ p.timestamp_ms = 0)) := by
  by_cases ha : ∃ p, a = .processPacket p
  · obtain ⟨p, rfl⟩ := ha
    rcases exec_processPacket h with ⟨t, -, rfl, -⟩ | ⟨hr, ⟨_, port, _, _, -, hport, -, rfl, -⟩ | ⟨-, rfl, -⟩⟩
    · exact Or.inl rfl
    · exact Or.inr ⟨rfl, p, port, rfl, hport, rejects_eq_none.1 hr⟩
    · exact Or.inl rfl
  · exact Or.inl ((exec_frame h).forwarding_engine fun p hp => ha ⟨p, hp⟩)

theorem exec_transport_manager (h : exec a w s = some (s', k)) :
    s'.transport_manager = s.transport_manager ∨
      (s'.transport_manager.isSome = s.transport_manager.isSome ∧ ∃ port p, a = .transmit port p) := by
  by_cases ha : ∃ port p, a = .transmit port p
  · obtain ⟨port, p, rfl⟩ := ha
    cases h
    exact Or.inr ⟨by simp, port, p, rfl⟩
  · exact Or.inl ((exec_frame h).transport_manager fun port p hp => ha ⟨port, p, hp⟩)

/-- The engine and the transport are there. -/
def Switched (s : Runtime) : Prop := s.forwarding_engine.isSome ∧ s.transport_manager.isSome

theorem Switched.exec (hs : Switched s) (h : exec a w s = some (s', k)) : Switched s' := by
  refine ⟨?_, ?_⟩
  · rcases exec_forwarding_engine h with he | ⟨he, -⟩
    · rw [he]
      exact hs.1
    · exact he
  · rcases exec_transport_manager h with he | ⟨he, -⟩
    · rw [he]
      exact hs.2
    · rw [he]
      exact hs.2

theorem switched_of_trace (hs : Switched c.shared) (h : Trace program c tr d) :
    Switched d.shared ∧ ∀ x ∈ tr, Switched x.1 := by
  refine h.invariant (I := fun tr d => Switched d.shared ∧ ∀ x ∈ tr, Switched x.1) ⟨hs, by simp⟩ ?_
  intro tr d a e ⟨hd, htr⟩ hstep
  obtain ⟨w, k, he, -⟩ := step_spec hstep
  refine ⟨hd.exec he, fun x hx => ?_⟩
  rcases List.mem_append.1 hx with hx | hx
  · exact htr x hx
  · rw [List.mem_singleton.1 hx]
    exact hd

/-- With both there, a round follows the law. -/
theorem lawful_of_exec {p : Packet} (hs : Switched s)
    (h : Runtime.exec (.processPacket p) w s = some (s', k)) : Round.Lawful ⟨s, p, k⟩ := by
  rcases exec_processPacket h with
    ⟨t, hr, -, rfl⟩ | ⟨hr, ⟨engine, port, decision, engine', hengine, hport, heq, -, rfl⟩ | ⟨hno, -, rfl⟩⟩
  · exact .dropped t (rejects_of_eq_some hr)
  · rw [if_pos hs.2]
    exact .forwarded (rejects_eq_none.1 hr) hport rfl hengine (congrArg Prod.fst heq)
  · have hport : p.ingress_port = none := by
      refine hno.resolve_left fun hnone => ?_
      have hsome := hs.1
      rw [hnone] at hsome
      cases hsome
    exact .processed (rejects_eq_none.1 hr) hport rfl

/-! ## The callbacks -/

/-- A message that a callback publishes reports a drop. -/
def Drops : Action → Prop
  | .publish .processor msg => msg.type = .packetDropped
  | _ => True

theorem drops_of_leaves {b : Action} (h : Leaves a b) : Drops b := by
  cases b with
  | publish src msg =>
    cases src with
    | processor =>
      cases a with
      | inject p | enqueue p t =>
        obtain ⟨reason, t, rfl⟩ := h
        rfl
      | deliver sub m => cases sub <;> exact h.elim
      | _ => exact h.elim
    | _ => trivial
  | _ => trivial

/-- The callbacks have published drops, and are about to publish nothing else. -/
structure CallbacksDrop (c : Config Runtime Action) : Prop where
  log : ∀ msg, (Source.processor, msg) ∈ c.shared.log → msg.type = .packetDropped
  threads : c.Stacks fun t => ∀ b ∈ t, Drops b

theorem CallbacksDrop.step (hc : CallbacksDrop c) (h : Step program c a d) : CallbacksDrop d := by
  obtain ⟨w, k, he, hr⟩ := step_spec h
  have ha : Drops a := by
    obtain ⟨pre, rest, post, hct, -⟩ := hr
    exact hc.threads (a :: rest) (by simp [hct]) a List.mem_cons_self
  constructor
  · by_cases hpub : ∃ src msg, a = .publish src msg
    · obtain ⟨src, m, rfl⟩ := hpub
      rw [(exec_publish he).1]
      intro msg hmem
      rcases List.mem_append.1 hmem with hmem | hmem
      · exact hc.log msg hmem
      · obtain ⟨rfl, rfl⟩ := Prod.mk.inj (List.mem_singleton.1 hmem)
        exact ha
    · rw [(exec_frame he).log fun src msg hmsg => hpub ⟨src, msg, hmsg⟩]
      exact hc.log
  · apply hr.stacks hc.threads
    intro rest ht b hb
    rcases List.mem_append.1 hb with hb | hb
    · exact drops_of_leaves (exec_leaves he b hb)
    · exact ht b (List.mem_cons_of_mem a hb)

theorem callbacksDrop_of_trace {callers : List (List Action)}
    (hcallers : ∀ t ∈ callers, ∀ a ∈ t, IsEntry a) (hlog : s.log = [])
    (h : Trace program (start s callers) tr c) : CallbacksDrop c := by
  refine h.invariant (I := fun _ c => CallbacksDrop c) ?_ fun _ _ _ _ hc hstep => hc.step hstep
  refine ⟨fun msg hmem => ?_, fun t ht b hb => ?_⟩
  · have hnil : (start s callers).shared.log = [] := hlog
    rw [hnil] at hmem
    cases hmem
  · rcases List.mem_cons.1 ht with rfl | ht
    · rw [List.mem_singleton.1 hb]
      trivial
    · have hentry := hcallers t ht b hb
      cases b with
      | publish src msg =>
        cases src with
        | processor => exact absurd rfl hentry.1
        | _ => trivial
      | _ => trivial

/-- In every run with a forwarding engine and a transport manager, the worker forwards by the law. -/
theorem forwardsInRounds (subscribers : List Subscriber) (cfg : FailureConfig)
    (engine : SwitchForwardingEngine) (transport : TransportManager) {callers : List (List Action)}
    (hcallers : ∀ t ∈ callers, ∀ a ∈ t, IsEntry a)
    (h : Trace program (start (initial subscribers cfg (some engine) (some transport)) callers) tr c) :
    ForwardsInRounds tr c := by
  have hstart : Switched (start (initial subscribers cfg (some engine) (some transport))
      callers).shared := ⟨rfl, rfl⟩
  obtain ⟨-, hswitched⟩ := switched_of_trace hstart h
  obtain ⟨rounds, hrounds⟩ := inRounds_of_trace hcallers rfl rfl rfl h
  refine ⟨⟨rounds, pending effect c, hrounds.effects, hrounds.last, hrounds.begins,
    hrounds.accepted, fun r hr => ?_⟩, fun a d hstep => ?_, (callbacksDrop_of_trace hcallers rfl h).log⟩
  · obtain ⟨w, s', he⟩ := hrounds.exec r hr
    have hmem : (r.state, Action.processPacket r.packet) ∈ tr :=
      List.mem_of_mem_filter (hrounds.begins ▸ List.mem_map_of_mem hr)
    exact lawful_of_exec (hswitched _ hmem) he
  · obtain ⟨w, k, he, -⟩ := step_spec hstep
    refine ⟨(exec_forwarding_engine he).imp id And.right, ?_⟩
    exact (exec_transport_manager he).imp id And.right

/-- A packet from port 1, to a station not heard yet. -/
def arrival : Packet where
  lifecycle_id := 7
  timestamp_ms := 5
  source_mac := some (.station 1)
  destination_mac := some (.station 2)
  ingress_port := some 1

/-- A switch with two ports that are up. -/
def twoPorts : SwitchForwardingEngine :=
  ⟨.empty 4, (InterfaceRegistry.addPort {} ⟨1, [], .up⟩).addPort ⟨2, [], .up⟩⟩

/-- A packet is flooded: it goes to the other port, and then its decision and itself are published. -/
theorem forwardsInRounds_flood : ∃ tr c,
    Trace program (start (initial [.packetProcessor] {} (some twoPorts) (some {}))
      [[.publish .publisher ⟨.packetRx, 5, .packet arrival⟩]]) tr c ∧
    c.shared.log = [(.publisher, ⟨.packetRx, 5, .packet arrival⟩),
      (.worker, ⟨.forwardingDecisionMade, 5, .forwardingEvent ⟨7, .flood, [2]⟩⟩),
      (.worker, ⟨.packetProcessed, 5, .packet arrival⟩)] ∧
    ForwardsInRounds tr c := by
  have hplay : ∃ c, play program anyStep
      [(1, {}), (1, {}), (1, {}), (1, {}), (0, {}), (0, {}), (0, {}), (0, {}), (0, {})]
      (start (initial [.packetProcessor] {} (some twoPorts) (some {}))
        [[.publish .publisher ⟨.packetRx, 5, .packet arrival⟩]]) = some c ∧
      c.shared.log = [(.publisher, ⟨.packetRx, 5, .packet arrival⟩),
        (.worker, ⟨.forwardingDecisionMade, 5, .forwardingEvent ⟨7, .flood, [2]⟩⟩),
        (.worker, ⟨.packetProcessed, 5, .packet arrival⟩)] :=
    ⟨_, rfl, rfl⟩
  obtain ⟨c, hplay, hlog⟩ := hplay
  obtain ⟨tr, htr⟩ := (reaches_of_play hplay).trace
  exact ⟨tr, c, htr, hlog, forwardsInRounds _ _ _ _ (by simp [IsEntry]) htr⟩

end Runtime

end EdgeNetSwitch
