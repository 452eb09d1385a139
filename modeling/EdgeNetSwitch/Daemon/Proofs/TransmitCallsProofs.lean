import EdgeNetSwitch.Daemon.Proofs.ForwardingProofs
import EdgeNetSwitch.Daemon.TransmitCalls
import EdgeNetSwitch.Transport.Proofs.TransportBalanceProofs

/-!
# Proofs: one transmit call for each port decided

`processPacket` leaves as many calls as its event has ports; from there on each is made, or published, once.
-/

namespace EdgeNetSwitch

namespace Runtime

open Threads PacketProcessor TransportManager

variable {s s' : Runtime} {a : Action} {w : Env} {k : List Action} {c d : Config Runtime Action}
  {tr : List (Runtime × Action)}

theorem transmitCalls_append (tr : List (Runtime × Action)) (s : Runtime) (a : Action) :
    transmitCalls (tr ++ [(s, a)]) = transmitCalls tr + transmitting a := by
  unfold transmitCalls
  rw [List.countP_append, List.countP_singleton]
  cases a <;> rfl

theorem decidedPorts_append (log : List (Source × Message)) (src : Source) (msg : Message) :
    decidedPorts (log ++ [(src, msg)]) = decidedPorts log + deciding (.publish src msg) := by
  unfold decidedPorts
  rw [List.map_append, List.sum_append, List.map_singleton, List.sum_singleton]
  cases src <;> rfl

@[simp] theorem egressPorts_forwardingMessage (p : Packet) (decision : ForwardingDecision) :
    egressPorts (forwardingMessage p decision) = decision.egress_ports.length := rfl

/-- Only `processPacket` leaves something to transmit, or an event. -/
theorem not_inForwarding_of_leaves {b : Action} (h : Leaves a b) (ha : ∀ p, a ≠ .processPacket p) :
    transmitting b = 0 ∧ deciding b = 0 := by
  cases b with
  | transmit port p =>
    cases a <;> first | exact h.elim | exact absurd rfl (ha _) | skip
    rename_i sub msg
    cases sub <;> exact h.elim
  | publish src msg =>
    cases src <;> first | exact ⟨rfl, rfl⟩ | skip
    cases a <;> first | exact h.elim | exact absurd rfl (ha _) | skip
    rename_i sub msg
    cases sub <;> exact h.elim
  | _ => exact ⟨rfl, rfl⟩

/-- What an action leaves has one call for each port of its event. -/
theorem weight_transmitting (hmanager : s.transport_manager.isSome) (h : exec a w s = some (s', k)) :
    weight transmitting k = weight deciding k := by
  by_cases ha : ∃ p, a = .processPacket p
  · obtain ⟨p, rfl⟩ := ha
    rcases exec_processPacket h with
      ⟨t, -, -, rfl⟩ | ⟨-, ⟨engine, port, decision, engine', -, -, -, -, rfl⟩ | ⟨-, -, rfl⟩⟩
    · rfl
    · have htransmit : ∀ ports : List UInt32,
          weight transmitting (ports.map (.transmit · (sized p))) = ports.length ∧
            weight deciding (ports.map (.transmit · (sized p))) = 0 := by
        intro ports
        induction ports with
        | nil => exact ⟨rfl, rfl⟩
        | cons port ports ih =>
          simp only [List.map_cons, weight_cons, transmitting, deciding, List.length_cons]
          omega
      obtain ⟨hcalls, hports⟩ := htransmit decision.egress_ports
      rw [if_pos hmanager, weight_append, weight_append, hcalls, hports]
      simp only [weight_cons, weight_nil, transmitting, deciding, egressPorts_forwardingMessage]
      have hprocessed : egressPorts (processedMessage (sized p)) = 0 := rfl
      omega
    · rfl
  · have hleaves := exec_leaves h
    have hno := fun b hb => not_inForwarding_of_leaves (hleaves b hb) fun p hp => ha ⟨p, hp⟩
    rw [weight_eq_zero fun b hb => (hno b hb).1, weight_eq_zero fun b hb => (hno b hb).2]

theorem exec_decidedPorts (h : exec a w s = some (s', k)) :
    decidedPorts s'.log = decidedPorts s.log + deciding a := by
  by_cases ha : ∃ src msg, a = .publish src msg
  · obtain ⟨src, msg, rfl⟩ := ha
    rw [(exec_publish h).1]
    exact decidedPorts_append ..
  · have hdeciding : deciding a = 0 := by
      cases a <;> first | rfl | exact absurd ⟨_, _, rfl⟩ ha
    rw [(exec_frame h).log fun src msg ha' => ha ⟨src, msg, ha'⟩, hdeciding, add_zero]

/-- A call of `transmit` changes the counters by its result, and nothing else changes them. -/
theorem exec_counters {t : TransportManager} (ht : s.transport_manager = some t)
    (h : exec a w s = some (s', k)) :
    ∃ (t' : TransportManager) (rs : List TransmitResult), s'.transport_manager = some t' ∧
      rs.length = transmitting a ∧ t'.counters = rs.foldl count t.counters := by
  by_cases ha : ∃ port p, a = .transmit port p
  · obtain ⟨port, p, rfl⟩ := ha
    cases h
    refine ⟨(t.transmit port w.returned).2, [(t.transmit port w.returned).1], ?_, rfl, ?_⟩
    · simp only [ht, Option.map_some]
    · exact transmit_counters ..
  · refine ⟨t, [], ?_, ?_, rfl⟩
    · rw [(exec_frame h).transport_manager fun port p ha' => ha ⟨port, p, ha'⟩, ht]
    · cases a <;> first | rfl | exact absurd ⟨_, _, rfl⟩ ha

/-- What holds of a run so far. -/
structure Transmitting (tr : List (Runtime × Action)) (c : Config Runtime Action) : Prop where
  counters : ∃ t rs, c.shared.transport_manager = some t ∧ rs.length = transmitCalls tr ∧
    t.counters = tally rs
  calls : transmitCalls tr + c.load transmitting = decidedPorts c.shared.log + c.load deciding

theorem Transmitting.step (hc : Transmitting tr c) (h : Step program c a d) :
    Transmitting (tr ++ [(c.shared, a)]) d := by
  obtain ⟨w, k, he, hr⟩ := step_spec h
  obtain ⟨t, rs, ht, hlen, hcounters⟩ := hc.counters
  constructor
  · obtain ⟨t', rs', ht', hlen', hcounters'⟩ := exec_counters ht he
    refine ⟨t', rs ++ rs', ht', ?_, ?_⟩
    · rw [List.length_append, transmitCalls_append, hlen, hlen']
    · rw [hcounters', hcounters]
      unfold tally
      rw [List.foldl_append]
  · have hcalls := hc.calls
    have hdecided := exec_decidedPorts he
    have hweight := weight_transmitting (by rw [ht]; rfl) he
    obtain ⟨x, hcx, hdx⟩ := hr.load transmitting
    obtain ⟨y, hcy, hdy⟩ := hr.load deciding
    rw [transmitCalls_append]
    omega

/-- Other threads have nothing to transmit. -/
theorem not_inForwarding_of_isEntry (ha : IsEntry a) : transmitting a = 0 ∧ deciding a = 0 := by
  cases a with
  | publish src msg =>
    cases src <;> first | exact ⟨rfl, rfl⟩ | exact absurd rfl ha.2
  | transmit port p => exact ha.elim
  | _ => exact ⟨rfl, rfl⟩

theorem transmitting_start (subscribers : List Subscriber) (cfg : FailureConfig)
    (engine : Option SwitchForwardingEngine) (backends : List UInt32) {callers : List (List Action)}
    (hcallers : ∀ t ∈ callers, ∀ a ∈ t, IsEntry a) :
    Transmitting [] (start (initial subscribers cfg engine (some { backends })) callers) := by
  have hno : ∀ t ∈ [.processLoop] :: callers, ∀ a ∈ t, transmitting a = 0 ∧ deciding a = 0 := by
    refine List.forall_mem_cons.2 ⟨?_, fun t ht a ha => not_inForwarding_of_isEntry (hcallers t ht a ha)⟩
    intro a ha
    rw [List.mem_singleton.1 ha]
    exact ⟨rfl, rfl⟩
  refine ⟨⟨_, [], rfl, rfl, rfl⟩, ?_⟩
  rw [load_eq_zero fun t ht a ha => (hno t ht a ha).1, load_eq_zero fun t ht a ha => (hno t ht a ha).2]
  rfl

theorem transmitting_of_trace {subscribers : List Subscriber} {cfg : FailureConfig}
    {engine : Option SwitchForwardingEngine} {backends : List UInt32} {callers : List (List Action)}
    (hcallers : ∀ t ∈ callers, ∀ a ∈ t, IsEntry a)
    (h : Trace program (start (initial subscribers cfg engine (some { backends })) callers) tr c) :
    Transmitting tr c :=
  h.invariant (transmitting_start _ _ _ _ hcallers) fun _ _ _ _ hc hstep => hc.step hstep

theorem Transmitting.transmitsDecisions (hc : Transmitting tr c) : TransmitsDecisions tr c := by
  obtain ⟨t, rs, ht, hlen, hcounters⟩ := hc.counters
  refine ⟨⟨t, rs, ht, hlen, ?_⟩, hc.calls, fun hno => ?_⟩
  · rw [hcounters]
    exact balancesCounters_tally rs
  · have hcalls := hc.calls
    have htransmitting : c.load transmitting = 0 :=
      load_eq_zero_of_not_pending hno fun a ha => not_not.1 fun hne => ha (Or.inl hne)
    have hdeciding : c.load deciding = 0 :=
      load_eq_zero_of_not_pending hno fun a ha => not_not.1 fun hne => ha (Or.inr hne)
    omega

/-- The counters of a manager balance over every sequence of calls; in the daemon, there is one call for each
port of each event the worker publishes. -/
theorem transport_balances : (∀ l, BalancesCounters (run l).counters (results l)) ∧
    ∀ (subscribers : List Subscriber) (cfg : FailureConfig) (engine : Option SwitchForwardingEngine)
      (backends : List UInt32) (callers : List (List Action)) (tr : List (Runtime × Action))
      (c : Config Runtime Action), (∀ t ∈ callers, ∀ a ∈ t, IsEntry a) →
      Trace program (start (initial subscribers cfg engine (some { backends })) callers) tr c →
      TransmitsDecisions tr c := by
  refine ⟨balancesCounters_run, ?_⟩
  intro subscribers cfg engine backends callers tr c hcallers h
  exact (transmitting_of_trace hcallers h).transmitsDecisions

/-- The start of a run in which a packet is flooded to port 2. -/
def flooding : Config Runtime Action :=
  start (initial [.packetProcessor] {} (some twoPorts) (some { backends := [2] }))
    [[.publish .publisher ⟨.packetRx, 5, .packet arrival⟩]]

theorem transport_balances_flood : ∃ tr c, Trace program flooding tr c ∧
    decidedPorts c.shared.log = 1 ∧ TransmitsDecisions tr c := by
  have hplay : ∃ c, play program anyStep
      [(1, {}), (1, {}), (1, {}), (1, {}), (0, {}), (0, {}), (0, {}), (0, {}), (0, {})] flooding = some c ∧
      decidedPorts c.shared.log = 1 := ⟨_, rfl, rfl⟩
  obtain ⟨c, hplay, hports⟩ := hplay
  obtain ⟨tr, htr⟩ := (reaches_of_play hplay).trace
  exact ⟨tr, c, htr, hports, transport_balances.2 _ _ _ _ _ _ _ (by simp [IsEntry]) htr⟩

/-- Two calls with a result of `2 ^ 63` bytes each. -/
def hugeResults : List TransportManager.Call :=
  [.registerBackend 1, .transmit 1 { bytes_transmitted := 2 ^ 63 },
    .transmit 1 { bytes_transmitted := 2 ^ 63 }]

/-- Two results of `2 ^ 63` bytes leave no byte counted; and between the call and the event, the call has no
event. -/
theorem transport_out_of_balance :
    ((run hugeResults).counters.tx_bytes = 0 ∧ bytesMade (results hugeResults) = 2 ^ 64) ∧
    ∃ tr c, Trace program flooding tr c ∧ transmitCalls tr = 1 ∧ decidedPorts c.shared.log = 0 := by
  refine ⟨⟨by decide +kernel, by decide +kernel⟩, ?_⟩
  have hplay : ∃ c, play program anyStep
      [(1, {}), (1, {}), (1, {}), (1, {}), (0, {}), (0, {}), (0, {})] flooding = some c ∧
      c.load transmitting = 0 ∧ c.load deciding = 1 ∧ decidedPorts c.shared.log = 0 :=
    ⟨_, rfl, rfl, rfl, rfl⟩
  obtain ⟨c, hplay, htransmitting, hdeciding, hports⟩ := hplay
  obtain ⟨tr, htr⟩ := (reaches_of_play hplay).trace
  have hcalls := (transmitting_of_trace (by simp [IsEntry]) htr).calls
  exact ⟨tr, c, htr, by omega, hports⟩

end Runtime

end EdgeNetSwitch
