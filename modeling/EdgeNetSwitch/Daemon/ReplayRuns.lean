import EdgeNetSwitch.Daemon.Ingress

/-!
# Recording a run and replaying it

A run in which one thread publishes packets while `ReplayRecorder` and `ReplayOutcomeCollector` listen,
and a run in which `ReplayPlayer` publishes what was recorded. What the policy and the checks of the
processor make of a packet is its `verdict`.
-/

namespace EdgeNetSwitch

open Threads

/-- The message that publishes a packet. -/
def Packet.rxMessage (packet : Packet) : Message :=
  ⟨.packetRx, packet.timestamp_ms, .packet packet⟩

namespace FailureConfig

/-- The policy is made of lifecycle rules: no rule counts packets. -/
def ByLifecycle (cfg : FailureConfig) : Prop := cfg.every_n_packets = 0 ∨ cfg.type = .none

/-- What such a policy injects into a lifecycle. -/
def injected (cfg : FailureConfig) (lifecycle_id : UInt64) : FailureResult :=
  (FailureInjector.inject { config := cfg } { lifecycle_id }).1

/-- The lifecycle ends with an injected failure. -/
def Kills (cfg : FailureConfig) (lifecycle_id : UInt64) : Prop :=
  (cfg.injected lifecycle_id).is_terminal = true

instance (cfg : FailureConfig) : DecidablePred cfg.Kills :=
  fun id => inferInstanceAs (Decidable ((cfg.injected id).is_terminal = true))

end FailureConfig

/-- One processor and one outcome collector are on the bus, and no callback of other code. -/
structure Collecting (subscribers : List Subscriber) : Prop where
  packetProcessor : subscribers.count .packetProcessor = 1
  replayOutcomeCollector : subscribers.count .replayOutcomeCollector = 1
  client : ∀ type, Subscriber.client type ∉ subscribers

namespace Runtime

/-- The worker, and a thread that publishes `packets` in their order. -/
def recorded (subscribers : List Subscriber) (cfg : FailureConfig)
    (forwarding_engine : Option SwitchForwardingEngine)
    (transport_manager : Option TransportManager) (packets : List Packet) :
    Config Runtime Action :=
  start (initial subscribers cfg forwarding_engine transport_manager)
    [packets.map fun packet => .publish .publisher packet.rxMessage]

/-- The worker, and `ReplayPlayer` with `records`. -/
def replayed (subscribers : List Subscriber) (cfg : FailureConfig)
    (forwarding_engine : Option SwitchForwardingEngine)
    (transport_manager : Option TransportManager) (records : List ReplayRecord) :
    Config Runtime Action :=
  start (initial subscribers cfg forwarding_engine transport_manager) [[.replay records]]

/-- The packets that end with an injected failure come first. -/
def KilledFirst (cfg : FailureConfig) (packets : List Packet) : Prop :=
  packets.Pairwise fun p q => cfg.Kills q.lifecycle_id → cfg.Kills p.lifecycle_id

instance (cfg : FailureConfig) (packets : List Packet) : Decidable (KilledFirst cfg packets) :=
  inferInstanceAs (Decidable (packets.Pairwise _))

/-- What an outcome says, apart from its place in the sequence. -/
def report (outcome : ReplayOutcome) : ReplayOutcome := { outcome with sequence := 0 }

/-- The outcome of a packet that meets no full queue. -/
def verdict (cfg : FailureConfig) (packet : Packet) : ReplayOutcome :=
  if cfg.Kills packet.lifecycle_id then
    { type := .dropped
      lifecycle_id := packet.lifecycle_id
      drop_reason := (cfg.injected packet.lifecycle_id).type.dropReason }
  else if (PacketProcessor.rejects packet 0).isSome then
    { type := .dropped, lifecycle_id := packet.lifecycle_id, drop_reason := .validationError }
  else { lifecycle_id := packet.lifecycle_id }

end Runtime

end EdgeNetSwitch
