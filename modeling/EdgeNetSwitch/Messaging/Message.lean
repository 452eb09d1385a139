import EdgeNetSwitch.Switching.SwitchForwardingEngine

/-!
# Bus messages

`MessageType`, `Message` and its payloads, of `include/edgenetswitch/messaging/MessagingBus.hpp`.
-/

namespace EdgeNetSwitch

inductive MessageType where
  | systemStart
  | systemShutdown
  | configLoaded
  | routeUpdated
  | telemetryTick
  | healthStatus
  | telemetry
  | health
  | packetRx
  | packetProcessed
  | packetDropped
  | forwardingDecisionMade
  | ingressIdlePoll
  deriving DecidableEq

structure TelemetryData where
  uptime_ms : UInt64
  tick_count : UInt64
  timestamp_ms : UInt64
  deriving DecidableEq

structure HealthStatus where
  uptime_ms : UInt64 := 0
  last_heartbeat_ms : UInt64 := 0
  silence_duration_ms : UInt64
  is_alive : Bool := true
  deriving DecidableEq

structure ForwardingEvent where
  lifecycle_id : UInt64 := 0
  action : ForwardingAction := .drop
  egress_ports : List UInt32 := []
  deriving DecidableEq

/-- `Message::Payload`, a `std::variant`. -/
inductive Payload where
  | monostate
  | telemetryData (data : TelemetryData)
  | healthStatus (status : HealthStatus)
  | packet (packet : Packet)
  | packetDropped (drop : PacketDropped)
  | forwardingEvent (event : ForwardingEvent)
  | ingressIdlePoll (timestamp_ms : UInt64)
  deriving DecidableEq

structure Message where
  type : MessageType
  timestamp_ms : UInt64
  payload : Payload := .monostate
  deriving DecidableEq

/-- The outcome of a packet, as a terminal message reports it. -/
inductive Terminal where
  | processed (packet : Packet)
  | dropped (drop : PacketDropped)
  deriving DecidableEq

namespace Terminal

def lifecycle_id : Terminal → UInt64
  | processed packet => packet.lifecycle_id
  | dropped drop => drop.lifecycle_id

end Terminal

namespace Message

/-- The packet a `PacketRx` message carries. -/
def packetRx? (msg : Message) : Option Packet :=
  match msg.type, msg.payload with
  | .packetRx, .packet packet => some packet
  | _, _ => none

/-- The outcome a `PacketProcessed` or `PacketDropped` message carries. -/
def terminal? (msg : Message) : Option Terminal :=
  match msg.type, msg.payload with
  | .packetProcessed, .packet packet => some (.processed packet)
  | .packetDropped, .packetDropped drop => some (.dropped drop)
  | _, _ => none

end Message

end EdgeNetSwitch
