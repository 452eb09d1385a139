import EdgeNetSwitch.Switching.MacTable
import Mathlib.Data.Fintype.Defs

/-!
# Packets

`include/edgenetswitch/packet/Packet.hpp`.
-/

namespace EdgeNetSwitch

inductive PacketDropReason where
  | parseError
  | validationError
  | queueOverflow
  | simulatedLoss
  | rateLimited
  | processingError
  | internalError
  | unknown
  deriving DecidableEq

instance : Fintype PacketDropReason where
  elems := {.parseError, .validationError, .queueOverflow, .simulatedLoss, .rateLimited,
    .processingError, .internalError, .unknown}
  complete r := by cases r <;> decide

/-- The payload of a `PacketDropped` message. -/
structure PacketDropped where
  reason : PacketDropReason
  timestamp_ms : UInt64
  packet_id : UInt64 := 0
  lifecycle_id : UInt64 := 0
  deriving DecidableEq

structure Packet where
  id : UInt64 := 0
  lifecycle_id : UInt64 := 0
  payload : Bytes := []
  timestamp_ms : UInt64 := 0
  wire_size : UInt32 := 0
  payload_size : UInt32 := 0
  valid : Bool := false
  source_ip : Bytes := []
  source_port : UInt16 := 0
  source_mac : Option MacAddress := none
  destination_mac : Option MacAddress := none
  ingress_port : Option UInt32 := none
  ingress_timestamp_ns : UInt64 := 0
  deriving DecidableEq

end EdgeNetSwitch
