import EdgeNetSwitch.Packet.Packet

/-!
# Transport

`TransportManager` of `src/transport/TransportManager.cpp`. What a backend returns comes from outside.
-/

namespace EdgeNetSwitch

inductive TransmitStatus where
  | success
  | portDown
  | backendUnavailable
  | invalidPacket
  | sendFailed
  deriving DecidableEq

structure TransmitResult where
  status : TransmitStatus := .success
  port_id : UInt32 := 0
  bytes_transmitted : ℕ := 0
  native_error : ℤ := 0
  deriving DecidableEq

structure TransportCounters where
  tx_packets : UInt64 := 0
  tx_bytes : UInt64 := 0
  tx_failed : UInt64 := 0
  backend_unavailable : UInt64 := 0
  port_down : UInt64 := 0
  invalid_packet : UInt64 := 0
  deriving DecidableEq

/-- `backends` are the ports that have one. -/
structure TransportManager where
  backends : List UInt32 := []
  counters : TransportCounters := {}

namespace TransportManager

/-- `registerBackend`. -/
def registerBackend (t : TransportManager) (port_id : UInt32) : TransportManager :=
  { t with backends := port_id :: t.backends }

/-- The counters after a backend has returned `result`. -/
def count (c : TransportCounters) (result : TransmitResult) : TransportCounters :=
  match result.status with
  | .success =>
    { c with
      tx_packets := c.tx_packets + 1
      tx_bytes := c.tx_bytes + result.bytes_transmitted.toUInt64 }
  | .portDown => { c with tx_failed := c.tx_failed + 1, port_down := c.port_down + 1 }
  | .backendUnavailable =>
    { c with tx_failed := c.tx_failed + 1, backend_unavailable := c.backend_unavailable + 1 }
  | .invalidPacket =>
    { c with tx_failed := c.tx_failed + 1, invalid_packet := c.invalid_packet + 1 }
  | .sendFailed => { c with tx_failed := c.tx_failed + 1 }

/-- `transmit`, with `returned` what the backend of the port returns if there is one. -/
def transmit (t : TransportManager) (port_id : UInt32) (returned : TransmitResult) :
    TransmitResult × TransportManager :=
  if port_id ∈ t.backends then (returned, { t with counters := count t.counters returned })
  else
    let result : TransmitResult := { status := .backendUnavailable, port_id }
    (result, { t with counters := count t.counters result })

def resetCounters (t : TransportManager) : TransportManager := { t with counters := {} }

end TransportManager

end EdgeNetSwitch
