import EdgeNetSwitch.Control.ControlProtocol
import EdgeNetSwitch.Transport.TransportManager

/-!
# Port backends

`UdpPortBackend` and `VirtualPortBackend` of `src/transport/`, registered with a `TransportManager`, and
`logTransmitResult` of `src/packet/PacketProcessor.cpp`.
-/

namespace EdgeNetSwitch

structure UdpEndpoint where
  ip : Bytes
  port : UInt16

/-- What `::sendto` returns, and the `errno` it leaves. -/
structure SendTo where
  bytes_sent : ℤ
  errno : ℤ := 0

inductive PortBackend where
  /-- A `UdpPortBackend`, with its `port_id_` and `endpoint_`. -/
  | udp (port_id : UInt32) (endpoint : UdpEndpoint)
  /-- A `VirtualPortBackend`. -/
  | virtual

namespace PortBackend

/-- `PortBackend::transmit`. The result names no port where the source leaves `port_id` out. -/
def transmit (b : PortBackend) (packet : Packet) (sendto : SendTo) : TransmitResult :=
  match b with
  | .udp port_id _ =>
    if packet.payload = [] then { status := .success, port_id, bytes_transmitted := 0 }
    else if sendto.bytes_sent < 0 then
      { status := .sendFailed, bytes_transmitted := 0, native_error := sendto.errno }
    else { status := .success, port_id, bytes_transmitted := sendto.bytes_sent.toNat % 2 ^ 32 }
  | .virtual => { status := .success }

end PortBackend

/-- A `TransportManager` with its map of backends, the newest registration first. -/
structure PortBackends where
  manager : TransportManager := {}
  backends : List (UInt32 × PortBackend) := []

namespace PortBackends

def registerBackend (t : PortBackends) (port_id : UInt32) (backend : PortBackend) : PortBackends where
  manager := t.manager.registerBackend port_id
  backends := (port_id, backend) :: t.backends

def transmit (t : PortBackends) (port_id : UInt32) (packet : Packet) (sendto : SendTo) :
    TransmitResult × PortBackends :=
  let returned : TransmitResult :=
    match t.backends.lookup port_id with
    | some backend => backend.transmit packet sendto
    | none => {}
  let (result, manager) := t.manager.transmit port_id returned
  (result, { t with manager })

end PortBackends

namespace TransmitStatus

def toString : TransmitStatus → Bytes
  | .success => bytesOf "success"
  | .portDown => bytesOf "port_down"
  | .backendUnavailable => bytesOf "backend_unavailable"
  | .invalidPacket => bytesOf "invalid_packet"
  | .sendFailed => bytesOf "send_failed"

end TransmitStatus

inductive LogLevel where
  | info
  | warn
  | error

/-- The line `logTransmitResult` logs, and its level. -/
def logTransmitResult (result : TransmitResult) : LogLevel × Bytes :=
  let port := bytesOf "port=" ++ Control.to_string result.port_id.toNat
  let status := bytesOf " status=" ++ result.status.toString
  match result.status with
  | .success =>
    (.info, bytesOf "Transport transmit: " ++ port ++ status ++ bytesOf " bytes=" ++
      Control.to_string result.bytes_transmitted)
  | .portDown => (.warn, bytesOf "Transport transmit skipped: " ++ port ++ status)
  | .backendUnavailable => (.warn, bytesOf "Transport backend unavailable: " ++ port ++ status)
  | .invalidPacket => (.warn, bytesOf "Transport transmit rejected: " ++ port ++ status)
  | .sendFailed =>
    (.error, bytesOf "Transport transmit failed: " ++ port ++ status ++ bytesOf " errno=" ++
      Control.to_string_int result.native_error)

/-! ## Registrations -/

/-- A backend to be registered; one for UDP is constructed with the port it is registered under. -/
inductive BackendKind where
  | udp (endpoint : UdpEndpoint)
  | virtual

namespace BackendKind

def construct (port_id : UInt32) : BackendKind → PortBackend
  | .udp endpoint => .udp port_id endpoint
  | .virtual => .virtual

end BackendKind

namespace PortBackends

/-- The manager after registrations, the last of which counts for its port. -/
def install (registrations : List (UInt32 × BackendKind)) : PortBackends :=
  registrations.foldl (fun t x => t.registerBackend x.1 (x.2.construct x.1)) {}

/-- The last registration for a port. -/
def kindOf (registrations : List (UInt32 × BackendKind)) (port : UInt32) : Option BackendKind :=
  registrations.reverse.lookup port

/-- The result names the port, and so does the line logged for it. -/
structure Names (result : TransmitResult) (port : UInt32) : Prop where
  port_id : result.port_id = port
  log : logTransmitResult result = logTransmitResult { result with port_id := port }

/-- A backend whose result has the port in it. -/
def Attributes (registrations : List (UInt32 × BackendKind)) (port : UInt32) (packet : Packet)
    (sendto : SendTo) : Prop :=
  match kindOf registrations port with
  | none => True
  | some (.udp _) => packet.payload = [] ∨ 0 ≤ sendto.bytes_sent
  | some .virtual => False

end PortBackends

end EdgeNetSwitch
