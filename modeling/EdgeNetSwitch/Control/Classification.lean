import EdgeNetSwitch.Control.ControlDispatch

/-!
# How requests are classified

What a control client may rely on: which code refuses which request, what a command name and its argument
are, and what a request can put on the bus. Stated on the request as it is sent, without the checks and the
split of the dispatch.
-/

namespace EdgeNetSwitch.Control

/-- Digit, `'.'`, digit. -/
def HasVersionForm (version : Bytes) : Prop :=
  ∃ major minor : UInt8, (0x30 ≤ major ∧ major ≤ 0x39) ∧ (0x30 ≤ minor ∧ minor ≤ 0x39) ∧
    version = [major, 0x2E, minor]

namespace ControlRequest

/-- The text before the first `':'`. -/
def name (req : ControlRequest) : Bytes := req.command.takeWhile fun c => c ≠ 0x3A

/-- The text after the first `':'`, empty if there is none. -/
def argument (req : ControlRequest) : Bytes := (req.command.dropWhile fun c => c ≠ 0x3A).tail

end ControlRequest

/-- The codes of the protocol. -/
def error.codes : List Bytes :=
  [error.invalidRequest, error.invalidVersionFormat, error.unsupportedVersion, error.unknownCommand,
    error.internalError]

/-- The arguments with which `send-packet` injects. -/
def modes : List Bytes := [bytesOf "broadcast", bytesOf "learn", bytesOf "topology-demo"]

/-- A failure with this code. -/
def Reply.Refuses (reply : Reply) (code : Bytes) : Prop :=
  ∃ response, reply.response = some response ∧ response.success = false ∧ response.error_code = code

/-- A `PacketRx` message with some payload, no more of it than a datagram may carry, both addresses and an
ingress port. -/
def Injects (packet : SyntheticPacket) (now_ms : UInt64) : Prop :=
  ∃ sent : Packet, publishSyntheticPacket packet now_ms =
      some { type := .packetRx, timestamp_ms := now_ms, payload := .packet sent } ∧
    sent.payload ≠ [] ∧ sent.payload.length ≤ 512 ∧ sent.payload_size.toNat = sent.payload.length ∧
    sent.source_mac.isSome ∧ sent.destination_mac.isSome ∧ sent.ingress_port.isSome

/-- The reply to a request is the one of its class, and a failed request has no effect. -/
structure Classifies (p : Platform) (ctx : ControlContext) (req : ControlRequest) (reply : Reply) :
    Prop where
  missing : req.version = [] ∨ req.command = [] → reply.Refuses error.invalidRequest
  malformed : req.version ≠ [] → req.command ≠ [] → ¬ HasVersionForm req.version →
    reply.Refuses error.invalidVersionFormat
  unsupported : req.command ≠ [] → HasVersionForm req.version → req.version ≠ bytesOf "1.2" →
    reply.Refuses error.unsupportedVersion
  unknown : req.command ≠ [] → req.version = bytesOf "1.2" →
    (∀ command : Command, command.name ≠ req.name) → reply.Refuses error.unknownCommand
  handled : ∀ command : Command, req.version = bytesOf "1.2" → command.name = req.name →
    reply.response = handler p ctx req.argument command
  failed : ∀ response, reply.response = some response → response.success = false →
    reply.published = [] ∧ response.error_code ∈ error.codes
  injected : ∀ packet ∈ reply.published, req.version = bytesOf "1.2" ∧ req.name = bytesOf "send-packet" ∧
    req.argument ∈ modes ∧ ∀ now_ms, Injects packet now_ms

end EdgeNetSwitch.Control
