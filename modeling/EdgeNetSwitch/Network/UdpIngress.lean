import EdgeNetSwitch.Network.UdpReceiver
import EdgeNetSwitch.Packet.PacketFormat

/-!
# Ingress at a readable socket

`UdpReceiver::processReadableEvent` of `src/network/UdpReceiver.cpp`, called again and again while datagrams
come in, and what the size of the receive buffer leaves of a datagram.
-/

namespace EdgeNetSwitch

namespace UdpReceiver

/-- `MaxPacketsPerWakeup`. -/
def maxPacketsPerWakeup : ℕ := 256

/-- Why a read yields no datagram even if there are some to come. -/
inductive Fault where
  | badDescriptor
  | interrupted
  | wouldBlock
  | failed
  deriving DecidableEq

def Fault.result : Fault → RecvResult
  | badDescriptor => .badDescriptor
  | interrupted => .interrupted
  | wouldBlock => .wouldBlock
  | failed => .failed

/-- What a read meets: a fault, or the next datagram if there is one, and the clock. -/
structure Read where
  fault : Option Fault := none
  clock : ReadClock := {}

/-- The datagrams that are to be delivered, in the order in which they arrive, the lifecycle counter, and all
that has been published. -/
structure Ingress where
  pending : List Datagram
  counter : UInt64 := 1
  published : List Message := []

/-- `recvfrom`, and the datagrams after it. -/
def recvfrom (pending : List Datagram) (fault : Option Fault) : RecvResult × List Datagram :=
  match fault, pending with
  | some fault, _ => (fault.result, pending)
  | none, [] => (.wouldBlock, [])
  | none, d :: pending => (.datagram d, pending)

/-- `handleReadable`, on the socket. -/
def Ingress.read (s : Ingress) (read : Read) : UdpReadResult × Ingress :=
  let (recv, pending) := recvfrom s.pending read.fault
  let (result, message, counter) := handleReadable s.counter recv read.clock
  (result, { pending, counter, published := s.published ++ message.toList })

/-- The loop of `processReadableEvent` with so many packets left to process; `reads` are the reads of the
call. -/
def Ingress.readPackets (reads : ℕ → Read) : ℕ → Ingress → Ingress
  | 0, s => s
  | left + 1, s =>
    let (result, s) := s.read (reads (maxPacketsPerWakeup - (left + 1)))
    match result with
    | .packetProcessed => s.readPackets reads left
    | .noData | .closed | .error => s

/-- `processReadableEvent`. -/
def Ingress.processReadableEvent (s : Ingress) (reads : ℕ → Read) : Ingress :=
  s.readPackets reads maxPacketsPerWakeup

/-- One call after the other. -/
def Ingress.wakeUps (s : Ingress) (calls : List (ℕ → Read)) : Ingress :=
  calls.foldl Ingress.processReadableEvent s

end UdpReceiver

namespace Message

/-- A `PacketRx` or a `PacketDropped` message. -/
def isIngress (msg : Message) : Bool := msg.type = .packetRx || msg.type = .packetDropped

/-- A message without its timestamps. -/
def untimed (msg : Message) : Message where
  type := msg.type
  timestamp_ms := 0
  payload :=
    match msg.payload with
    | .packet packet => .packet { packet with timestamp_ms := 0, ingress_timestamp_ns := 0 }
    | .packetDropped drop => .packetDropped { drop with timestamp_ms := 0 }
    | payload => payload

end Message

namespace UdpReceiver

/-- The `PacketRx` and `PacketDropped` messages published. -/
def Ingress.outcomes (s : Ingress) : List Message :=
  (s.published.filter Message.isIngress).map Message.untimed

/-- How many datagrams a call is to take, if there are so many: it ends with the first fault, and after 256. -/
def budget (reads : ℕ → Read) : ℕ := ((List.range 256).takeWhile fun i => (reads i).fault = none).length

/-- The reads of a call meet no fault. -/
def faultFree (reads : ℕ → Read) : Bool := (List.range 256).all fun i => (reads i).fault = none

/-- The packet a datagram holds, without timestamps. -/
def datagramPacket (d : Datagram) (lifecycle_id : UInt64) : Packet :=
  { parsePacket d.data with
    lifecycle_id
    timestamp_ms := 0
    ingress_timestamp_ns := 0
    wire_size := d.data.length.toUInt32
    source_ip := inetNtoa d.source_address
    source_port := d.source_port }

/-- The message that is due for a datagram. -/
def outcome (d : Datagram) (lifecycle_id : UInt64) : Message :=
  if (parsePacket d.data).valid = false then
    ⟨.packetDropped, 0, .packetDropped ⟨.parseError, 0, 0, lifecycle_id⟩⟩
  else if (PacketValidator.validate (datagramPacket d lifecycle_id)).accepted = false then
    ⟨.packetDropped, 0, .packetDropped ⟨.validationError, 0, (parsePacket d.data).id, lifecycle_id⟩⟩
  else ⟨.packetRx, 0, .packet (datagramPacket d lifecycle_id)⟩

/-- The messages that are due for datagrams, numbered in the order of arrival. -/
def outcomesOf (queue : List Datagram) : List Message :=
  queue.mapIdx fun i d => outcome d (UInt64.ofNat (i + 1))

/-- After these calls on a socket with `queue`, the datagrams that the calls have room for are taken, in order, and
each has led to its outcome; nothing else is published. -/
structure Ingress.Batched (s : Ingress) (queue : List Datagram) (calls : List (ℕ → Read)) : Prop where
  pending : s.pending = queue.drop (calls.map budget).sum
  outcomes : s.outcomes = outcomesOf (queue.take (calls.map budget).sum)
  /-- Calls without a fault take 256 datagrams each, as long as there are any. -/
  complete : queue.length ≤ 256 * calls.countP faultFree →
    s.pending = [] ∧ s.outcomes = outcomesOf queue

/-- A packet that is published for a datagram has the id and the payload that the whole datagram gives. -/
def PublishesWhole (counter : UInt64) (d : Datagram) (clock : ReadClock) : Prop :=
  ∀ msg packet, (handleReadable counter (.datagram d) clock).2.1 = some msg →
    msg.packetRx? = some packet →
    (parsePacket d.data).valid = true ∧ packet.id = (parsePacket d.data).id ∧
      packet.payload = (parsePacket d.data).payload

/-- The digits of the id. -/
def idDigits (data : Bytes) : Bytes :=
  Bytes.leadingDigits ((Search.field 0x3B (bytesOf "id=") data).getD [])

/-- The payload ends at a `';'` that is in the receive buffer or the first byte behind it, and the digits of
the id are all in the buffer, or are zeros. -/
structure FieldsFit (data : Bytes) : Prop where
  payload_ends : ∃ rest, Search.after (bytesOf "payload=") (data.take (bufferSize + 1)) = some rest ∧
    0x3B ∈ rest
  id_ends : idDigits (data.take bufferSize) = idDigits data ∨ ∀ c ∈ idDigits data, c = 0x30

end UdpReceiver

end EdgeNetSwitch
