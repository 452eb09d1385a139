import EdgeNetSwitch.Messaging.Message
import EdgeNetSwitch.Packet.PacketParser

/-!
# The UDP receiver

`UdpReceiver::handleReadable` of `src/network/UdpReceiver.cpp`, as a function of what `recvfrom`
returned and of the clock.
-/

namespace EdgeNetSwitch

/-- A datagram in the socket queue: its payload and where it came from. -/
structure Datagram where
  data : Bytes
  source_address : UInt8 × UInt8 × UInt8 × UInt8
  source_port : UInt16
  deriving DecidableEq

/-- What `recvfrom` returned, the errors by their `errno`. -/
inductive RecvResult where
  | datagram (d : Datagram)
  | badDescriptor
  | interrupted
  | wouldBlock
  | failed
  deriving DecidableEq

inductive UdpReadResult where
  | packetProcessed
  | noData
  | closed
  | error
  deriving DecidableEq

/-- The clock readings of one call, in their order. -/
structure ReadClock where
  ingress_ns : UInt64 := 0
  now_ms : UInt64 := 0
  drop_ms : UInt64 := 0

/-- `std::to_string` of a byte. -/
def decimalByte (n : UInt8) : Bytes := bytesOf (toString n.toNat)

/-- `inet_ntoa`. -/
def inetNtoa (a : UInt8 × UInt8 × UInt8 × UInt8) : Bytes :=
  decimalByte a.1 ++ bytesOf "." ++ decimalByte a.2.1 ++ bytesOf "." ++ decimalByte a.2.2.1 ++
    bytesOf "." ++ decimalByte a.2.2.2

namespace UdpReceiver

/-- `sizeof(buffer)`; the kernel discards the rest of a longer datagram. -/
abbrev bufferSize : ℕ := 1024

/-- The packet made of a datagram that parses. -/
def receivedPacket (d : Datagram) (lifecycle_id : UInt64) (clock : ReadClock) : Packet :=
  { parsePacket (d.data.take bufferSize) with
    lifecycle_id
    ingress_timestamp_ns := clock.ingress_ns
    timestamp_ms := clock.now_ms
    wire_size := (d.data.take bufferSize).length.toUInt32
    source_ip := inetNtoa d.source_address
    source_port := d.source_port }

/-- The datagram parses and passes validation. -/
def accepts (d : Datagram) : Bool :=
  (parsePacket (d.data.take bufferSize)).valid &&
    (PacketValidator.validate (receivedPacket d 0 {})).accepted

/-- What a datagram makes `handleReadable` publish. -/
def datagramMessage (d : Datagram) (lifecycle_id : UInt64) (clock : ReadClock) : Message :=
  let packet := receivedPacket d lifecycle_id clock
  if !packet.valid then
    { type := .packetDropped
      timestamp_ms := clock.now_ms
      payload := .packetDropped ⟨.parseError, clock.now_ms, 0, lifecycle_id⟩ }
  else if !(PacketValidator.validate packet).accepted then
    { type := .packetDropped
      timestamp_ms := clock.drop_ms
      payload := .packetDropped ⟨.validationError, clock.drop_ms, packet.id, lifecycle_id⟩ }
  else { type := .packetRx, timestamp_ms := packet.timestamp_ms, payload := .packet packet }

/-- `handleReadable`: the result, the message it publishes, and the lifecycle counter after it. -/
def handleReadable (counter : UInt64) (recv : RecvResult) (clock : ReadClock) :
    UdpReadResult × Option Message × UInt64 :=
  match recv with
  | .datagram d => (.packetProcessed, some (datagramMessage d counter clock), counter + 1)
  | .badDescriptor => (.closed, none, counter)
  | .interrupted => (.noData, none, counter)
  | .wouldBlock =>
    (.noData, some ⟨.ingressIdlePoll, clock.now_ms, .ingressIdlePoll clock.now_ms⟩, counter)
  | .failed => (.error, none, counter)

end UdpReceiver

end EdgeNetSwitch
