import EdgeNetSwitch.Messaging.Message

/-!
# Synthetic packets

`publishSyntheticPacket` and `handleSendPacket` of `src/control/ControlDispatch.cpp`, as far as they
publish.
-/

namespace EdgeNetSwitch

/-- The arguments of one `publishSyntheticPacket` call. -/
structure SyntheticPacket where
  id : UInt64
  payload : Bytes
  source_mac_str : Bytes
  destination_mac_str : Bytes
  ingress_port : UInt32
  deriving DecidableEq

/-- `publishSyntheticPacket`: what it publishes at `now_ms`, if the addresses parse. -/
def publishSyntheticPacket (p : SyntheticPacket) (now_ms : UInt64) : Option Message := do
  let source_mac ← MacAddress.fromString p.source_mac_str
  let destination_mac ← MacAddress.fromString p.destination_mac_str
  let packet : Packet :=
    { id := p.id
      lifecycle_id := p.id
      timestamp_ms := now_ms
      payload := p.payload
      payload_size := p.payload.length.toUInt32
      valid := true
      source_mac := some source_mac
      destination_mac := some destination_mac
      ingress_port := some p.ingress_port }
  return { type := .packetRx, timestamp_ms := packet.timestamp_ms, payload := .packet packet }

/-- One call, with the strings of the source. -/
def synthetic (id : UInt64) (payload source destination : String) (ingress_port : UInt32) :
    SyntheticPacket :=
  ⟨id, bytesOf payload, bytesOf source, bytesOf destination, ingress_port⟩

/-- `handleSendPacket`: the calls a mode makes, in order; an unknown mode makes none. -/
def handleSendPacket (arg : Bytes) : List SyntheticPacket :=
  if arg = bytesOf "broadcast" then
    [synthetic 999 "control-plane-broadcast" "00:11:22:33:44:55" "ff:ff:ff:ff:ff:ff" 2]
  else if arg = bytesOf "learn" then
    [synthetic 1000 "mac-learning" "AA:AA:AA:AA:AA:AA" "FF:FF:FF:FF:FF:FF" 1,
      synthetic 1001 "known-unicast" "BB:BB:BB:BB:BB:BB" "AA:AA:AA:AA:AA:AA" 2]
  else if arg = bytesOf "topology-demo" then
    [synthetic 2000 "broadcast-discovery" "AA:AA:AA:AA:AA:AA" "FF:FF:FF:FF:FF:FF" 1,
      synthetic 2001 "known-unicast-bb" "BB:BB:BB:BB:BB:BB" "AA:AA:AA:AA:AA:AA" 2,
      synthetic 2002 "known-unicast-cc" "CC:CC:CC:CC:CC:CC" "AA:AA:AA:AA:AA:AA" 3,
      synthetic 2003 "unknown-unicast" "DD:DD:DD:DD:DD:DD" "EE:EE:EE:EE:EE:EE" 4,
      synthetic 2004 "known-unicast-ee" "EE:EE:EE:EE:EE:EE" "CC:CC:CC:CC:CC:CC" 5]
  else []

end EdgeNetSwitch
