import EdgeNetSwitch.Bridges.LearningBridge
import EdgeNetSwitch.Daemon.SequentialWorker

/-!
# The daemon as a bridge

What the packet path is for: the packets accepted are the frames of a learning bridge, in the order in which they
were accepted, and the transmit calls are what the bridge sends. The table may be full or of any age, and the times
of the packets, which the table takes for ticks, may go back.
-/

namespace EdgeNetSwitch

open LearningBridge

/-- The frame in a packet that is checked, has come in at a port and has both addresses. -/
def Packet.frame? (p : Packet) : Option (Frame MacAddress UInt32) :=
  if p.payload.length > PacketProcessor.maxPayloadSize ∨ p.timestamp_ms = 0 then none
  else
    match p.ingress_port, p.source_mac, p.destination_mac with
    | some ingress, some source, some destination => some { ingress, source, destination }
    | _, _, _ => none

/-- A bridge with the ports and the table of `engine`. -/
def SwitchForwardingEngine.Bridges (engine : SwitchForwardingEngine) : List Packet → List (UInt32 × Packet) → Prop :=
  Sends engine.interfaces.activePortIds (fun mac => mac.isBroadcast = true) engine.mac_table.lookup Packet.frame?

namespace Runtime

open Threads PacketProcessor

/-- The packet and the port of a transmit call. -/
def transmit? : Action → Option (UInt32 × Packet)
  | .transmit port p => some (port, p)
  | _ => none

/-- The transmit calls, in order. -/
def transmits (tr : List (Runtime × Action)) : List (UInt32 × Packet) := (effects tr).filterMap transmit?

/-- The transmit calls are what a bridge sends of the first packets accepted, but for some to come. -/
structure RunsAsBridge (engine : SwitchForwardingEngine) (tr : List (Runtime × Action)) : Prop where
  sends : ∃ (handled waiting : List Packet) (sent more : List (UInt32 × Packet)),
    handled ++ waiting = (fifo tr).accepted ∧ engine.Bridges handled sent ∧
      transmits tr ++ more = sent.map (Prod.map id sized)
  /-- A frame goes to ports that are up, and back to its own port only when its station was heard there last. -/
  ports : ∀ port p, (port, p) ∈ transmits tr → ∃ before q after f,
    (fifo tr).accepted = before ++ q :: after ∧ sized q = p ∧ q.frame? = some f ∧
      engine.interfaces.isUp port = true ∧ (port = f.ingress →
        heard engine.mac_table.lookup ((before ++ [q]).filterMap Packet.frame?) f.destination = some f.ingress)

end Runtime

end EdgeNetSwitch
