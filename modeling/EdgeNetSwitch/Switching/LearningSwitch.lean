import EdgeNetSwitch.Switching.SwitchForwardingEngine
import EdgeNetSwitch.Switching.LruTable

/-!
# What the forwarding engine is for

A learning switch forwards a frame to the port on which its destination was heard last. This module
states that purpose over the history of calls on the engine and its interfaces: which stations have
been heard (`sources`), on which port last (`LatestIngress`), and which ports are up (`portState`).
None of it mentions the table or the registry.
-/

namespace EdgeNetSwitch

/-- The calls on an engine and on the registry it refers to. -/
inductive EngineOp where
  | addPort (port : SwitchPort)
  | setState (port_id : UInt32) (state : PortState)
  | processPacket (packet : Packet) (ingress_port : UInt32) (tick : UInt64)

namespace EngineOp

/-- The station a call hears: the source of a packet that carries both addresses. -/
def source? : EngineOp → Option MacAddress
  | processPacket packet _ _ => packet.destination_mac.bind fun _ => packet.source_mac
  | _ => none

/-- The stations heard, in the order of the calls. -/
def sources (ops : List EngineOp) : List MacAddress := ops.filterMap source?

/-- The ticks of the packets. -/
def ticks (ops : List EngineOp) : List UInt64 :=
  ops.filterMap fun
    | processPacket _ _ tick => some tick
    | _ => none

/-- The latest packet from `m` in `ops` came in on `port`. -/
def LatestIngress (ops : List EngineOp) (m : MacAddress) (port : UInt32) : Prop :=
  ∃ pre packet tick post, ops = pre ++ .processPacket packet port tick :: post ∧
    (processPacket packet port tick).source? = some m ∧ m ∉ sources post

/-- What a call makes of the state of the port `p`. A port that exists is not added again, and one
that does not cannot be set. -/
def portStep (p : UInt32) (s : Option PortState) : EngineOp → Option PortState
  | addPort port => if port.id = p then s.or (some port.state) else s
  | setState port_id state => if port_id = p then s.map fun _ => state else s
  | processPacket _ _ _ => s

/-- The state of the port `p` after `ops`, if it exists. -/
def portState (ops : List EngineOp) (p : UInt32) : Option PortState :=
  ops.foldl (portStep p) none

/-- The port `p` is up after `ops`. -/
def PortUp (ops : List EngineOp) (p : UInt32) : Prop := portState ops p = some .up

/-- What the calls do to the table. -/
def tableOp? : EngineOp → Option TableOp
  | processPacket packet ingress_port tick =>
    match packet.source_mac, packet.destination_mac with
    | some source_mac, some _ => some (.learn source_mac ingress_port tick)
    | _, _ => none
  | _ => none

end EngineOp

open EngineOp

/-- `d` is what a learning switch that remembers `c` stations decides for a packet that comes in on
`ingress_port` after the calls `pre`. -/
structure LearningDecision (c : ℕ) (pre : List EngineOp) (packet : Packet) (ingress_port : UInt32)
    (tick : UInt64) (d : ForwardingDecision) : Prop where
  missing : packet.source_mac = none ∨ packet.destination_mac = none → d = ⟨.drop, []⟩
  known : ∀ source_mac destination_mac, packet.source_mac = some source_mac →
    packet.destination_mac = some destination_mac → destination_mac.isBroadcast = false →
    destination_mac ∈
      (Recency.recent (sources (pre ++ [.processPacket packet ingress_port tick]))).take c →
    ∃ p, LatestIngress (pre ++ [.processPacket packet ingress_port tick]) destination_mac p ∧
      (PortUp pre p → d = ⟨.forwardToPorts, [p]⟩) ∧ (¬ PortUp pre p → d = ⟨.drop, []⟩)
  flooded : ∀ source_mac destination_mac, packet.source_mac = some source_mac →
    packet.destination_mac = some destination_mac →
    destination_mac.isBroadcast = true ∨ destination_mac ∉
      (Recency.recent (sources (pre ++ [.processPacket packet ingress_port tick]))).take c →
    d.action = .flood ∧ d.egress_ports.Pairwise (· < ·) ∧
      ∀ p, p ∈ d.egress_ports ↔ PortUp pre p ∧ p ≠ ingress_port

namespace SwitchForwardingEngine

/-- One call. -/
def step (e : SwitchForwardingEngine) : EngineOp → SwitchForwardingEngine
  | .addPort port => { e with interfaces := e.interfaces.addPort port }
  | .setState port_id state => { e with interfaces := e.interfaces.setState port_id state }
  | .processPacket packet ingress_port tick => (e.processPacket packet ingress_port tick).2

/-- A sequence of calls on an engine with a new table of capacity `c` and no ports. -/
def run (c : ℕ) (ops : List EngineOp) : SwitchForwardingEngine :=
  ops.foldl step ⟨MacTable.empty c, {}⟩

end SwitchForwardingEngine

end EdgeNetSwitch
