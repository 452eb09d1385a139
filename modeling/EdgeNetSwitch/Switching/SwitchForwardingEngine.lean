import EdgeNetSwitch.Switching.InterfaceRegistry
import EdgeNetSwitch.Packet.Packet

/-!
# The forwarding engine

`SwitchForwardingEngine::processPacket` of `src/switching/SwitchForwardingEngine.cpp`.
-/

namespace EdgeNetSwitch

inductive ForwardingAction where
  | drop
  | flood
  | forwardToPorts
  deriving DecidableEq

structure ForwardingDecision where
  action : ForwardingAction := .drop
  egress_ports : List UInt32 := []
  deriving DecidableEq

/-- `SwitchForwardingEngine`: the table and the registry it refers to. -/
structure SwitchForwardingEngine where
  mac_table : MacTable
  interfaces : InterfaceRegistry

namespace SwitchForwardingEngine

/-- The flood loop: every active port but the ingress port. -/
def floodPorts (e : SwitchForwardingEngine) (ingress_port : UInt32) : List UInt32 :=
  e.interfaces.activePortIds.filter fun port => port != ingress_port

/-- `processPacket`: the decision, and the engine after it. -/
def processPacket (e : SwitchForwardingEngine) (packet : Packet) (ingress_port : UInt32)
    (tick : UInt64) : ForwardingDecision × SwitchForwardingEngine :=
  match packet.source_mac, packet.destination_mac with
  | some source_mac, some destination_mac =>
    let e' := { e with mac_table := e.mac_table.learn source_mac ingress_port tick }
    if destination_mac.isBroadcast then
      ({ action := .flood, egress_ports := e'.floodPorts ingress_port }, e')
    else
      match e'.mac_table.lookup destination_mac with
      | some destination_port =>
        if !e'.interfaces.isUp destination_port then ({ action := .drop }, e')
        else ({ action := .forwardToPorts, egress_ports := [destination_port] }, e')
      | none => ({ action := .flood, egress_ports := e'.floodPorts ingress_port }, e')
  | _, _ => ({}, e)

end SwitchForwardingEngine

end EdgeNetSwitch
