import Mathlib.Data.UInt

/-!
# Switch ports

`SwitchPort` and `InterfaceRegistry` of `src/switching/InterfaceRegistry.cpp`.
-/

namespace EdgeNetSwitch

inductive PortState where
  | down
  | up
  deriving DecidableEq

/-- `SwitchPort`; a port is created `Down`. -/
structure SwitchPort where
  id : UInt32
  name : List UInt8
  state : PortState := .down
  deriving DecidableEq

/-- `SwitchPort::setState`. -/
def SwitchPort.setState (port : SwitchPort) (state : PortState) : SwitchPort := { port with state }

/-- `InterfaceRegistry`: `ports_` is a `std::map`. -/
structure InterfaceRegistry where
  ports : Std.ExtTreeMap UInt32 SwitchPort := ∅

namespace InterfaceRegistry

/-- `addPort`: `emplace` leaves a port that is already there alone. -/
def addPort (r : InterfaceRegistry) (port : SwitchPort) : InterfaceRegistry where
  ports := r.ports.insertIfNew port.id port

/-- `findPort`. -/
def findPort (r : InterfaceRegistry) (port_id : UInt32) : Option SwitchPort := r.ports[port_id]?

/-- `isUp`. -/
def isUp (r : InterfaceRegistry) (port_id : UInt32) : Bool :=
  match r.findPort port_id with
  | none => false
  | some port => port.state == .up

/-- `setState`: nothing happens when there is no such port. -/
def setState (r : InterfaceRegistry) (port_id : UInt32) (state : PortState) : InterfaceRegistry where
  ports :=
    match r.ports[port_id]? with
    | none => r.ports
    | some it => r.ports.insert port_id (it.setState state)

/-- `activePortIds`: the ids of the ports that are up, in the order of the map. -/
def activePortIds (r : InterfaceRegistry) : List UInt32 :=
  (r.ports.toList.filter fun p => p.2.state == .up).map Prod.fst

end InterfaceRegistry

end EdgeNetSwitch
