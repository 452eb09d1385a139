import EdgeNetSwitch.Daemon.WorkerRounds
import EdgeNetSwitch.Transport.TransportBalance

/-!
# Transmit calls and forwarding decisions

What the counters of the transport manager and the `ForwardingDecisionMade` events of a run have to do with
each other.
-/

namespace EdgeNetSwitch

namespace Runtime

open Threads

def isTransmit : Action → Bool
  | .transmit _ _ => true
  | _ => false

/-- The number of calls of `transmit`. -/
def transmitCalls (tr : List (Runtime × Action)) : ℕ := tr.countP fun x => isTransmit x.2

/-- The number of ports a `ForwardingDecisionMade` event sends its packet to. -/
def egressPorts (msg : Message) : ℕ :=
  match msg.type, msg.payload with
  | .forwardingDecisionMade, .forwardingEvent event => event.egress_ports.length
  | _, _ => 0

/-- The number of ports in the events the worker has published. -/
def decidedPorts (log : List (Source × Message)) : ℕ :=
  (log.map fun x => if x.1 = .worker then egressPorts x.2 else 0).sum

/-- A call of `transmit` still to be made. -/
def transmitting : Action → ℕ
  | .transmit _ _ => 1
  | _ => 0

/-- The ports of an event still to be published. -/
def deciding : Action → ℕ
  | .publish .worker msg => egressPorts msg
  | _ => 0

/-- The worker has ports still to transmit on, or an event with ports still to publish. -/
def InForwarding (a : Action) : Prop := transmitting a ≠ 0 ∨ deciding a ≠ 0

/-- The counters of the manager tell the results of the calls made, and there is one call for each port of
each event published, up to the packet under way. -/
structure TransmitsDecisions (tr : List (Runtime × Action)) (c : Config Runtime Action) : Prop where
  counters : ∃ t rs, c.shared.transport_manager = some t ∧ rs.length = transmitCalls tr ∧
    TransportManager.BalancesCounters t.counters rs
  calls : transmitCalls tr + c.load transmitting = decidedPorts c.shared.log + c.load deciding
  settled : ¬ c.Pending InForwarding → transmitCalls tr = decidedPorts c.shared.log

end Runtime

end EdgeNetSwitch
