import EdgeNetSwitch.Daemon.ReplayStats

/-!
# The worker as a loop over the packets accepted

What the worker of `PacketProcessor` does, and what the forwarding engine has learned, is settled by the
packets accepted and their order; threads, the bus and the clock have no part in it, except for the time of
a drop. With one publishing thread the packets accepted are those that the injector lets pass.
-/

namespace EdgeNetSwitch

open Threads

/-- An action without the time of a drop. -/
def Action.untimed : Action → Action
  | .publish source ⟨type, _, .packetDropped drop⟩ =>
    .publish source ⟨type, 0, .packetDropped { drop with timestamp_ms := 0 }⟩
  | a => a

namespace Runtime

open PacketProcessor

section

variable (transports : Bool)

/-- What is done for one packet, and the engine after it. -/
def handle (engine : Option SwitchForwardingEngine) (p : Packet) :
    List Action × Option SwitchForwardingEngine :=
  if p.payload.length > maxPayloadSize ∨ p.timestamp_ms = 0 then
    ([.publish .worker (dropMessage p .validationError 0)], engine)
  else
    match engine, p.ingress_port with
    | some engine, some port =>
      let (decision, engine) := engine.processPacket (sized p) port p.timestamp_ms
      ((if transports then decision.egress_ports.map (.transmit · (sized p)) else []) ++
        [.publish .worker (forwardingMessage (sized p) decision),
          .publish .worker (processedMessage (sized p))], some engine)
    | _, _ => ([.publish .worker (processedMessage (sized p))], engine)

/-- What is done for packets one after the other, and the engine after them. -/
def handleAll (engine : Option SwitchForwardingEngine) :
    List Packet → List Action × Option SwitchForwardingEngine
  | [] => ([], engine)
  | p :: packets =>
    let (effects, engine) := handle transports engine p
    let (more, engine) := handleAll engine packets
    (effects ++ more, engine)

end

/-- The packets that the injector lets pass, when they come to it in this order. -/
def spared : FailureInjector → List Packet → List Packet
  | _, [] => []
  | i, p :: packets =>
    if (i.inject p).1.is_terminal then spared (i.inject p).2 packets
    else p :: spared (i.inject p).2 packets

/-- The packets the worker has begun, in order. -/
def begunPackets (tr : List (Runtime × Action)) : List Packet := tr.flatMap fun x => begun x.2

/-- The packets begun are the first of those accepted, and what the worker does for them is what the loop does; a part
of what it does for the last of them may be still to come. -/
structure WorksInSequence (transports : Bool) (engine : Option SwitchForwardingEngine)
    (tr : List (Runtime × Action)) (c : Config Runtime Action) : Prop where
  begun : begunPackets tr <+: (fifo tr).accepted
  rounds : (effects tr).map Action.untimed <+: (handleAll transports engine (begunPackets tr)).1
  before : ∀ packets last, begunPackets tr = packets ++ [last] →
    (handleAll transports engine packets).1 <+: (effects tr).map Action.untimed
  learned : c.shared.forwarding_engine = (handleAll transports engine (begunPackets tr)).2

/-- All that is done in a run which lets the worker empty its queue. -/
structure WorksThrough (transports : Bool) (engine : Option SwitchForwardingEngine) (packets : List Packet)
    (tr : List (Runtime × Action)) (c : Config Runtime Action) : Prop where
  effects : (effects tr).map Action.untimed = (handleAll transports engine packets).1
  engine : c.shared.forwarding_engine = (handleAll transports engine packets).2

end Runtime

end EdgeNetSwitch
