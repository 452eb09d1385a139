import EdgeNetSwitch.Daemon.Conservation
import EdgeNetSwitch.Fifo.BoundedFifo

/-!
# The worker in rounds

What `PacketProcessor` is meant to do, stated over the trace of a run: its queue is a bounded queue, and
its worker goes through the packets it accepts one at a time, in order. What the worker does for one
packet is a round.
-/

namespace EdgeNetSwitch

/-- An outcome without the time of a drop. -/
def Terminal.untimed : Terminal → Terminal
  | processed packet => processed packet
  | dropped drop => dropped { drop with timestamp_ms := 0 }

namespace Runtime

open Threads PacketProcessor

/-- What other threads call: the entry points of the daemon. -/
def IsEntry : Action → Prop
  | .publish src _ => src ≠ .processor ∧ src ≠ .worker
  | .handleReadable _ | .sendPacket _ | .replay _ | .subscribe _ => True
  | .epollExit | .joinEpoll | .stopProcessor | .joinWorker | .destroy _ => True
  | _ => False

/-! ## The queue -/

/-- The operations on the queue: the locked check of a callback, and the worker at the front. -/
def queueOps (tr : List (Runtime × Action)) : List (BoundedFifo.Op Packet) :=
  tr.filterMap fun x =>
    match x.2 with
    | .enqueue packet _ => some (.offer packet)
    | .processLoop => some .poll
    | _ => none

/-- The queue these operations are meant to lead to. -/
def fifo (tr : List (Runtime × Action)) : BoundedFifo.Fifo Packet :=
  BoundedFifo.run 1024 (queueOps tr)

/-- The packets that a callback has ended with an injected failure. -/
def injectedFailures (tr : List (Runtime × Action)) : List Packet :=
  tr.filterMap fun x =>
    match x.2 with
    | .inject packet => if (x.1.injector.inject packet).1.is_terminal then some packet else none
    | _ => none

/-- A packet taken in that has not come to its locked check. -/
def unchecked (packet : Packet) : Action → ℕ
  | .inject p | .enqueue p _ => if p = packet then 1 else 0
  | _ => 0

/-- The packet, by id and lifecycle, that a message reports as `QueueOverflow`. -/
def overflow? (msg : Message) : Option (UInt64 × UInt64) :=
  match msg.terminal? with
  | some (.dropped drop) =>
    if drop.reason = .queueOverflow then some (drop.packet_id, drop.lifecycle_id) else none
  | _ => none

/-- The packets the processor has reported as `QueueOverflow`. -/
def overflows (log : List (Source × Message)) : List (UInt64 × UInt64) :=
  log.filterMap fun x => if x.1 = .processor ∨ x.1 = .worker then overflow? x.2 else none

/-- Such a report about to be published. -/
def reporting (id : UInt64 × UInt64) : Action → ℕ
  | .publish .processor msg | .publish .worker msg => if overflow? msg = some id then 1 else 0
  | _ => 0

/-! ## The worker -/

/-- The outcome of a packet the worker gets. -/
def classify (packet : Packet) : Terminal :=
  if packet.payload.length > 512 ∨ packet.timestamp_ms = 0 then
    .dropped ⟨.validationError, 0, packet.id, packet.lifecycle_id⟩
  else .processed { packet with payload_size := packet.payload.length.toUInt32 }

/-- The outcomes the worker has published, in order. -/
def workerOutcomes (log : List (Source × Message)) : List Terminal :=
  log.filterMap fun x => if x.1 = .worker then x.2.terminal?.map Terminal.untimed else none

/-- A `transmit` call, or a message of the worker. -/
def isEffect : Action → Bool
  | .transmit _ _ | .publish .worker _ => true
  | _ => false

/-- The effects of the worker, in the order of the trace. -/
def effects (tr : List (Runtime × Action)) : List Action := (tr.map Prod.snd).filter isEffect

/-- What the worker does for one packet, from the state it finds. -/
structure Round where
  state : Runtime
  packet : Packet
  effects : List Action

/-- The law of forwarding for one packet `p`, which the worker reports as `q`. -/
inductive Round.Lawful : Round → Prop where
  /-- A packet that fails a check is dropped, and that is all. -/
  | dropped {s : Runtime} {p : Packet} (t : UInt64) (h : p.payload.length > 512 ∨ p.timestamp_ms = 0) :
    Lawful ⟨s, p, [.publish .worker {
      type := .packetDropped
      timestamp_ms := t
      payload := .packetDropped ⟨.validationError, t, p.id, p.lifecycle_id⟩ }]⟩
  /-- A packet that came from no port is processed, and that is all. -/
  | processed {s : Runtime} {p q : Packet} (h : ¬ (p.payload.length > 512 ∨ p.timestamp_ms = 0))
    (hport : p.ingress_port = none) (hq : q = { p with payload_size := p.payload.length.toUInt32 }) :
    Lawful ⟨s, p, [.publish .worker ⟨.packetProcessed, p.timestamp_ms, .packet q⟩]⟩
  /-- Any other packet is transmitted on the ports of its decision, in their order; then the decision is
  published, and the packet after it. -/
  | forwarded {s : Runtime} {p q : Packet} {engine : SwitchForwardingEngine} {port : UInt32}
    {decision : ForwardingDecision} (h : ¬ (p.payload.length > 512 ∨ p.timestamp_ms = 0))
    (hport : p.ingress_port = some port) (hq : q = { p with payload_size := p.payload.length.toUInt32 })
    (hengine : s.forwarding_engine = some engine)
    (hdecision : (engine.processPacket q port p.timestamp_ms).1 = decision) :
    Lawful ⟨s, p, decision.egress_ports.map (.transmit · q) ++ [
      .publish .worker {
        type := .forwardingDecisionMade
        timestamp_ms := p.timestamp_ms
        payload := .forwardingEvent ⟨p.lifecycle_id, decision.action, decision.egress_ports⟩ },
      .publish .worker ⟨.packetProcessed, p.timestamp_ms, .packet q⟩]⟩

/-- The steps at which the worker begins a packet. -/
def isBegin : Action → Bool
  | .processPacket _ => true
  | _ => false

/-- The packet that is begun. -/
def begun : Action → List Packet
  | .processPacket p => [p]
  | _ => []

/-- The processor is a bounded queue with one server: its queue is the one its specification leads to,
callbacks end with an injected failure or with the locked check, the packets refused there and no
others are reported as `QueueOverflow`, and the worker publishes the outcomes of the packets accepted,
in order. -/
structure RefinesFifo (tr : List (Runtime × Action)) (c : Config Runtime Action) : Prop where
  queue : c.shared.queue = (fifo tr).queue
  length_le : c.shared.queue.length ≤ 1024
  checked : ∀ p, c.shared.taken.count p = (injectedFailures tr).count p +
    (fifo tr).accepted.count p + (fifo tr).refused.count p + c.load (unchecked p)
  overflow : ∀ id, ((fifo tr).refused.map fun p => (p.id, p.lifecycle_id)).count id =
    (overflows c.shared.log).count id + c.load (reporting id)
  outcomes : workerOutcomes c.shared.log <+: (fifo tr).accepted.map classify

/-- The worker forwards by the law: its effects are the rounds of the packets accepted, in order, of
which the last may be under way, and the MAC table and the transport counters change in the rounds of
forwarded packets only. The callbacks publish drops, and nothing else. -/
structure ForwardsInRounds (tr : List (Runtime × Action)) (c : Config Runtime Action) : Prop where
  rounds : ∃ (rounds : List Round) (todo : List Action),
    effects tr ++ todo = rounds.flatMap Round.effects ∧
    (todo = [] ∨ ∃ r ∈ rounds.getLast?, todo <:+ r.effects) ∧
    rounds.map (fun r => (r.state, Action.processPacket r.packet)) =
      tr.filter (fun x => isBegin x.2) ∧
    rounds.map Round.packet <+: (fifo tr).accepted ∧ ∀ r ∈ rounds, r.Lawful
  unchanged : ∀ a d, Step program c a d →
    (d.shared.forwarding_engine = c.shared.forwarding_engine ∨ ∃ p port, a = .processPacket p ∧
      p.ingress_port = some port ∧ ¬ (p.payload.length > 512 ∨ p.timestamp_ms = 0)) ∧
    (d.shared.transport_manager = c.shared.transport_manager ∨ ∃ port p, a = .transmit port p)
  callbacks : ∀ msg, (Source.processor, msg) ∈ c.shared.log → msg.type = .packetDropped

end Runtime

end EdgeNetSwitch
