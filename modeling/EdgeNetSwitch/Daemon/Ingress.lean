import EdgeNetSwitch.Daemon.Conservation

/-!
# The ingress path

What `PacketStats` is meant to report about the packets that come in through the epoll thread, from
the socket or from a `send-packet` command, stated over the record of what was published.
-/

namespace EdgeNetSwitch

open Threads

/-- What the epoll thread is woken up for: a readable UDP socket, or a `send-packet` command. -/
inductive Request where
  | readable (recv : RecvResult)
  | sendPacket (arg : Bytes)
  deriving DecidableEq

namespace Request

def action : Request → Action
  | readable recv => .handleReadable recv
  | sendPacket arg => .sendPacket arg

def isDatagram : Request → Bool
  | readable (.datagram _) => true
  | _ => false

/-- The lifecycle ids the command handler chooses. -/
def chosenIds : Request → List UInt64
  | readable _ => []
  | sendPacket arg => (handleSendPacket arg).map SyntheticPacket.id

end Request

/-- One processor and one `PacketStats` are on the bus, and no callback of other code. -/
structure Wired (subscribers : List Subscriber) : Prop where
  packetProcessor : subscribers.count .packetProcessor = 1
  packetStats : subscribers.count .packetStats = 1
  client : ∀ type, Subscriber.client type ∉ subscribers

namespace Runtime

/-- The worker and the epoll thread, which has `requests` to handle. -/
def ingress (subscribers : List Subscriber) (cfg : FailureConfig)
    (forwarding_engine : Option SwitchForwardingEngine)
    (transport_manager : Option TransportManager) (requests : List Request) :
    Config Runtime Action :=
  start (initial subscribers cfg forwarding_engine transport_manager)
    [requests.map Request.action]

/-- A datagram of a host on the local network. -/
def localDatagram (text : String) : Datagram := ⟨bytesOf text, (10, 0, 0, 1), 9000⟩

/-- The actions of a dispatch: callbacks invoked or about to be, and what runs inside one. -/
def InDispatch : Action → Prop
  | .deliver _ _ | .inject _ | .enqueue _ _ | .appendRecord _ | .appendOutcome _ => True
  | .publish .processor _ | .publish .client _ => True
  | _ => False

/-- The lifecycles of the `PacketRx` messages published. -/
def rxIds (log : List (Source × Message)) : List UInt64 :=
  log.filterMap fun x => x.2.packetRx?.map Packet.lifecycle_id

/-- The lifecycles of the terminal messages published. -/
def terminalIds (log : List (Source × Message)) : List UInt64 :=
  log.filterMap fun x => x.2.terminal?.map Terminal.lifecycle_id

/-- The lifecycles of the datagrams `UdpReceiver` has rejected. -/
def rejectedIds (log : List (Source × Message)) : List UInt64 :=
  log.filterMap fun x =>
    match x.1 with
    | .receiver _ => x.2.terminal?.map Terminal.lifecycle_id
    | _ => none

/-- The snapshot `m` reports the lifecycles in flight. -/
structure InFlightAccounted (m : PacketMetrics) (log : List (Source × Message)) : Prop where
  pending : m.pending_terminal_events.toNat =
    ((rxIds log).toFinset \ (terminalIds log).toFinset).card
  balance : m.ingress_packets.toNat = m.terminal_events.toNat + m.pending_terminal_events.toNat

/-- The epoll thread has handled its requests, and the worker waits for packets. -/
def Drained (c : Config Runtime Action) : Prop :=
  c.shared.queue = [] ∧ ∀ t ∈ c.threads, ∀ a ∈ t, a = .processLoop

/-- Every packet has a lifecycle of its own, and `PacketStats` counts an outcome for each. -/
structure UniqueLifecycles (c : Config Runtime Action) : Prop where
  nodup : (rxIds c.shared.log).Nodup
  duplicates : c.shared.stats.duplicate_events = 0
  outcomes : Drained c → c.shared.stats.terminal_events.toNat =
    (rxIds c.shared.log).length + (rejectedIds c.shared.log).length

/-- No command is given twice, and the datagrams are too few for the generator to reach an id that
a command chooses. -/
structure DistinctIds (requests : List Request) : Prop where
  commands : ∀ arg, handleSendPacket arg ≠ [] → requests.count (.sendPacket arg) ≤ 1
  datagrams : ∀ request ∈ requests, ∀ id ∈ request.chosenIds,
    requests.countP Request.isDatagram < id.toNat

end Runtime

end EdgeNetSwitch
