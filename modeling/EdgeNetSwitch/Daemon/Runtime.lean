import EdgeNetSwitch.Threads.Program
import EdgeNetSwitch.Packet.PacketStats
import EdgeNetSwitch.Failure.FailureInjector
import EdgeNetSwitch.Network.UdpReceiver
import EdgeNetSwitch.Control.SendPacket
import EdgeNetSwitch.Replay.Replay
import EdgeNetSwitch.Transport.TransportManager

/-!
# The daemon at run time

The message bus with everything that publishes on it and subscribes to it: `MessagingBus`,
`PacketProcessor` with its worker thread, `PacketStats`, the replay recorder and collector, the UDP
receiver, the control plane's `send-packet`, and the objects of `main` that can be destroyed while a
callback still refers to them. A thread is a stack of actions; `publish` is replaced by the callbacks
it invokes, in order, on the publishing thread.

A section under a mutex is one action. `log`, `taken`, `counted` and `dangling` only record what
happened.
-/

namespace EdgeNetSwitch

open Threads

/-- The objects `main` declares in the scope of the daemon, in order. -/
inductive DaemonObject where
  | bus
  | runtimeState
  | telemetry
  | healthMonitor
  | packetGenerator
  | failureInjector
  | interfaces
  | port1
  | port2
  | port3
  | port4
  | port5
  | macTable
  | forwardingEngine
  | transportManager
  | packetProcessor
  | packetStats
  | epollManager
  | epollLoop
  | exportManager
  | control_fd
  | epollThread
  | udpReceiver
  | statusBuilder
  | udpHandler
  | controlServer
  | controlHandler
  deriving DecidableEq

namespace DaemonObject

def declarations : List DaemonObject :=
  [bus, runtimeState, telemetry, healthMonitor, packetGenerator, failureInjector, interfaces, port1,
    port2, port3, port4, port5, macTable, forwardingEngine, transportManager, packetProcessor,
    packetStats, epollManager, epollLoop, exportManager, control_fd, epollThread, udpReceiver,
    statusBuilder, udpHandler, controlServer, controlHandler]

end DaemonObject

/-- A component whose callbacks are registered with the bus. `logger` is a lambda of `main` that
uses none of its variables, `heartbeat` the one for `Telemetry`, and `client` a callback of other code,
which may publish anything. -/
inductive Subscriber where
  | packetProcessor
  | packetStats
  | replayRecorder
  | replayOutcomeCollector
  | heartbeat
  | logger (type : MessageType)
  | client (type : MessageType)
  deriving DecidableEq

namespace Subscriber

/-- The message types subscribed to. -/
def types : Subscriber → List MessageType
  | packetProcessor => [.packetRx]
  | packetStats => [.packetProcessed, .packetDropped, .packetRx, .ingressIdlePoll]
  | replayRecorder => [.packetRx]
  | replayOutcomeCollector => [.packetProcessed, .packetDropped]
  | heartbeat => [.telemetry]
  | logger type | client type => [type]

/-- The objects of `main` that the callbacks refer to. -/
def captures : Subscriber → List DaemonObject
  | packetProcessor => [.packetProcessor]
  | packetStats => [.packetStats]
  | heartbeat => [.healthMonitor, .exportManager]
  | _ => []

end Subscriber

/-- Who publishes a message: the `PacketRx` callback of `PacketProcessor`, its worker, the UDP
receiver with what it received, a `send-packet` command, `ReplayPlayer`, `main`, a callback of other
code, or any other thread. -/
inductive Source where
  | processor
  | worker
  | receiver (recv : RecvResult)
  | control (arg : Bytes)
  | replayPlayer
  | main
  | client
  | publisher
  deriving DecidableEq

structure Runtime where
  subscribers : List Subscriber := []
  destroyed : List DaemonObject := []
  queue : List Packet := []
  running : Bool := true
  exited : Bool := false
  injector : FailureInjector := { config := {} }
  forwarding_engine : Option SwitchForwardingEngine := none
  transport_manager : Option TransportManager := none
  stats : PacketStats := {}
  recorder : ReplayRecorder := {}
  collector : ReplayOutcomeCollector := {}
  lifecycle_gen : UInt64 := 1
  epoll_exited : Bool := false
  log : List (Source × Message) := []
  taken : List Packet := []
  counted : List StatsMessage := []
  dangling : List (Subscriber × Message) := []

/-- What an action takes from outside: clock readings, what a transport backend returns, and what
a callback of other code publishes. -/
structure Env where
  clock : ReadClock := {}
  now_ns : UInt64 := 0
  now_ms : UInt64 := 0
  returned : TransmitResult := {}
  published : List Message := []

inductive Action where
  /-- `MessagingBus::publish`. -/
  | publish (source : Source) (msg : Message)
  /-- The bus invokes a callback. -/
  | deliver (sub : Subscriber) (msg : Message)
  /-- The `PacketRx` callback of `PacketProcessor`, up to the injected failure. -/
  | inject (packet : Packet)
  /-- Its section under `queue_mutex_`. -/
  | enqueue (packet : Packet) (now_ms : UInt64)
  /-- `PacketProcessor::processLoop`: wait, and take a packet or leave the loop. -/
  | processLoop
  /-- `PacketProcessor::processPacket`, up to its first message. -/
  | processPacket (packet : Packet)
  | transmit (port : UInt32) (packet : Packet)
  | appendRecord (record : ReplayRecord)
  | appendOutcome (outcome : ReplayOutcome)
  /-- `UdpReceiver::handleReadable`. -/
  | handleReadable (recv : RecvResult)
  /-- `handleSendPacket`. -/
  | sendPacket (arg : Bytes)
  | publishSynthetic (arg : Bytes) (packet : SyntheticPacket)
  /-- `ReplayPlayer::replay`. -/
  | replay (records : List ReplayRecord)
  | subscribe (sub : Subscriber)
  /-- The epoll thread ends. -/
  | epollExit
  /-- `main` joins the epoll thread. -/
  | joinEpoll
  /-- `~PacketProcessor`: `running_ = false`, then `worker_.join()`. -/
  | stopProcessor
  | joinWorker
  /-- The end of a destructor. -/
  | destroy (object : DaemonObject)
  deriving DecidableEq

namespace PacketProcessor

/-- `MAX_QUEUE_SIZE`. -/
abbrev maxQueueSize : ℕ := 1024

/-- `MAX_PAYLOAD_SIZE`. -/
abbrev maxPayloadSize : ℕ := 512

/-- The `PacketDropped` message for a packet. -/
def dropMessage (packet : Packet) (reason : PacketDropReason) (now_ms : UInt64) : Message where
  type := .packetDropped
  timestamp_ms := now_ms
  payload := .packetDropped ⟨reason, now_ms, packet.id, packet.lifecycle_id⟩

def forwardingMessage (packet : Packet) (decision : ForwardingDecision) : Message where
  type := .forwardingDecisionMade
  timestamp_ms := packet.timestamp_ms
  payload := .forwardingEvent ⟨packet.lifecycle_id, decision.action, decision.egress_ports⟩

def processedMessage (packet : Packet) : Message where
  type := .packetProcessed
  timestamp_ms := packet.timestamp_ms
  payload := .packet packet

/-- What `processPacket` makes of a packet that passes its checks, from `payload_size` on. -/
def sized (packet : Packet) : Packet :=
  { packet with payload_size := packet.payload.length.toUInt32 }

/-- The checks of `processPacket`: the time of the drop when one of them fails. -/
def rejects (packet : Packet) (now_ms : UInt64) : Option UInt64 :=
  if packet.payload.length > maxPayloadSize then some packet.timestamp_ms
  else if packet.timestamp_ms = 0 then some now_ms
  else none

end PacketProcessor

/-- The outcome a collector records for a terminal message. -/
def ReplayOutcome.of (sequence : UInt64) : Terminal → ReplayOutcome
  | .processed packet => ⟨sequence, .processed, packet.lifecycle_id, .unknown⟩
  | .dropped drop => ⟨sequence, .dropped, drop.lifecycle_id, drop.reason⟩

namespace Runtime

open PacketProcessor

/-- The body of a callback, up to its first atomic step. -/
def callback (s : Runtime) (msg : Message) (w : Env) : Subscriber → Runtime × List Action
  | .packetProcessor =>
    match msg.packetRx? with
    | some packet => ({ s with taken := s.taken ++ [packet] }, [.inject packet])
    | none => (s, [])
  | .packetStats =>
    match msg.stats? with
    | some m =>
      ({ s with stats := s.stats.onMessage w.now_ns m, counted := s.counted ++ [m] }, [])
    | none => (s, [])
  | .replayRecorder =>
    match msg.packetRx? with
    | some packet =>
      let n := s.recorder.next_sequence
      ({ s with recorder := { s.recorder with next_sequence := n + 1 } },
        [.appendRecord ⟨n, packet⟩])
    | none => (s, [])
  | .replayOutcomeCollector =>
    match msg.terminal? with
    | some t =>
      let n := s.collector.next_sequence
      ({ s with collector := { s.collector with next_sequence := n + 1 } },
        [.appendOutcome (ReplayOutcome.of n t)])
    | none => (s, [])
  | .heartbeat | .logger _ => (s, [])
  | .client _ => (s, w.published.map (.publish .client))

def exec : Action → Env → Runtime → Option (Runtime × List Action)
  | .publish source msg, _, s =>
    some ({ s with log := s.log ++ [(source, msg)] },
      (s.subscribers.filter fun sub => msg.type ∈ sub.types).map (.deliver · msg))
  | .deliver sub msg, w, s =>
    if sub.captures.any (· ∈ s.destroyed) then
      some ({ s with dangling := s.dangling ++ [(sub, msg)] }, [])
    else some (s.callback msg w sub)
  | .inject packet, w, s =>
    let (failure, injector) := s.injector.inject packet
    some ({ s with injector },
      if failure.is_terminal then
        [.publish .processor (dropMessage packet failure.type.dropReason w.now_ms)]
      else [.enqueue packet w.now_ms])
  | .enqueue packet now_ms, _, s =>
    if s.queue.length ≥ maxQueueSize then
      some (s, [.publish .processor (dropMessage packet .queueOverflow now_ms)])
    else some ({ s with queue := s.queue ++ [packet] }, [])
  | .processLoop, _, s =>
    match s.queue with
    | packet :: queue => some ({ s with queue }, [.processPacket packet, .processLoop])
    | [] => if s.running then none else some ({ s with exited := true }, [])
  | .processPacket packet, w, s =>
    match rejects packet w.now_ms with
    | some drop_ms => some (s, [.publish .worker (dropMessage packet .validationError drop_ms)])
    | none =>
      let packet := sized packet
      match s.forwarding_engine, packet.ingress_port with
      | some engine, some ingress_port =>
        let (decision, engine) := engine.processPacket packet ingress_port packet.timestamp_ms
        some ({ s with forwarding_engine := some engine },
          (if s.transport_manager.isSome then decision.egress_ports.map (.transmit · packet)
            else []) ++
            [.publish .worker (forwardingMessage packet decision),
              .publish .worker (processedMessage packet)])
      | _, _ => some (s, [.publish .worker (processedMessage packet)])
  | .transmit port _, w, s =>
    some ({ s with
      transport_manager := s.transport_manager.map fun t => (t.transmit port w.returned).2 }, [])
  | .appendRecord record, _, s =>
    some ({ s with recorder := { s.recorder with records := s.recorder.records ++ [record] } }, [])
  | .appendOutcome outcome, _, s =>
    some ({ s with
      collector := { s.collector with outcomes := s.collector.outcomes ++ [outcome] } }, [])
  | .handleReadable recv, w, s =>
    let (_, msg, lifecycle_gen) := UdpReceiver.handleReadable s.lifecycle_gen recv w.clock
    some ({ s with lifecycle_gen }, msg.toList.map (.publish (.receiver recv)))
  | .sendPacket arg, _, s => some (s, (handleSendPacket arg).map (.publishSynthetic arg))
  | .publishSynthetic arg packet, w, s =>
    some (s, (publishSyntheticPacket packet w.now_ms).toList.map (.publish (.control arg)))
  | .replay [], _, s => some (s, [])
  | .replay (record :: records), _, s =>
    some (s, [.publish .replayPlayer
      ⟨.packetRx, record.packet.timestamp_ms, .packet record.packet⟩, .replay records])
  | .subscribe sub, _, s => some ({ s with subscribers := s.subscribers ++ [sub] }, [])
  | .epollExit, _, s => some ({ s with epoll_exited := true }, [])
  | .joinEpoll, _, s => if s.epoll_exited then some (s, []) else none
  | .stopProcessor, _, s => some ({ s with running := false }, [])
  | .joinWorker, _, s => if s.exited then some (s, []) else none
  | .destroy object, _, s => some ({ s with destroyed := s.destroyed ++ [object] }, [])

/-- The daemon. -/
def program : Program Runtime Action Env where
  exec := exec

end Runtime

end EdgeNetSwitch
