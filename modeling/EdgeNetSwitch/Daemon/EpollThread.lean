import EdgeNetSwitch.Control.ControlService
import EdgeNetSwitch.Network.UdpIngress
import EdgeNetSwitch.System.EpollEventLoop

/-!
# The epoll thread

The one thread on which `EpollEventLoop::run` of `src/system/epoll/EpollEventLoop.cpp` calls the handlers that
`main` registers: `ShutdownWakeupHandler`, `UdpReadyHandler` with `UdpReceiver::processReadableEvent`, and
`ControlReadyHandler` with `ControlServer::processReadableEvent`. Clients, datagrams and `stop()` come between
any two of its steps.
-/

namespace EdgeNetSwitch

open Control UdpReceiver

/-- The handlers, each registered for one descriptor. -/
inductive Handler where
  | shutdownWakeup
  | udpReady
  | controlReady
  deriving DecidableEq

/-- Where the thread is: before the test of `running_`, in `epoll_wait`, before the next of the events left,
before a read in `UdpReceiver::processReadableEvent` that may still process so many packets, in
`ControlServer::processReadableEvent`, or out of `run()`. -/
inductive Place where
  | testing
  | waiting
  | dispatching (events : List Handler)
  | receiving (left : ℕ) (events : List Handler)
  | serving (events : List Handler)
  | returned
  deriving DecidableEq

structure EpollThread where
  control : ControlState := {}
  ingress : Ingress := { pending := [] }
  loop : EpollEventLoop.LoopState := { running := true }
  place : Place := .testing

/-- What happens next: something at the control socket, a datagram, one of the two actions of `stop()`, or a step
of the thread. Such a step reads as much of the label as it needs: what `epoll_wait` returns, what a dispatch
finds, and what `recvfrom` meets. -/
inductive EpollLabel where
  | client (l : ControlLabel)
  | datagram (d : Datagram)
  | exchange
  | notify
  | epoll (events : List Handler) (ctx : ControlContext) (read : Read)

namespace EpollThread

/-- What `epoll_wait` may return. The descriptors are level-triggered, and fewer than `MaxEvents`. A UDP socket
may be reported although `recvfrom` then finds no datagram. -/
def Ready (s : EpollThread) (events : List Handler) : Prop :=
  events.Nodup ∧ (.controlReady ∈ events ↔ s.control.backlog ≠ []) ∧
    (.shutdownWakeup ∈ events ↔ s.loop.shutdown_event ≠ 0) ∧ (s.ingress.pending ≠ [] → .udpReady ∈ events)

instance (s : EpollThread) (events : List Handler) : Decidable (s.Ready events) := by
  unfold Ready
  infer_instance

/-- The next step of the thread. -/
def next (p : Platform) (ready : List Handler) (ctx : ControlContext) (read : Read) (s : EpollThread) :
    Option EpollThread :=
  match s.place with
  | .testing => some { s with place := if s.loop.running then .waiting else .returned }
  | .waiting => if s.Ready ready then some { s with place := .dispatching ready } else none
  | .dispatching [] => some { s with place := .testing }
  | .dispatching (.shutdownWakeup :: events) =>
    some { s with loop := { s.loop with shutdown_event := 0 }, place := .dispatching events }
  | .dispatching (.udpReady :: events) => some { s with place := .receiving maxPacketsPerWakeup events }
  | .dispatching (.controlReady :: events) =>
    some { s with control := { s.control with phase := .accepting }, place := .serving events }
  | .receiving 0 events => some { s with place := .dispatching events }
  | .receiving (left + 1) events =>
    let (result, ingress) := s.ingress.read read
    match result with
    | .packetProcessed => some { s with ingress, place := .receiving left events }
    | .noData | .closed | .error => some { s with ingress, place := .dispatching events }
  | .serving events =>
    let control := s.control.serve p ctx
    match control.phase with
    | .waiting => some { s with control, place := .dispatching events }
    | _ => some { s with control, place := .serving events }
  | .returned => none

def step (p : Platform) : EpollLabel → EpollThread → Option EpollThread
  | .client l, s =>
    if l.IsServer then none else (s.control.step p l).map fun control => { s with control }
  | .datagram d, s => some { s with ingress := { s.ingress with pending := s.ingress.pending ++ [d] } }
  | .exchange, s => some { s with loop := { s.loop with running := false } }
  | .notify, s =>
    some { s with
      loop := { s.loop with shutdown_event := EpollEventLoop.notified s.loop.shutdown_event } }
  | .epoll ready ctx read, s => if s.control.alive then s.next p ready ctx read else none

/-- The call that a step of the thread makes in the control server. -/
def call? (s : EpollThread) (ctx : ControlContext) : Option ControlLabel :=
  match s.place with
  | .dispatching (.controlReady :: _) | .serving _ => some (.server ctx)
  | _ => none

end EpollThread

namespace EpollLabel

/-- The label of a step of the thread. -/
def IsEpoll : EpollLabel → Bool
  | epoll .. => true
  | _ => false

/-- A client connects. -/
def IsConnect : EpollLabel → Bool
  | client (.connect _) => true
  | _ => false

/-- What the label is to the control server. -/
def control? (s : EpollThread) : EpollLabel → Option ControlLabel
  | client l => some l
  | epoll _ ctx _ => s.call? ctx
  | _ => none

/-- The context that a dispatch finds in this step. -/
def context? : EpollLabel → Option ControlContext
  | client l => l.context?
  | epoll _ ctx _ => some ctx
  | _ => none

def datagram? : EpollLabel → Option Datagram
  | datagram d => some d
  | _ => none

end EpollLabel

namespace EpollThread

/-- A condition on the steps of the control server, asked of those that the label makes it take. -/
def OnControl (φ : ControlState → ControlLabel → Prop) (s : EpollThread) (l : EpollLabel) : Prop :=
  ∀ l' ∈ l.control? s, φ s.control l'

/-- The control server is spared, and `stop()` is not called. -/
def Unstopped (s : EpollThread) (l : EpollLabel) : Prop := OnControl Spared s l ∧ l ≠ .exchange

instance (φ : ControlState → ControlLabel → Prop) [∀ c l', Decidable (φ c l')] (s : EpollThread)
    (l : EpollLabel) : Decidable (OnControl φ s l) :=
  inferInstanceAs (Decidable (∀ l' ∈ l.control? s, φ s.control l'))

instance : ∀ l : EpollLabel, Decidable (l ≠ .exchange)
  | .exchange => isFalse fun h => h rfl
  | .client _ | .datagram _ | .notify | .epoll .. => isTrue nofun

instance (s : EpollThread) (l : EpollLabel) : Decidable (Unstopped s l) :=
  inferInstanceAs (Decidable (OnControl Spared s l ∧ l ≠ .exchange))

/-- The thread can take its next step, if `epoll_wait` returns what is ready. -/
def CanGoOn (p : Platform) (s : EpollThread) : Prop :=
  ∀ ctx read, ∃ ready, (s.step p (.epoll ready ctx read)).isSome

/-- The source of the event for a handler, when the descriptors have the numbers `fd`. -/
def source (fd : Handler → ℕ) : Handler → EpollEventLoop.EventSource
  | .shutdownWakeup => .shutdownEvent
  | handler => .other (fd handler)

/-- What the loop by itself still has to do, without what its handlers do. -/
def loopActions (fd : Handler → ℕ) : Place → List EpollEventLoop.LoopAction
  | .testing => [.test]
  | .waiting => [.blocked]
  | .dispatching events => [.dispatch (events.map (source fd))]
  | .receiving _ events => [.dispatch ((.udpReady :: events).map (source fd))]
  | .serving events => [.dispatch ((.controlReady :: events).map (source fd))]
  | .returned => []

/-- The messages published for datagrams are those that are due for the first of them, in the order of arrival,
and the others are still to be read. -/
def TakesInOrder (datagrams : List Datagram) (s : EpollThread) : Prop :=
  ∃ delivered, datagrams = delivered ++ s.ingress.pending ∧
    s.ingress.outcomes = delivered.mapIdx fun i d => outcome d (UInt64.ofNat (i + 1))

end EpollThread

end EdgeNetSwitch
