import EdgeNetSwitch.Threads.Program
import Mathlib.Data.UInt

/-!
# The epoll event loop

`EpollEventLoop` of `src/system/epoll/EpollEventLoop.cpp`, with `EpollManager::wait` and the shutdown
`EventFd`: one thread calls `run()`, others call `stop()`. The handlers of other descriptors do not
touch the loop and do nothing here.
-/

namespace EdgeNetSwitch

open Threads

namespace EpollEventLoop

/-- A descriptor, as `EpollEvent` reports it. -/
inductive EventSource where
  | shutdownEvent
  | other (fd : ℕ)
  deriving DecidableEq

/-- `stops_called` and `stops_returned` count the calls of `stop()`. -/
structure LoopState where
  running : Bool := false
  shutdown_event : UInt64 := 0
  stops_called : ℕ := 0
  stops_returned : ℕ := 0
  deriving DecidableEq

inductive LoopAction where
  /-- `run()`: `running_.store(true)`. -/
  | start
  /-- `while (running_.load())`. -/
  | test
  /-- Call `epoll_.wait(1000)`. -/
  | wait
  /-- In the kernel. -/
  | blocked
  /-- The rest of the loop over the events returned. -/
  | dispatch (events : List EventSource)
  /-- `stop()` is called. -/
  | stop
  /-- `running_.exchange(false)`. -/
  | exchange
  /-- `shutdown_event_.notify()`. -/
  | notify
  /-- `stop()` returns. -/
  | stopped
  deriving DecidableEq

/-- `EventFd::notify`: a write of 1, which is refused when it would reach the greatest value. -/
def notified (counter : UInt64) : UInt64 :=
  if counter.toNat + 1 < 2 ^ 64 - 1 then counter + 1 else counter

/-- What the actions do. `wait` returns the descriptors `events`, none of them on a timeout; the
shutdown descriptor is among them only when its counter is not zero. -/
def exec : LoopAction → List EventSource → LoopState → Option (LoopState × List LoopAction)
  | .start, _, s => some ({ s with running := true }, [.test])
  | .test, _, s => some (s, if s.running then [.wait] else [])
  | .wait, _, s => some (s, [.blocked])
  | .blocked, events, s =>
    if .shutdownEvent ∈ events ∧ s.shutdown_event = 0 then none else some (s, [.dispatch events])
  | .dispatch [], _, s => some (s, [.test])
  | .dispatch (.shutdownEvent :: events), _, s =>
    some ({ s with shutdown_event := 0 }, [.dispatch events])
  | .dispatch (.other _ :: events), _, s => some (s, [.dispatch events])
  | .stop, _, s => some ({ s with stops_called := s.stops_called + 1 }, [.exchange])
  | .exchange, _, s =>
    some ({ s with running := false }, if s.running then [.notify] else [.stopped])
  | .notify, _, s => some ({ s with shutdown_event := notified s.shutdown_event }, [.stopped])
  | .stopped, _, s => some ({ s with stops_returned := s.stops_returned + 1 }, [])

def program : Program LoopState LoopAction (List EventSource) where
  exec := exec

/-- One thread is about to enter `run()`, and each of the others to call `stop()` a number of
times. -/
def init (callers : List ℕ) : Config LoopState LoopAction :=
  ⟨{}, [.start] :: callers.map fun n => List.replicate n .stop⟩

/-- `stop()` was called and every call has returned, but the loop goes into `wait`, or is in it, with
the flag set; or it is in `wait` with the flag cleared and nothing to wake it. -/
def ShutdownLost (c : Config LoopState LoopAction) : Prop :=
  0 < c.shared.stops_called ∧ c.shared.stops_returned = c.shared.stops_called ∧
    ((c.Pending fun a => a = .wait ∨ a = .blocked) ∧ c.shared.running = true ∨
      c.Pending (· = .blocked) ∧ c.shared.running = false ∧ c.shared.shutdown_event = 0)

/-- No `stop()` executes its exchange before `run()` has executed its store. -/
def StoppedAfterStart (c : Config LoopState LoopAction) (a : LoopAction) : Prop :=
  a = .exchange → ¬ c.Pending (· = .start)

end EpollEventLoop

end EdgeNetSwitch
