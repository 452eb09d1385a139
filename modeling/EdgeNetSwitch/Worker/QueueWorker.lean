import EdgeNetSwitch.Threads.Program

/-!
# Queue workers

`PacketProcessor` and `TelemetryExportManager` share one design: a queue under a mutex, a worker that
waits on a condition variable until the queue has an item or the owner has been stopped, and a
stopping thread that clears an atomic flag, notifies and joins. This module is that protocol, with
`cv_.wait` taken apart: the predicate is evaluated under the mutex, and when it is false the worker
releases the mutex and goes to sleep in one step.
-/

namespace EdgeNetSwitch

open Threads

/-- The owner of the queue. `TelemetryExportManager` is created with a capacity. -/
inductive QueueOwner where
  | packetProcessor
  | telemetryExportManager (capacity : ℕ)
  deriving DecidableEq

/-- Where the worker stands with respect to the condition variable. -/
inductive Waiter where
  | awake
  | sleeping
  | woken
  deriving DecidableEq

structure QueueState (α : Type*) where
  queue : List α := []
  locked : Bool := false
  running : Bool := true
  waiter : Waiter := .awake
  exited : Bool := false

inductive QueueAction (α : Type*) where
  /-- `processLoop` / `exportLoop`: construct the `unique_lock`. -/
  | acquire
  /-- `cv_.wait`: evaluate the predicate under the mutex. -/
  | evaluate
  /-- `cv_.wait`: release the mutex and sleep. -/
  | sleep
  /-- `cv_.wait`: return from sleep, with the mutex. -/
  | wake
  /-- The exit test, or else the `pop_front`; either way the mutex is released. -/
  | take
  /-- `processPacket` / `exportSample`. -/
  | process (item : α)
  /-- The locked part of a producer. -/
  | enqueue (item : α)
  | notifyOne
  /-- `~PacketProcessor` / `TelemetryExportManager::stop`: clear `running_`. -/
  | stop
  | notifyAll
  | join

/-- What comes from outside: spurious wake-ups, and the items that processing an item makes the
worker itself enqueue. -/
structure QueueInput (α : Type*) where
  spurious : Bool := false
  enqueued : List α := []

namespace QueueState

variable {α : Type*}

/-- The predicate the worker waits for. -/
def ready (s : QueueState α) : Bool := !s.queue.isEmpty || !s.running

/-- The locked part of a producer: the new queue, or `none` when nothing is pushed.
`PacketProcessor` drops the new packet when the queue is full, `TelemetryExportManager` the oldest
sample, and every sample when its capacity is 0. -/
def push : QueueOwner → List α → α → Option (List α)
  | .packetProcessor, queue, item =>
    if queue.length ≥ 1024 then none else some (queue ++ [item])
  | .telemetryExportManager capacity, queue, item =>
    if capacity = 0 then none
    else if queue.length ≥ capacity then some (queue.tail ++ [item])
    else some (queue ++ [item])

/-- A notification reaches the worker when it sleeps. -/
def notify (s : QueueState α) : QueueState α :=
  { s with waiter := if s.waiter = .sleeping then .woken else s.waiter }

def exec (owner : QueueOwner) : QueueAction α → QueueInput α → QueueState α →
    Option (QueueState α × List (QueueAction α))
  | .acquire, _, s => if s.locked then none else some ({ s with locked := true }, [.evaluate])
  | .evaluate, _, s => some (s, if s.ready then [.take] else [.sleep])
  | .sleep, _, s => some ({ s with locked := false, waiter := .sleeping }, [.wake])
  | .wake, w, s =>
    if s.locked ∨ (s.waiter = .sleeping ∧ w.spurious = false) then none
    else some ({ s with locked := true, waiter := .awake }, [.evaluate])
  | .take, _, s =>
    if s.running = false ∧ s.queue = [] then some ({ s with locked := false, exited := true }, [])
    else
      match s.queue with
      | item :: queue => some ({ s with locked := false, queue := queue }, [.process item])
      | [] => none
  | .process _, w, s => some (s, w.enqueued.map .enqueue ++ [.acquire])
  | .enqueue item, _, s =>
    if s.locked then none
    else
      match push owner s.queue item with
      | some queue => some ({ s with queue := queue }, [.notifyOne])
      | none => some (s, [])
  | .notifyOne, _, s => some (s.notify, [])
  | .stop, _, s =>
    match owner with
    | .packetProcessor => some ({ s with running := false }, [.notifyAll])
    | .telemetryExportManager _ =>
      if s.running then some ({ s with running := false }, [.notifyAll]) else some (s, [])
  | .notifyAll, _, s => some (s.notify, [.join])
  | .join, _, s => if s.exited then some (s, []) else none

/-- The queue worker of `owner`. -/
def program (owner : QueueOwner) : Program (QueueState α) (QueueAction α) (QueueInput α) where
  exec := exec owner

/-- A running owner: the worker has just been started, and `callers` are the threads that will
enqueue and stop. -/
def start (callers : List (List (QueueAction α))) : Config (QueueState α) (QueueAction α) :=
  ⟨{}, [.acquire] :: callers⟩

/-- What other threads do to a queue worker. -/
def IsCall : QueueAction α → Prop
  | .enqueue _ | .stop => True
  | _ => False

/-- A stopping thread is past `notify_all` and in `join`, while the worker sleeps with its predicate
true and no notification on the way. -/
def Stuck (c : Config (QueueState α) (QueueAction α)) : Prop :=
  (∃ t ∈ c.threads, t.head? = some .join) ∧ c.shared.waiter = .sleeping ∧ c.shared.ready = true ∧
    ¬ c.Pending fun a => a = .notifyOne ∨ a = .notifyAll

/-- `notify_all` does not fall between the worker's evaluation of its predicate to false and its
going to sleep. -/
def NotifiedOutsideWindow (c : Config (QueueState α) (QueueAction α)) (a : QueueAction α) : Prop :=
  a = .notifyAll → ¬ c.Pending (· = .sleep)

end QueueState

end EdgeNetSwitch
