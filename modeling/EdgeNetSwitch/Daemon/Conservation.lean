import EdgeNetSwitch.Daemon.Runtime

/-!
# What becomes of a packet

The purpose of `PacketProcessor`, stated over the record of a run: every packet taken in has, at
every moment, either one terminal message or one copy in flight.
-/

namespace EdgeNetSwitch

namespace Runtime

open Threads

/-- The lifecycles `PacketProcessor` has published a terminal message for. -/
def terminated (log : List (Source × Message)) : List UInt64 :=
  log.filterMap fun x =>
    if x.1 = .processor ∨ x.1 = .worker then x.2.terminal?.map Terminal.lifecycle_id else none

/-- The copies of `L` an action has in hand: a packet in the callback or with the worker, or its
terminal message about to be published. -/
def holds (L : UInt64) : Action → ℕ
  | .inject p | .enqueue p _ | .processPacket p => if p.lifecycle_id = L then 1 else 0
  | .publish .processor msg | .publish .worker msg =>
    if msg.terminal?.map Terminal.lifecycle_id = some L then 1 else 0
  | _ => 0

/-- The copies of `L` in the queue, in a callback or with the worker. -/
def inFlight (L : UInt64) (c : Config Runtime Action) : ℕ :=
  (c.shared.queue.map Packet.lifecycle_id).count L + c.load (holds L)

/-- What the threads around a processor can set out to do: anything but the steps of the processor
itself. -/
def IsCall : Action → Prop
  | .publish src _ => src ≠ .processor ∧ src ≠ .worker
  | .inject _ | .enqueue _ _ | .processLoop | .processPacket _ => False
  | _ => True

/-- The actions of a `PacketRx` callback of `PacketProcessor`. -/
def InCallback : Action → Prop
  | .deliver .packetProcessor _ | .inject _ | .enqueue _ _ | .publish .processor _ => True
  | _ => False

/-- The actions of the worker on a packet. -/
def OfWorker : Action → Prop
  | .processPacket _ | .publish .worker _ => True
  | _ => False

/-- A new processor, with whatever else is on the bus. -/
def initial (subscribers : List Subscriber) (cfg : FailureConfig)
    (forwarding_engine : Option SwitchForwardingEngine)
    (transport_manager : Option TransportManager) : Runtime :=
  { subscribers, injector := { config := cfg }, forwarding_engine, transport_manager }

/-- Its worker has been started, and `callers` are the other threads. -/
def start (s : Runtime) (callers : List (List Action)) : Config Runtime Action :=
  ⟨s, [.processLoop] :: callers⟩

/-- The destructor begins when no `PacketRx` callback is in progress, and no `PacketRx` is published
after that. -/
def QuietShutdown (c : Config Runtime Action) : Action → Prop
  | .stopProcessor => ¬ c.Pending InCallback
  | .publish _ msg => msg.type = .packetRx → c.shared.running = true
  | _ => True

instance : DecidablePred InCallback := fun a => by
  unfold InCallback
  split <;> infer_instance

instance (c : Config Runtime Action) (a : Action) : Decidable (QuietShutdown c a) := by
  unfold QuietShutdown
  split <;> infer_instance

end Runtime

end EdgeNetSwitch
