import EdgeNetSwitch.Daemon.Ingress

/-!
# The scope of `main`

The daemon from the start of its epoll thread to the end of the scope that holds its objects. They are
destroyed in the reverse order of their declarations, so `PacketStats` goes before `PacketProcessor`,
whose destructor is what waits for the worker.
-/

namespace EdgeNetSwitch

open Threads

namespace Runtime

/-- The subscriptions `main` makes. -/
def subscriptions : List Subscriber :=
  [.logger .systemStart, .logger .systemShutdown, .heartbeat, .logger .healthStatus,
    .logger .packetRx, .logger .forwardingDecisionMade, .logger .packetProcessed]

/-- One round of the loop of `main`: `Telemetry::onTick`, and `HealthMonitor::onTick` if the health has
changed. -/
structure Tick where
  telemetry : TelemetryData
  health : Option HealthStatus := none

namespace Tick

def messages (tick : Tick) : List Message :=
  ⟨.telemetry, tick.telemetry.timestamp_ms, .telemetryData tick.telemetry⟩ ::
    (tick.health.map fun status =>
      ⟨.healthStatus, status.last_heartbeat_ms, .healthStatus status⟩).toList

end Tick

/-- What the destructor of an object does. -/
def destructor : DaemonObject → List Action
  | .packetProcessor => [.stopProcessor, .joinWorker, .destroy .packetProcessor]
  | object => [.destroy object]

/-- The end of the scope. -/
def scopeEnd : List Action := DaemonObject.declarations.reverse.flatMap destructor

/-- From the stop request on. -/
def shutdown (stop_ms : UInt64) : List Action :=
  .joinEpoll :: .publish .main ⟨.systemShutdown, stop_ms, .monostate⟩ :: scopeEnd

/-- The main thread, once it has started the epoll thread. -/
def mainThread (start_ms : UInt64) (ticks : List Tick) (stop_ms : UInt64) : List Action :=
  subscriptions.map .subscribe ++ .publish .main ⟨.systemStart, start_ms, .monostate⟩ ::
    (ticks.flatMap Tick.messages).map (.publish .main) ++ shutdown stop_ms

/-- The daemon when all objects have been constructed: the worker, the epoll thread and the main
thread. -/
def daemon (cfg : FailureConfig) (forwarding_engine : Option SwitchForwardingEngine)
    (transport_manager : Option TransportManager) (requests : List Request) (start_ms : UInt64)
    (ticks : List Tick) (stop_ms : UInt64) : Config Runtime Action :=
  start (initial [.packetProcessor, .packetStats] cfg forwarding_engine transport_manager)
    [requests.map Request.action ++ [.epollExit], mainThread start_ms ticks stop_ms]

/-- The worker has a packet in hand, or is delivering a message about it to `PacketStats`. -/
def WorkerBusy : Action → Prop
  | .processPacket _ | .publish .worker _ | .deliver .packetStats _ => True
  | _ => False

/-- `PacketStats` is destroyed when no packet is left in the queue or with the worker. -/
def QuietTeardown (c : Config Runtime Action) : Action → Prop
  | .destroy .packetStats => c.shared.queue = [] ∧ ¬ c.Pending WorkerBusy
  | _ => True

instance : DecidablePred WorkerBusy := fun a => by
  unfold WorkerBusy
  split <;> infer_instance

instance (c : Config Runtime Action) (a : Action) : Decidable (QuietTeardown c a) := by
  unfold QuietTeardown
  split <;> infer_instance

end Runtime

end EdgeNetSwitch
