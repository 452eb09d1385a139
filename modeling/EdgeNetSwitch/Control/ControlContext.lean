import EdgeNetSwitch.Packet.PacketStats
import EdgeNetSwitch.Switching.SwitchForwardingEngine
import EdgeNetSwitch.System.FileDescriptor
import EdgeNetSwitch.Telemetry.TelemetryExportManager
import EdgeNetSwitch.Transport.TransportManager
import Mathlib.Data.Rat.Defs

/-!
# What a control command reads

The configuration of `include/edgenetswitch/core/Config.hpp`, the snapshot of `runtime/RuntimeStatus.hpp`,
and the `ControlContext` of `control/ControlContext.hpp`.
-/

namespace EdgeNetSwitch

namespace Core

structure LogConfig where
  level : Bytes := []
  file : Bytes := []

structure DaemonConfig where
  tick_ms : UInt32 := 100

structure UdpConfig where
  enabled : Bool := false
  port : ℤ := 9000

/-- A finite `double` is the rational number it stands for; the default is the `double` 0.2. -/
structure RateConfig where
  alpha : ℚ := 3602879701896397 / 2 ^ 54
  window_ms : UInt64 := 1000

structure Config where
  log : LogConfig := {}
  daemon : DaemonConfig := {}
  udp : UdpConfig := {}
  rate : RateConfig := {}

end Core

inductive RuntimeState where
  | booting
  | running
  | stopping
  deriving DecidableEq

def stateToString : RuntimeState → Bytes
  | .booting => bytesOf "BOOTING"
  | .running => bytesOf "RUNNING"
  | .stopping => bytesOf "STOPPING"

structure RuntimeStatus where
  metrics : RuntimeMetrics
  health : HealthStatus
  state : RuntimeState
  snapshot_timestamp_ms : UInt64 := 0
  snapshot_version : UInt64 := 0
  packet : PacketMetrics

namespace Control

/-- An order in which an `unordered_map` with keys in `α` may iterate. -/
structure IterationOrder (α : Type*) where
  items : List α
  nodup : items.Nodup
  complete : ∀ a, a ∈ items

/-- The order of the declaration. -/
def declared : IterationOrder PacketDropReason where
  items := [.parseError, .validationError, .queueOverflow, .simulatedLoss, .rateLimited,
    .processingError, .internalError, .unknown]
  nodup := by decide
  complete r := by cases r <;> decide

/-- A missing part is `none`. For the parts that are only read, it holds what the command would read: what
the publisher has loaded, with the order in which its `drops_by_reason` iterates, the snapshot of the
registry, the counters of the transport manager. -/
structure ControlContext where
  publisher : Option (Option RuntimeStatus) := none
  drop_order : IterationOrder PacketDropReason := declared
  config : Option Core.Config := none
  bus : Bool := false
  forwarding_engine : Option SwitchForwardingEngine := none
  fd_registry : Option (List FdRecord) := none
  transport_manager : Option TransportCounters := none

/-- `loadSnapshot`. -/
def loadSnapshot (ctx : ControlContext) : Option RuntimeStatus := ctx.publisher.join

end Control

end EdgeNetSwitch
