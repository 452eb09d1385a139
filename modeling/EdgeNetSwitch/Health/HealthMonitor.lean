import EdgeNetSwitch.Messaging.Message

/-!
# The health monitor

`HealthMonitor` of `src/runtime/HealthMonitor.cpp`. Each function is given what its `nowMs()` reads.
-/

namespace EdgeNetSwitch

structure HealthSnapshot where
  alive : Bool
  timeout_ms : UInt64

/-- Of the bus, what the monitor has published, oldest first. -/
structure HealthMonitor where
  bus : List Message := []
  timeout_ms : UInt64
  last_heartbeat_ms : UInt64
  start_time_ms : UInt64
  last_alive_state : Option Bool := none

namespace HealthMonitor

/-- The constructor reads the clock for each of the two times. -/
def new (timeout_ms first second : UInt64) : HealthMonitor where
  timeout_ms
  last_heartbeat_ms := first
  start_time_ms := second

def onHeartbeat (m : HealthMonitor) (now : UInt64) : HealthMonitor := { m with last_heartbeat_ms := now }

def onTick (m : HealthMonitor) (now : UInt64) : HealthMonitor :=
  let current_alive := decide (now - m.last_heartbeat_ms ≤ m.timeout_ms)
  if m.last_alive_state = none ∨ m.last_alive_state ≠ some current_alive then
    let status : HealthStatus := {
      uptime_ms := now - m.start_time_ms
      last_heartbeat_ms := m.last_heartbeat_ms
      silence_duration_ms := 0
      is_alive := current_alive }
    let msg : Message := {
      type := .healthStatus
      timestamp_ms := status.last_heartbeat_ms
      payload := .healthStatus status }
    { m with bus := m.bus ++ [msg], last_alive_state := some current_alive }
  else m

def snapshot (m : HealthMonitor) (now : UInt64) : HealthSnapshot where
  alive := decide (now - m.last_heartbeat_ms ≤ m.timeout_ms)
  timeout_ms := m.timeout_ms

/-- `HealthStatus status{}` leaves the duration of the silence 0. -/
def currentStatus (m : HealthMonitor) (now : UInt64) : HealthStatus where
  uptime_ms := now - m.start_time_ms
  last_heartbeat_ms := m.last_heartbeat_ms
  silence_duration_ms := 0
  is_alive := decide (now - m.last_heartbeat_ms ≤ m.timeout_ms)

end HealthMonitor

end EdgeNetSwitch
