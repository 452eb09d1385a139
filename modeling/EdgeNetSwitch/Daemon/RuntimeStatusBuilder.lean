import EdgeNetSwitch.Control.ControlContext
import EdgeNetSwitch.Health.HealthMonitor
import EdgeNetSwitch.Telemetry.WindowedEwmaRateSmoother

/-!
# Runtime status

`RuntimeStatusBuilder` of `src/runtime/RuntimeStatusBuilder.cpp` and `SnapshotPublisher` of
`src/runtime/SnapshotPublisher.cpp`, through which the main loop publishes what the control commands read.
-/

namespace EdgeNetSwitch

structure Telemetry where
  start_time_ms : UInt64
  tick_count : UInt64 := 0

namespace Telemetry

def snapshot (t : Telemetry) (now : UInt64) : RuntimeMetrics where
  uptime_ms := now - t.start_time_ms
  tick_count := t.tick_count

end Telemetry

structure RuntimeStatusBuilder where
  rx_packet_rate : WindowedEwmaRateSmoother
  rx_bytes_rate : WindowedEwmaRateSmoother

namespace RuntimeStatusBuilder

def new (cfg : RateSmootherConfig) : RuntimeStatusBuilder where
  rx_packet_rate := .new cfg
  rx_bytes_rate := .new cfg

/-- `raw_metrics` is what `packetStats.snapshotAt(now_ms)` has returned; `telemetry_now` and `health_now` are
what the snapshot of the telemetry and the status of the monitor read from the clock. -/
def build (b : RuntimeStatusBuilder) (telemetry : Telemetry) (healthMonitor : HealthMonitor)
    (raw_metrics : PacketMetrics) (state : RuntimeState) (now_ms telemetry_now health_now : UInt64) :
    RuntimeStatus × RuntimeStatusBuilder :=
  let rx_packet_rate := b.rx_packet_rate.observe raw_metrics.rx_packets now_ms
  let rx_bytes_rate := b.rx_bytes_rate.observe raw_metrics.rx_bytes now_ms
  let packet_rate := rx_packet_rate.snapshot
  let byte_rate := rx_bytes_rate.snapshot
  let final_metrics :=
    if packet_rate.valid then
      { raw_metrics with
        rx_packets_per_sec := packet_rate.smoothed_per_sec
        rx_packets_per_sec_raw := packet_rate.raw_per_sec }
    else { raw_metrics with rx_packets_per_sec := 0, rx_packets_per_sec_raw := 0 }
  let final_metrics :=
    if byte_rate.valid then
      { final_metrics with
        rx_bytes_per_sec := byte_rate.smoothed_per_sec
        rx_bytes_per_sec_raw := byte_rate.raw_per_sec }
    else { final_metrics with rx_bytes_per_sec := 0, rx_bytes_per_sec_raw := 0 }
  ({ metrics := telemetry.snapshot telemetry_now
     health := healthMonitor.currentStatus health_now
     state
     snapshot_timestamp_ms := now_ms
     packet := final_metrics },
    { rx_packet_rate, rx_bytes_rate })

end RuntimeStatusBuilder

structure SnapshotPublisher where
  version : UInt64 := 0
  snapshot : Option RuntimeStatus := none

namespace SnapshotPublisher

def publish (p : SnapshotPublisher) (status : RuntimeStatus) : SnapshotPublisher where
  version := p.version + 1
  snapshot := some { status with snapshot_version := p.version + 1 }

def load (p : SnapshotPublisher) : Option RuntimeStatus := p.snapshot

end SnapshotPublisher

end EdgeNetSwitch
