import EdgeNetSwitch.Daemon.MainLoop
import EdgeNetSwitch.Telemetry.SampleConservation
import EdgeNetSwitch.Telemetry.TelemetryLog

/-!
# The ticks in the telemetry log

`main` starts the export manager, enqueues the sample of every tick in its loop and stops the manager after the
loop; the export thread hands the samples to the three exporters, of which the last one writes the telemetry log.
What is read of this file afterwards is stated in terms of the ticks.
-/

namespace EdgeNetSwitch

open Threads

namespace TelemetryExportManager

/-- The exporters of the daemon enqueue nothing themselves; they throw, or they do not. -/
def daemonProgram : Program TelemetryExportManager ExportAction Bool where
  exec a thrown := exec a { thrown }

/-- What `main` calls, for these samples. -/
def mainCalls (samples : List RuntimeMetrics) : List ExportAction :=
  .start :: samples.map .enqueue ++ [.stop]

/-- The manager of the daemon, before `main` calls it. -/
def daemon (samples : List RuntimeMetrics) : Config TelemetryExportManager ExportAction :=
  initial 512 3 [mainCalls samples]

/-- The place of the `FileTelemetryExporter` among the exporters. -/
def fileExporter : ℕ := 2

end TelemetryExportManager

/-- The counts of `n` ticks. -/
def tickCounts (n : ℕ) : List UInt64 := (List.range n).map fun k => UInt64.ofNat (k + 1)

/-- The log of `ticks` ticks, when the manager is in the state `s` and `lost` samples have been lost with the buffer
of the stream. -/
structure LogsTicks (ticks : ℕ) (s : TelemetryExportManager) (lost : ℕ) (log : List RuntimeMetrics) : Prop where
  sublist : (log.map RuntimeMetrics.tick_count).Sublist (tickCounts ticks)
  ascending : ticks < 2 ^ 64 → (log.map RuntimeMetrics.tick_count).Pairwise (· < ·)
  /-- When `stop` has returned, every tick is in the log or counted as dropped, but for those lost. -/
  complete : s.export_thread = .joined → ticks < 2 ^ 64 →
    log.length + s.dropped_count.toNat ≤ ticks ∧ ticks ≤ log.length + s.dropped_count.toNat + lost

end EdgeNetSwitch
