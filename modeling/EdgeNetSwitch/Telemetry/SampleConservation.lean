import EdgeNetSwitch.Telemetry.TelemetryExportManager
import EdgeNetSwitch.Fifo.DropOldest

/-!
# What becomes of a sample

The purpose of `TelemetryExportManager`, stated over the trace of a run: it is a queue that drops the
oldest sample, and its thread hands every sample it takes to every exporter, in order.
-/

namespace EdgeNetSwitch

open Threads

/-- A sample as it was before `enqueue` stamped it. -/
def RuntimeMetrics.unstamped (sample : RuntimeMetrics) : RuntimeMetrics :=
  { sample with telemetry_queue_size := 0, telemetry_dropped_samples := 0 }

namespace TelemetryExportManager

/-- The samples enqueued, in order. -/
def enqueued (tr : List (TelemetryExportManager × ExportAction)) : List RuntimeMetrics :=
  tr.filterMap fun x =>
    match x.2 with
    | .enqueue sample => some sample.unstamped
    | _ => none

/-- The operations on the queue. -/
def queueOps (tr : List (TelemetryExportManager × ExportAction)) :
    List (DropOldest.Op RuntimeMetrics) :=
  tr.filterMap fun x =>
    match x.2 with
    | .enqueue sample => some (.offer sample.unstamped)
    | .exportLoop => some .poll
    | _ => none

/-- The queue these operations are meant to lead to. -/
def buffer (capacity : UInt64) (tr : List (TelemetryExportManager × ExportAction)) :
    DropOldest.Buffer RuntimeMetrics :=
  DropOldest.run capacity.toNat (queueOps tr)

/-- The sample an action of the export thread has in hand. -/
def inHand : ExportAction → List RuntimeMetrics
  | .exportSample sample _ => [sample]
  | _ => []

/-- The samples the export thread has taken and not yet handed to every exporter. -/
def held (c : Config TelemetryExportManager ExportAction) : List RuntimeMetrics :=
  c.threads.flatMap (List.flatMap inHand)

/-- The samples an exporter has been called with, in order. -/
def callsOf (s : TelemetryExportManager) (i : ℕ) : List RuntimeMetrics :=
  s.calls.filterMap fun x => if x.1 = i then some x.2 else none

/-- A `stop` has taken effect. -/
def Stopped (tr : List (TelemetryExportManager × ExportAction)) : Prop :=
  ∃ s, s.running = true ∧ (s, ExportAction.stop) ∈ tr

/-- The queue drops the oldest sample, and the rest is exported in order. -/
structure ConservesSamples (capacity : UInt64) (exporters : ℕ)
    (tr : List (TelemetryExportManager × ExportAction))
    (c : Config TelemetryExportManager ExportAction) : Prop where
  queue : c.shared.queue.map RuntimeMetrics.unstamped = (buffer capacity tr).queue
  length_le : c.shared.queue.length ≤ capacity.toNat
  /-- What was enqueued is exported, held, queued or dropped. -/
  partition : ((c.shared.exported ++ held c ++ c.shared.queue).map RuntimeMetrics.unstamped ++
    (buffer capacity tr).dropped).Perm (enqueued tr)
  one_held : (held c).length ≤ 1
  order : ((c.shared.exported ++ held c ++ c.shared.queue).map RuntimeMetrics.unstamped).Sublist
    (enqueued tr)
  /-- An exporter is called with the samples exported, and perhaps already with the one held. -/
  exporters : ∀ i < exporters, callsOf c.shared i = c.shared.exported ∨
    callsOf c.shared i = c.shared.exported ++ held c
  dropped_count : c.shared.dropped_count = UInt64.ofNat (buffer capacity tr).dropped.length
  dropped_exact : (buffer capacity tr).dropped.length < 2 ^ 64 →
    c.shared.dropped_count.toNat = (buffer capacity tr).dropped.length ∧
    (c.shared.queue.map RuntimeMetrics.telemetry_dropped_samples).Pairwise (· ≤ ·)
  /-- A sample is dropped on arrival when the capacity is 0, and otherwise when it is the oldest of a
  full queue to which another one is added. -/
  drops : ∀ a d, Step program c a d →
    (buffer capacity (tr ++ [(c.shared, a)])).dropped = (buffer capacity tr).dropped ∨
    ∃ sample, a = .enqueue sample ∧
      ((capacity = 0 ∧ (buffer capacity (tr ++ [(c.shared, a)])).dropped =
        (buffer capacity tr).dropped ++ [sample.unstamped]) ∨
      ∃ oldest rest, c.shared.queue = oldest :: rest ∧ c.shared.queue.length = capacity.toNat ∧
        (buffer capacity (tr ++ [(c.shared, a)])).dropped =
          (buffer capacity tr).dropped ++ [oldest.unstamped])
  queue_size : ∀ sample ∈ c.shared.queue, 1 ≤ sample.telemetry_queue_size.toNat ∧
    sample.telemetry_queue_size.toNat ≤ capacity.toNat
  /-- After the exit of the thread only samples enqueued after a `stop` are queued. -/
  exited : c.shared.export_thread = .exited ∨ c.shared.export_thread = .joined →
    ∃ tr₁ tr₂, tr = tr₁ ++ tr₂ ∧ Stopped tr₁ ∧
      c.shared.queue.map RuntimeMetrics.unstamped <:+ enqueued tr₂

end TelemetryExportManager

end EdgeNetSwitch
