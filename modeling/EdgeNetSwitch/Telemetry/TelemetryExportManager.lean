import EdgeNetSwitch.Threads.Program
import Mathlib.Data.UInt

/-!
# The telemetry export queue

`TelemetryExportManager` of `src/telemetry/TelemetryExportManager.cpp`: callers enqueue samples, and a
thread of its own hands them to the exporters. `wait` may return at any time, so the export thread goes on
whenever its predicate is true, and the notifications have no part here (`QueueState` has them).
`exportLoop` loads `running_` in the predicate and once more after it; the two loads are one here, since
only `start` could come between them, and a `stop` by the same thread has not returned then.

`calls` and `exported` only record what happened.
-/

namespace EdgeNetSwitch

open Threads

/-- `RuntimeMetrics`, which is also a `TelemetrySample`. -/
structure RuntimeMetrics where
  uptime_ms : UInt64 := 0
  tick_count : UInt64 := 0
  telemetry_queue_size : UInt64 := 0
  telemetry_dropped_samples : UInt64 := 0
  deriving DecidableEq

/-- What `export_thread_` stands for: no thread yet, one that has yet to begin, one in `exportLoop`, one
that has returned from it, or one that has been joined. -/
inductive ExportThread where
  | absent
  | created
  | alive
  | exited
  | joined
  deriving DecidableEq

/-- `exporters` is the number of exporters added, `errors` that of the errors logged. -/
structure TelemetryExportManager where
  capacity : UInt64 := 512
  exporters : ℕ := 0
  queue : List RuntimeMetrics := []
  dropped_count : UInt64 := 0
  running : Bool := false
  export_thread : ExportThread := .absent
  errors : ℕ := 0
  calls : List (ℕ × RuntimeMetrics) := []
  exported : List RuntimeMetrics := []

/-- What comes from outside: whether an exporter throws, and the samples it enqueues itself. -/
structure ExporterReply where
  thrown : Bool := false
  enqueued : List RuntimeMetrics := []

inductive ExportAction where
  | enqueue (sample : RuntimeMetrics)
  /-- `start`: the `compare_exchange`. -/
  | start
  /-- `start`: a new thread is assigned to `export_thread_`. -/
  | spawn
  /-- `stop`: the `compare_exchange`. -/
  | stop
  /-- `stop`: join the thread if it is joinable. -/
  | join
  /-- The export thread begins. -/
  | exportThread
  /-- `exportLoop`: wait, and take a sample or return. -/
  | exportLoop
  /-- `exportSample`, with the exporters that have yet to be called. -/
  | exportSample (sample : RuntimeMetrics) (todo : List ℕ)
  deriving DecidableEq

namespace TelemetryExportManager

/-- The part of `enqueue` under the mutex. -/
def enqueue (s : TelemetryExportManager) (sample : RuntimeMetrics) : TelemetryExportManager :=
  if s.capacity = 0 then { s with dropped_count := s.dropped_count + 1 }
  else
    let s :=
      if s.queue.length ≥ s.capacity.toNat then
        { s with queue := s.queue.tail, dropped_count := s.dropped_count + 1 }
      else s
    { s with
      queue := s.queue ++ [{ sample with
        telemetry_queue_size := UInt64.ofNat (s.queue.length + 1)
        telemetry_dropped_samples := s.dropped_count }] }

def exec : ExportAction → ExporterReply → TelemetryExportManager →
    Option (TelemetryExportManager × List ExportAction)
  | .enqueue sample, _, s => some (s.enqueue sample, [])
  | .start, _, s => if s.running then some (s, []) else some ({ s with running := true }, [.spawn])
  | .spawn, _, s =>
    -- an assignment to a joinable thread ends the process
    if s.export_thread = .absent ∨ s.export_thread = .joined then
      some ({ s with export_thread := .created }, [])
    else none
  | .stop, _, s => if s.running then some ({ s with running := false }, [.join]) else some (s, [])
  | .join, _, s =>
    match s.export_thread with
    | .absent | .joined => some (s, [])
    | .exited => some ({ s with export_thread := .joined }, [])
    | .created | .alive => none
  | .exportThread, _, s =>
    if s.export_thread = .created then some ({ s with export_thread := .alive }, [.exportLoop])
    else none
  | .exportLoop, _, s =>
    match s.queue with
    | sample :: queue =>
      some ({ s with queue }, [.exportSample sample (List.range s.exporters), .exportLoop])
    | [] =>
      if s.running then none else some ({ s with export_thread := .exited }, [.exportThread])
  | .exportSample sample [], _, s => some ({ s with exported := s.exported ++ [sample] }, [])
  | .exportSample sample (i :: todo), w, s =>
    some ({ s with
      calls := s.calls ++ [(i, sample)]
      errors := if w.thrown then s.errors + 1 else s.errors },
      w.enqueued.map .enqueue ++ [.exportSample sample todo])

def program : Program TelemetryExportManager ExportAction ExporterReply where
  exec := exec

/-- A new manager; thread 0 is the one `start` will begin, and `callers` are the others. -/
def initial (capacity : UInt64) (exporters : ℕ) (callers : List (List ExportAction)) :
    Config TelemetryExportManager ExportAction :=
  ⟨{ capacity, exporters }, [.exportThread] :: callers⟩

/-- What the thread that owns the manager calls. -/
def IsCall : ExportAction → Prop
  | .enqueue _ | .start | .stop => True
  | _ => False

end TelemetryExportManager

end EdgeNetSwitch
