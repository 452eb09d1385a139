import EdgeNetSwitch.Control.TextReports
import EdgeNetSwitch.Telemetry.TelemetryExportManager
import EdgeNetSwitch.Text.TornLines

/-!
# The telemetry log

`FileTelemetryExporter` of `src/telemetry/FileTelemetryExporter.cpp`, which writes a line for each sample at the end
of `telemetry.log`, and what can be read of the file afterwards. What the stream is given it keeps in its buffer,
and writes to the file when it likes to, in the destructor at the latest; a process that is killed takes the buffer
with it.
-/

namespace EdgeNetSwitch

open Bytes Control

/-- `file` is what has reached the file, after what was in it before, and `buffer` is what the stream has still to
write; `errors` is the number of errors logged. -/
structure FileTelemetryExporter where
  is_open : Bool
  file : Bytes
  buffer : Bytes := []
  errors : ℕ

/-- A write that the system refuses while the stream is given a text: `given` bytes of the text are in the buffer by
then, of which `taken` bytes have reached the file. -/
structure Refusal where
  given : ℕ
  taken : ℕ

/-- A sample as the file shows it, without the line end. -/
def RuntimeMetrics.logText (sample : RuntimeMetrics) : Bytes :=
  entry "uptime_ms" (to_string sample.uptime_ms.toNat) ++
  entry ",tick_count" (to_string sample.tick_count.toNat) ++
  entry ",queue_size" (to_string sample.telemetry_queue_size.toNat) ++
  entry ",dropped" (to_string sample.telemetry_dropped_samples.toNat)

namespace FileTelemetryExporter

/-- The constructor, where the file is opened or not. -/
def new (is_open : Bool) (file : Bytes) : FileTelemetryExporter where
  is_open
  file
  errors := if is_open then 0 else 1

/-- `exportSample`. A stream that has failed takes nothing more, and what was refused stays in its buffer. -/
def exportSample (e : FileTelemetryExporter) (sample : RuntimeMetrics) (refusal : Option Refusal) :
    FileTelemetryExporter :=
  if e.is_open then
    let text := sample.logText ++ newline
    match refusal with
    | none => { e with buffer := e.buffer ++ text }
    | some r =>
      let buffer := e.buffer ++ text.take r.given
      { e with file := e.file ++ buffer.take r.taken, buffer, errors := e.errors + 1 }
  else e

/-- The stream writes `count` bytes, which leave the buffer unless a further one is refused. -/
def write (e : FileTelemetryExporter) (count : ℕ) (refused : Bool) : FileTelemetryExporter :=
  { e with
    file := e.file ++ e.buffer.take count
    buffer := if refused then e.buffer else e.buffer.drop count }

/-- The destructor. -/
def close (e : FileTelemetryExporter) : FileTelemetryExporter :=
  if e.is_open then { e with file := e.file ++ e.buffer, buffer := [] } else e

/-- What the buffer costs a reader when the process is killed: the samples whose line end is in it, and the one that
follows in the next run. -/
def lost (e : FileTelemetryExporter) : ℕ := if e.buffer = [] then 0 else e.buffer.count 0x0A + 1

end FileTelemetryExporter

inductive LogEvent where
  | exportSample (sample : RuntimeMetrics) (refusal : Option Refusal)
  | write (count : ℕ) (refused : Bool)

namespace LogEvent

def apply (e : FileTelemetryExporter) : LogEvent → FileTelemetryExporter
  | exportSample sample refusal => e.exportSample sample refusal
  | write count refused => e.write count refused

def sample? : LogEvent → Option RuntimeMetrics
  | exportSample sample _ => some sample
  | write _ _ => none

/-- The system refuses a write. -/
def refused : LogEvent → Bool
  | exportSample _ refusal => refusal.isSome
  | write _ refused => refused

end LogEvent

/-- An exporter from its constructor on, up to the end of its destructor or until the process is killed. -/
structure LogRun where
  is_open : Bool
  events : List LogEvent
  destroyed : Bool

namespace LogRun

/-- The exporter after the events. -/
def last (run : LogRun) (file : Bytes) : FileTelemetryExporter :=
  run.events.foldl LogEvent.apply (.new run.is_open file)

/-- The exporter at the end. -/
def result (run : LogRun) (file : Bytes) : FileTelemetryExporter :=
  if run.destroyed then (run.last file).close else run.last file

/-- The samples given to an open file. -/
def samples (run : LogRun) : List RuntimeMetrics := if run.is_open then run.events.filterMap LogEvent.sample? else []

/-- No write is refused. -/
def Unrefused (run : LogRun) : Prop := ∀ event ∈ run.events, event.refused = false

/-- The file after these runs, from an empty file on, and what they cost a reader. -/
def log (runs : List LogRun) : Bytes × ℕ :=
  runs.foldl (fun x run => ((run.result x.1).file, x.2 + (run.result x.1).lost)) ([], 0)

end LogRun

/-- The sample in a line of the file. -/
def readSample (line : Bytes) : Option RuntimeMetrics :=
  match line.splitOn 0x2C with
  | [uptime_ms, tick_count, queue_size, dropped] => do
    let uptime_ms ← readNumber "uptime_ms" uptime_ms
    let tick_count ← readNumber "tick_count" tick_count
    let queue_size ← readNumber "queue_size" queue_size
    let dropped ← readNumber "dropped" dropped
    return {
      uptime_ms := uptime_ms.toUInt64
      tick_count := tick_count.toUInt64
      telemetry_queue_size := queue_size.toUInt64
      telemetry_dropped_samples := dropped.toUInt64 }
  | _ => none

/-- The samples in the lines that were ended. -/
def readLog (file : Bytes) : List RuntimeMetrics := (Lines.complete 0x0A file).filterMap readSample

end EdgeNetSwitch
