import EdgeNetSwitch.Control.Proofs.TextReportsProofs
import EdgeNetSwitch.Telemetry.TelemetryLog

/-!
# Proofs: the telemetry log

The mark of a line is the letter `u` (0x75), with which every line begins: there are four of them in the keys and
none in the numbers.
-/

namespace EdgeNetSwitch

open Bytes Control

variable {sample : RuntimeMetrics} {line file : Bytes} {e e' : FileTelemetryExporter} {run : LogRun}

/-! ## A line -/

theorem comma_not_mem_entry {key : String} (h : (0x2C : UInt8) ∉ bytesOf key) (n : ℕ) :
    (0x2C : UInt8) ∉ entry key (to_string n) := by
  rw [entry_eq, List.mem_append, List.mem_cons]
  rintro (hkey | heq | hvalue)
  · exact h hkey
  · exact absurd heq (by decide)
  · exact not_mem_to_string (by decide) n hvalue

/-- The numbers of a sample under their keys. -/
def RuntimeMetrics.logParts (sample : RuntimeMetrics) : List Bytes := [
  entry "uptime_ms" (to_string sample.uptime_ms.toNat),
  entry "tick_count" (to_string sample.tick_count.toNat),
  entry "queue_size" (to_string sample.telemetry_queue_size.toNat),
  entry "dropped" (to_string sample.telemetry_dropped_samples.toNat)]

theorem RuntimeMetrics.logText_eq (sample : RuntimeMetrics) :
    sample.logText = List.intercalate [0x2C] sample.logParts := by
  have htick : bytesOf ",tick_count" = 0x2C :: bytesOf "tick_count" := by decide
  have hsize : bytesOf ",queue_size" = 0x2C :: bytesOf "queue_size" := by decide
  have hdropped : bytesOf ",dropped" = 0x2C :: bytesOf "dropped" := by decide
  simp [logText, logParts, entry, htick, hsize, hdropped]

theorem splitOn_logText (sample : RuntimeMetrics) : sample.logText.splitOn 0x2C = sample.logParts := by
  rw [sample.logText_eq]
  apply List.splitOn_intercalate
  · simp only [RuntimeMetrics.logParts, List.forall_mem_cons]
    exact ⟨comma_not_mem_entry (by decide) _, comma_not_mem_entry (by decide) _, comma_not_mem_entry (by decide) _,
      comma_not_mem_entry (by decide) _, List.forall_mem_nil _⟩
  · exact List.cons_ne_nil _ _

theorem readSample_logText (sample : RuntimeMetrics) : readSample sample.logText = some sample := by
  have huptime : readNumber "uptime_ms" (entry "uptime_ms" (to_string sample.uptime_ms.toNat)) =
      some sample.uptime_ms.toNat := readNumber_entry (by decide) (by decide) _
  have htick : readNumber "tick_count" (entry "tick_count" (to_string sample.tick_count.toNat)) =
      some sample.tick_count.toNat := readNumber_entry (by decide) (by decide) _
  have hsize : readNumber "queue_size" (entry "queue_size" (to_string sample.telemetry_queue_size.toNat)) =
      some sample.telemetry_queue_size.toNat := readNumber_entry (by decide) (by decide) _
  have hdropped : readNumber "dropped" (entry "dropped" (to_string sample.telemetry_dropped_samples.toNat)) =
      some sample.telemetry_dropped_samples.toNat := readNumber_entry (by decide) (by decide) _
  have hback : ∀ n : UInt64, n.toNat.toUInt64 = n := fun n => UInt64.ofNat_toNat
  unfold readSample
  rw [splitOn_logText]
  simp only [RuntimeMetrics.logParts, huptime, htick, hsize, hdropped, Option.bind_eq_bind, Option.bind_some, hback]
  rfl

theorem newline_not_mem_logText (sample : RuntimeMetrics) : (0x0A : UInt8) ∉ sample.logText := by
  simp only [RuntimeMetrics.logText, List.mem_append, not_or]
  exact ⟨⟨⟨newline_not_mem_entry (by decide) _, newline_not_mem_entry (by decide) _⟩,
    newline_not_mem_entry (by decide) _⟩, newline_not_mem_entry (by decide) _⟩

/-! ## The mark -/

theorem count_digits {digits : Bytes} (h : digits.all isdigit = true) : digits.count 0x75 = 0 := by
  rw [List.count_eq_zero]
  intro hmem
  exact absurd (List.all_eq_true.1 h _ hmem) (by decide)

/-- The letters `u` in a number under its key are those of the key. -/
theorem count_readNumber {key : String} {text : Bytes} {n : ℕ} (h : readNumber key text = some n) :
    text.count 0x75 = (bytesOf key).count 0x75 := by
  obtain ⟨digits, hdigits, rfl⟩ := readNumber_eq_some h
  rw [List.count_append, List.count_cons_of_ne (by decide), count_digits hdigits, Nat.add_zero]

theorem count_readSample (h : readSample line = some sample) : line.count 0x75 = 4 := by
  unfold readSample at h
  split at h
  · rename_i u t q d hsplit
    simp only [Option.bind_eq_bind, Option.bind_eq_some_iff] at h
    obtain ⟨_, hu, _, ht, _, hq, _, hd, -⟩ := h
    have hline : line = u ++ 0x2C :: (t ++ 0x2C :: (q ++ 0x2C :: d)) := by
      have hback : List.intercalate [0x2C] (line.splitOn 0x2C) = line := List.intercalate_splitOn 0x2C
      rw [hsplit] at hback
      rw [← hback]
      simp
    have hkeys : (bytesOf "uptime_ms").count 0x75 = 1 ∧ (bytesOf "tick_count").count 0x75 = 1 ∧
        (bytesOf "queue_size").count 0x75 = 2 ∧ (bytesOf "dropped").count 0x75 = 0 := by decide
    have hcomma : (0x2C : UInt8) ≠ 0x75 := by decide
    rw [hline, List.count_append, List.count_cons_of_ne hcomma, List.count_append, List.count_cons_of_ne hcomma,
      List.count_append, List.count_cons_of_ne hcomma, count_readNumber hu, count_readNumber ht, count_readNumber hq,
      count_readNumber hd, hkeys.1, hkeys.2.1, hkeys.2.2.1, hkeys.2.2.2]
  · cases h

theorem marked_logText : Lines.Marked 0x0A 0x75 4 RuntimeMetrics.logText readSample where
  line := newline_not_mem_logText
  read_render := readSample_logText
  head _ := rfl
  count _ _ := count_readSample

/-! ## The file -/

namespace FileTelemetryExporter

@[simp] theorem is_open_apply (e : FileTelemetryExporter) (event : LogEvent) :
    (LogEvent.apply e event).is_open = e.is_open := by
  cases event with
  | exportSample sample refusal =>
    rw [LogEvent.apply, exportSample]
    split_ifs
    · cases refusal <;> rfl
    · rfl
  | write count refused => rfl

theorem is_open_foldl (e : FileTelemetryExporter) (events : List LogEvent) :
    (events.foldl LogEvent.apply e).is_open = e.is_open := by
  induction events generalizing e with
  | nil => rfl
  | cons event events ih => rw [List.foldl_cons, ih, is_open_apply]

/-- The lines of some samples have been given to the stream: some bytes have reached the file, and the others are in
the buffer. -/
def Given (e e' : FileTelemetryExporter) (samples : List RuntimeMetrics) : Prop :=
  ∃ written, e'.file = e.file ++ written ∧
    written ++ e'.buffer = e.buffer ++ Lines.text 0x0A RuntimeMetrics.logText samples

theorem Given.trans {e'' : FileTelemetryExporter} {samples samples' : List RuntimeMetrics} (h : Given e e' samples)
    (h' : Given e' e'' samples') : Given e e'' (samples ++ samples') := by
  obtain ⟨written, hfile, htext⟩ := h
  obtain ⟨written', hfile', htext'⟩ := h'
  refine ⟨written ++ written', by rw [hfile', hfile, List.append_assoc], ?_⟩
  rw [List.append_assoc, htext', ← List.append_assoc, htext, List.append_assoc, Lines.text_append]

theorem given_exportSample (h : e.is_open = true) (sample : RuntimeMetrics) :
    Given e (e.exportSample sample none) [sample] := by
  have hnewline : newline = [0x0A] := by decide
  rw [exportSample, if_pos h, hnewline]
  refine ⟨[], (List.append_nil e.file).symm, ?_⟩
  rw [Lines.text_cons]
  exact congrArg (e.buffer ++ ·) (List.append_nil _).symm

theorem given_write (e : FileTelemetryExporter) (count : ℕ) : Given e (e.write count false) [] := by
  refine ⟨e.buffer.take count, rfl, ?_⟩
  show e.buffer.take count ++ e.buffer.drop count = e.buffer ++ []
  rw [List.take_append_drop, List.append_nil]

theorem given_close (h : e.is_open = true) : Given e e.close [] := by
  rw [close, if_pos h]
  exact ⟨e.buffer, rfl, rfl⟩

theorem given_foldl (h : e.is_open = true) (events : List LogEvent)
    (hevents : ∀ event ∈ events, event.refused = false) :
    Given e (events.foldl LogEvent.apply e) (events.filterMap LogEvent.sample?) := by
  induction events generalizing e with
  | nil => exact ⟨[], (List.append_nil e.file).symm, (List.append_nil e.buffer).symm⟩
  | cons event events ih =>
    obtain ⟨hevent, hrest⟩ := List.forall_mem_cons.1 hevents
    have hopen : (LogEvent.apply e event).is_open = true := by rw [is_open_apply, h]
    have hgiven := ih hopen hrest
    rw [List.foldl_cons]
    cases event with
    | exportSample sample refusal =>
      obtain rfl : refusal = none := Option.not_isSome_iff_eq_none.1 (Bool.eq_false_iff.1 hevent)
      exact (given_exportSample h sample).trans hgiven
    | write count refused =>
      obtain rfl : refused = false := hevent
      exact (given_write e count).trans hgiven

/-- An exporter without a file does nothing. -/
theorem foldl_closed (h : e.is_open = false) (hbuffer : e.buffer = []) (events : List LogEvent) :
    (events.foldl LogEvent.apply e).file = e.file ∧ (events.foldl LogEvent.apply e).buffer = [] := by
  induction events generalizing e with
  | nil => exact ⟨rfl, hbuffer⟩
  | cons event events ih =>
    have hsame : (LogEvent.apply e event).file = e.file ∧ (LogEvent.apply e event).buffer = [] := by
      cases event with
      | exportSample sample refusal =>
        rw [LogEvent.apply, exportSample, h]
        exact ⟨rfl, hbuffer⟩
      | write count refused => simp [LogEvent.apply, write, hbuffer]
    rw [List.foldl_cons, ← hsame.1]
    exact ih (by rw [is_open_apply, h]) hsame.2

end FileTelemetryExporter

namespace LogRun

theorem is_open_last (run : LogRun) (file : Bytes) : (run.last file).is_open = run.is_open :=
  FileTelemetryExporter.is_open_foldl _ run.events

/-- What reaches the file is the first part of the lines of the run, and the rest is left in the buffer. -/
theorem exists_written (h : run.Unrefused) (file : Bytes) : ∃ written, (run.result file).file = file ++ written ∧
    written ++ (run.result file).buffer = Lines.text 0x0A RuntimeMetrics.logText run.samples := by
  unfold result samples
  by_cases hopen : run.is_open = true
  · have hgiven : FileTelemetryExporter.Given (.new run.is_open file) (run.last file)
        (run.events.filterMap LogEvent.sample?) := FileTelemetryExporter.given_foldl hopen run.events h
    rw [if_pos hopen]
    split_ifs
    · have hclose := hgiven.trans (FileTelemetryExporter.given_close ((is_open_last run file).trans hopen))
      rw [List.append_nil] at hclose
      exact hclose
    · exact hgiven
  · have hnew : (FileTelemetryExporter.new run.is_open file).is_open = false := Bool.eq_false_iff.2 hopen
    obtain ⟨hfile, hbuffer⟩ := FileTelemetryExporter.foldl_closed hnew rfl run.events
    have hsame : (run.last file).close = run.last file := by
      rw [FileTelemetryExporter.close, is_open_last, if_neg hopen]
    rw [hsame, ite_self, if_neg hopen]
    exact ⟨[], hfile.trans (List.append_nil file).symm, hbuffer⟩

/-- The file holds so much of the lines of the run. -/
theorem exists_records (h : run.Unrefused) (file : Bytes) : ∃ records : List (RuntimeMetrics × ℕ),
    (run.result file).file = file ++ Lines.writes 0x0A RuntimeMetrics.logText records ∧
    records.map Prod.fst = run.samples ∧ Lines.lost RuntimeMetrics.logText records ≤ (run.result file).lost := by
  obtain ⟨written, hfile, htext⟩ := exists_written h file
  refine ⟨Lines.clip RuntimeMetrics.logText run.samples written.length, ?_, Lines.map_clip _ _, ?_⟩
  · rw [hfile, Lines.writes_clip, ← htext, List.take_left]
  · have hlost := Lines.lost_clip_le newline_not_mem_logText run.samples written.length
    rw [← htext, List.drop_left] at hlost
    exact hlost

/-- The file holds so much of the lines of all runs. -/
theorem log_records (runs : List LogRun) (h : ∀ run ∈ runs, run.Unrefused) :
    ∃ records : List (RuntimeMetrics × ℕ), (log runs).1 = Lines.writes 0x0A RuntimeMetrics.logText records ∧
      records.map Prod.fst = runs.flatMap samples ∧ Lines.lost RuntimeMetrics.logText records ≤ (log runs).2 := by
  induction runs using List.reverseRecOn with
  | nil => exact ⟨[], rfl, rfl, Nat.le_refl 0⟩
  | append_singleton runs run ih =>
    rw [List.forall_mem_append, List.forall_mem_singleton] at h
    obtain ⟨records, hfile, hsamples, hlost⟩ := ih h.1
    obtain ⟨records', hfile', hsamples', hlost'⟩ := exists_records h.2 (log runs).1
    have hlog : log (runs ++ [run]) =
        ((run.result (log runs).1).file, (log runs).2 + (run.result (log runs).1).lost) := by
      rw [log, List.foldl_append]
      rfl
    rw [hlog]
    refine ⟨records ++ records', ?_, ?_, ?_⟩
    · rw [hfile', hfile, Lines.writes_append]
    · rw [List.map_append, hsamples, hsamples', List.flatMap_append, List.flatMap_singleton]
    · rw [Lines.lost_append]
      exact Nat.add_le_add hlost hlost'

theorem readsBack_of_unrefused (runs : List LogRun) (h : ∀ run ∈ runs, run.Unrefused) :
    Lines.ReadsBack (readLog (log runs).1) (runs.flatMap samples) (log runs).2 := by
  obtain ⟨records, hfile, hsamples, hlost⟩ := log_records runs h
  have hback := marked_logText.readsBack records
  rw [hsamples, ← hfile] at hback
  exact hback.mono hlost

/-- The destructor leaves nothing in the buffer. -/
theorem lost_of_destroyed (hopen : run.is_open = true) (hdestroyed : run.destroyed = true) (file : Bytes) :
    (run.result file).lost = 0 := by
  rw [result, if_pos hdestroyed, FileTelemetryExporter.close, is_open_last, if_pos hopen]
  rfl

/-- Wherever the runs are killed, the log has no sample that was not exported, and those that are missing were in
the buffer of a run that was killed, or were the first of the next run. A run that is not killed costs nothing. -/
theorem log_reads_back (runs : List LogRun) (h : ∀ run ∈ runs, run.Unrefused) :
    Lines.ReadsBack (readLog (log runs).1) (runs.flatMap samples) (log runs).2 ∧
      ∀ run ∈ runs, run.is_open = true → run.destroyed = true → ∀ file, (run.result file).lost = 0 :=
  ⟨readsBack_of_unrefused runs h, fun _ _ hopen hdestroyed => lost_of_destroyed hopen hdestroyed⟩

/-- The first run is killed with one sample in the file, a part of the next one after it, and the third in the
buffer; the second run ends. -/
def killedRuns : List LogRun := [
  ⟨true, [.exportSample ⟨100, 1, 1, 0⟩ none, .exportSample ⟨200, 2, 1, 0⟩ none, .write 60 false,
    .exportSample ⟨300, 3, 1, 0⟩ none], false⟩,
  ⟨true, [.exportSample ⟨50, 1, 1, 0⟩ none, .exportSample ⟨150, 2, 1, 0⟩ none], true⟩]

theorem log_reads_back_killed :
    readLog (log killedRuns).1 = [⟨100, 1, 1, 0⟩, ⟨150, 2, 1, 0⟩] ∧ (log killedRuns).2 = 3 ∧
      Lines.ReadsBack (readLog (log killedRuns).1) (killedRuns.flatMap samples) (log killedRuns).2 ∧
      ∀ run ∈ killedRuns, run.is_open = true → run.destroyed = true → ∀ file, (run.result file).lost = 0 := by
  refine ⟨by decide +kernel, by decide +kernel, log_reads_back killedRuns ?_⟩
  intro run hrun event hevent
  revert run event
  decide

/-- After a write that was refused, what had reached the file is written again: a sample may be read that was never
exported. -/
theorem refused_write_corrupts :
    let run : LogRun := ⟨true, [.exportSample ⟨1234, 5, 1, 0⟩ none, .write 12 false,
      .exportSample ⟨1334, 6, 1, 0⟩ (some ⟨0, 1⟩)], true⟩
    ⟨12334, 5, 1, 0⟩ ∈ readLog (log [run]).1 ∧ ⟨12334, 5, 1, 0⟩ ∉ run.samples := by
  decide +kernel

end LogRun

end EdgeNetSwitch
