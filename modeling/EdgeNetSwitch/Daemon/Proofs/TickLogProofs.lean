import EdgeNetSwitch.Daemon.Proofs.MainLoopProofs
import EdgeNetSwitch.Daemon.TickLog
import EdgeNetSwitch.Telemetry.Proofs.TelemetryExportManagerProofs
import EdgeNetSwitch.Telemetry.Proofs.TelemetryLogProofs

/-!
# Proofs: the ticks in the telemetry log

Only `main` enqueues, in its own order, and it has nothing left to enqueue when it stops the manager (`MainAt`).
-/

namespace EdgeNetSwitch

open Threads

namespace TelemetryExportManager

variable {s s' : TelemetryExportManager} {a : ExportAction} {k : List ExportAction} {thrown : Bool}
  {samples : List RuntimeMetrics} {tr : List (TelemetryExportManager × ExportAction)}
  {c d : Config TelemetryExportManager ExportAction}

/-! ## The manager of the daemon -/

theorem step_of_daemon (h : Step daemonProgram c a d) : Step program c a d := by
  cases h with
  | run pre post h => exact .run pre post h

theorem trace_of_daemon {c₀ : Config TelemetryExportManager ExportAction} (h : Trace daemonProgram c₀ tr c) :
    Trace program c₀ tr c := by
  induction h with
  | refl => exact .refl _
  | tail _ hs ih => exact ih.tail (step_of_daemon hs)

/-- The actions of the export thread. -/
def OfExporter : ExportAction → Prop
  | .exportThread | .exportLoop | .exportSample _ _ => True
  | _ => False

/-- The export thread stays with its actions. -/
theorem exec_ofExporter (ha : OfExporter a) (h : exec a { thrown } s = some (s', k)) : ∀ b ∈ k, OfExporter b := by
  cases a with
  | exportThread =>
    simp only [exec] at h
    split_ifs at h
    cases h
    simp [OfExporter]
  | exportLoop =>
    simp only [exec] at h
    split at h
    · cases h
      simp [OfExporter]
    · split_ifs at h
      cases h
      simp [OfExporter]
  | exportSample x todo =>
    cases todo with
    | nil =>
      cases h
      simp
    | cons i todo =>
      cases h
      simp [OfExporter]
  | enqueue | start | spawn | stop | join => exact ha.elim

/-- What `main` has left to call, with `todo` still to enqueue. -/
inductive MainStack (stopped : Prop) : List ExportAction → List RuntimeMetrics → Prop where
  | before (first : List ExportAction) (hfirst : first = [] ∨ first = [.start] ∨ first = [.spawn])
    (todo : List RuntimeMetrics) (h : ¬ stopped) : MainStack stopped (first ++ (todo.map .enqueue ++ [.stop])) todo
  | joining : MainStack stopped [.join] []
  | done : MainStack stopped [] []

/-- Where `main` is, and what it has enqueued. -/
structure MainAt (samples : List RuntimeMetrics) (tr : List (TelemetryExportManager × ExportAction))
    (c : Config TelemetryExportManager ExportAction) : Prop where
  threads : ∃ exporter main todo, c.threads = [exporter, main] ∧ (∀ b ∈ exporter, OfExporter b) ∧
    MainStack (Stopped tr) main todo ∧
    enqueued tr ++ todo.map RuntimeMetrics.unstamped = samples.map RuntimeMetrics.unstamped

theorem enqueued_of_ne (ha : ∀ x, a ≠ .enqueue x) : enqueued (tr ++ [(s, a)]) = enqueued tr := by
  rw [enqueued_append]
  cases a with
  | enqueue x => exact absurd rfl (ha x)
  | start | spawn | stop | join | exportThread | exportLoop | exportSample => exact List.append_nil _

theorem stopped_of_ne (ha : a ≠ .stop) : Stopped (tr ++ [(s, a)]) ↔ Stopped tr := by
  constructor
  · rintro ⟨s', hs', hmem⟩
    rcases List.mem_append.1 hmem with hmem | hmem
    · exact ⟨s', hs', hmem⟩
    · rw [List.mem_singleton, Prod.mk.injEq] at hmem
      exact absurd hmem.2.symm ha
  · exact Stopped.append

/-- `main` does what comes next. -/
theorem MainStack.exec {rest : List ExportAction} {todo : List RuntimeMetrics}
    (hstack : MainStack (Stopped tr) (a :: rest) todo) (h : exec a { thrown } s = some (s', k)) :
    ∃ todo', MainStack (Stopped (tr ++ [(s, a)])) (k ++ rest) todo' ∧
      enqueued (tr ++ [(s, a)]) ++ todo'.map RuntimeMetrics.unstamped =
        enqueued tr ++ todo.map RuntimeMetrics.unstamped := by
  generalize ht : a :: rest = t at hstack
  cases hstack with
  | before first hfirst todo hnot =>
    rcases hfirst with rfl | rfl | rfl
    · cases todo with
      | nil =>
        obtain ⟨rfl, rfl⟩ := List.cons.inj ht
        refine ⟨[], ?_, by rw [enqueued_of_ne (by simp)]⟩
        simp only [TelemetryExportManager.exec] at h
        split_ifs at h
        · cases h
          exact .joining
        · cases h
          exact .done
      | cons x todo =>
        obtain ⟨rfl, rfl⟩ := List.cons.inj ht
        cases h
        refine ⟨todo, .before [] (.inl rfl) todo ?_, ?_⟩
        · rw [stopped_of_ne (by simp)]
          exact hnot
        · rw [enqueued_append, List.append_assoc]
          rfl
    · obtain ⟨rfl, rfl⟩ := List.cons.inj ht
      refine ⟨todo, ?_, by rw [enqueued_of_ne (by simp)]⟩
      rw [stopped_of_ne (by simp)]
      simp only [TelemetryExportManager.exec] at h
      split_ifs at h
      · cases h
        exact .before [] (.inl rfl) todo hnot
      · cases h
        exact .before [.spawn] (.inr (.inr rfl)) todo hnot
    · obtain ⟨rfl, rfl⟩ := List.cons.inj ht
      refine ⟨todo, ?_, by rw [enqueued_of_ne (by simp)]⟩
      rw [stopped_of_ne (by simp)]
      simp only [TelemetryExportManager.exec] at h
      split_ifs at h
      cases h
      exact .before [] (.inl rfl) todo hnot
  | joining =>
    obtain ⟨rfl, rfl⟩ := List.cons.inj ht
    refine ⟨[], ?_, by rw [enqueued_of_ne (by simp)]⟩
    simp only [TelemetryExportManager.exec] at h
    split at h
    all_goals cases h
    all_goals exact .done
  | done => cases ht

theorem MainAt.step (hc : MainAt samples tr c) (h : Step daemonProgram c a d) :
    MainAt samples (tr ++ [(c.shared, a)]) d := by
  obtain ⟨exporter, main, todo, hthreads, hexporter, hmain, henqueued⟩ := hc.threads
  obtain ⟨thrown, k, he, hr⟩ := h.spec
  rcases hr.two hthreads with ⟨rest, rfl, hd⟩ | ⟨rest, hstack, hd⟩
  · have ha : OfExporter a := hexporter a List.mem_cons_self
    have hne : (∀ x, a ≠ .enqueue x) ∧ a ≠ .stop := by
      constructor
      · rintro x rfl
        exact ha
      · rintro rfl
        exact ha
    refine ⟨k ++ rest, main, todo, hd, fun b hb => ?_, ?_, ?_⟩
    · rcases List.mem_append.1 hb with hb | hb
      · exact exec_ofExporter ha he b hb
      · exact hexporter b (List.mem_cons_of_mem a hb)
    · rw [stopped_of_ne hne.2]
      exact hmain
    · rw [enqueued_of_ne hne.1]
      exact henqueued
  · rw [hstack] at hmain
    obtain ⟨todo', hmain', henqueued'⟩ := hmain.exec he
    exact ⟨exporter, k ++ rest, todo', hd, hexporter, hmain', henqueued'.trans henqueued⟩

theorem mainAt_of_trace (h : Trace daemonProgram (daemon samples) tr c) : MainAt samples tr c := by
  apply h.invariant
  · refine ⟨[.exportThread], mainCalls samples, samples, rfl, ?_, ?_, rfl⟩
    · intro b hb
      rw [List.mem_singleton.1 hb]
      trivial
    · refine .before [.start] (.inr (.inl rfl)) samples ?_
      rintro ⟨s, -, hmem⟩
      cases hmem
  · intro tr c a d hc hstep
    exact hc.step hstep

/-! ## What is exported -/

theorem exporting_of_daemon (h : Trace daemonProgram (daemon samples) tr c) :
    Exporting 512 3 tr c ∧ StopSeen tr c := by
  apply exporting_of_trace _ (trace_of_daemon h)
  intro t ht a ha
  rw [List.mem_singleton.1 ht] at ha
  simp only [mainCalls, List.cons_append, List.mem_cons, List.mem_append, List.mem_map, List.not_mem_nil,
    or_false] at ha
  rcases ha with rfl | ⟨x, -, rfl⟩ | rfl
  · trivial
  · trivial
  · trivial

/-- An exporter is called with samples that were enqueued, in their order. -/
theorem callsOf_sublist (h : Trace daemonProgram (daemon samples) tr c) {i : ℕ} (hi : i < 3) :
    ((callsOf c.shared i).map RuntimeMetrics.unstamped).Sublist (samples.map RuntimeMetrics.unstamped) := by
  obtain ⟨hexporting, -⟩ := exporting_of_daemon h
  obtain ⟨_, _, _, _, _, _, henqueued⟩ := (mainAt_of_trace h).threads
  obtain ⟨tw, ts, l, hthreads, hcallers, hworker, htaken⟩ := hexporting.threads
  have htaken' : ((c.shared.exported ++ l).map RuntimeMetrics.unstamped).Sublist (enqueued tr) := by
    rw [htaken, ← offered_buffer 512]
    exact (List.sublist_append_left _ _).trans (DropOldest.taken_append_queue_sublist (queueOps tr))
  have hall : (enqueued tr).Sublist (samples.map RuntimeMetrics.unstamped) := by
    rw [← henqueued]
    exact List.sublist_append_left _ _
  refine List.Sublist.trans (List.Sublist.map _ ?_) (htaken'.trans hall)
  rw [← hexporting.kept.exporters_eq] at hi
  cases hworker with
  | idle _ hcalls | loop _ hcalls =>
    rw [hcalls i hi]
    exact List.sublist_append_left _ _
  | exporting es hes x m hm halive hcalls =>
    rw [hcalls i hi]
    split_ifs
    · exact List.Sublist.refl _
    · rw [List.append_nil]
      exact List.sublist_append_left _ _

/-- When `stop` has returned, every sample was exported or dropped. -/
theorem length_of_joined (h : Trace daemonProgram (daemon samples) tr c)
    (hjoined : c.shared.export_thread = .joined) {i : ℕ} (hi : i < 3) :
    (callsOf c.shared i).length + (buffer 512 tr).dropped.length = samples.length := by
  obtain ⟨hexporting, hstop⟩ := exporting_of_daemon h
  obtain ⟨tr₁, tr₂, rfl, hstopped, hqueue⟩ := hstop.exited (.inr hjoined)
  obtain ⟨e, h₁⟩ := h.before
  obtain ⟨_, main, todo, -, -, hmain, henqueued⟩ := (mainAt_of_trace h₁).threads
  obtain ⟨_, _, todo', -, -, -, henqueued'⟩ := (mainAt_of_trace h).threads
  -- nothing is enqueued after `stop`
  have htodo : todo = [] := by
    cases hmain with
    | before _ _ _ hnot => exact absurd hstopped hnot
    | joining | done => rfl
  rw [htodo, List.map_nil, List.append_nil] at henqueued
  have hsplit : enqueued (tr₁ ++ tr₂) = enqueued tr₁ ++ enqueued tr₂ := List.filterMap_append
  rw [hsplit, henqueued, List.append_assoc] at henqueued'
  have hnone : enqueued tr₂ = [] := (List.append_eq_nil_iff.1 (List.append_right_eq_self.1 henqueued')).1
  have hall : enqueued (tr₁ ++ tr₂) = samples.map RuntimeMetrics.unstamped := by
    rw [hsplit, henqueued, hnone, List.append_nil]
  rw [hnone, List.suffix_nil] at hqueue
  obtain ⟨tw, ts, l, hthreads, hcallers, hworker, htaken⟩ := hexporting.threads
  rw [← hexporting.kept.exporters_eq] at hi
  have hcalls : callsOf c.shared i = c.shared.exported ∧ l = [] := by
    cases hworker with
    | idle _ hcalls => exact ⟨hcalls i hi, rfl⟩
    | loop halive | exporting _ _ _ _ _ halive =>
      rw [halive] at hjoined
      cases hjoined
  rw [hcalls.2, List.append_nil] at htaken
  have hlength : _ = (DropOldest.run (512 : UInt64).toNat (queueOps (tr₁ ++ tr₂))).offered.length :=
    (DropOldest.perm_offered (queueOps (tr₁ ++ tr₂))).length_eq
  have hoffered := offered_buffer 512 (tr₁ ++ tr₂)
  have hkept := hexporting.kept.queue
  unfold buffer at hoffered hkept htaken ⊢
  rw [hoffered, hall, ← hkept, hqueue, ← htaken, List.length_append, List.length_append, List.length_map,
    List.length_map, List.length_nil, Nat.add_zero, ← hcalls.1] at hlength
  exact hlength

end TelemetryExportManager

/-! ## What is read -/

section Log

open TelemetryExportManager Runs

variable {samples : List RuntimeMetrics} {tr : List (TelemetryExportManager × ExportAction)}
  {c : Config TelemetryExportManager ExportAction}

theorem map_tick_count_unstamped (samples : List RuntimeMetrics) :
    (samples.map RuntimeMetrics.unstamped).map RuntimeMetrics.tick_count =
      samples.map RuntimeMetrics.tick_count := by
  rw [List.map_map]
  rfl

theorem tickCounts_ascending {n : ℕ} (h : n < 2 ^ 64) : (tickCounts n).Pairwise (· < ·) := by
  rw [tickCounts, List.pairwise_map]
  refine List.pairwise_lt_range.imp_of_mem ?_
  intro i j hi hj hlt
  rw [List.mem_range] at hi hj
  rw [UInt64.lt_iff_toNat_lt, UInt64.toNat_ofNat', UInt64.toNat_ofNat', Nat.mod_eq_of_lt (by omega),
    Nat.mod_eq_of_lt (by omega)]
  omega

/-- The samples of `main` tell of one tick each. -/
theorem TellsAll.tick_counts {m : MainLoop} (h : m.TellsAll) :
    m.enqueued.map RuntimeMetrics.tick_count = tickCounts m.enqueued.length := by
  apply List.ext_getElem
  · rw [List.length_map, tickCounts, List.length_map, List.length_range]
  · intro k hk hk'
    rw [List.length_map] at hk
    rw [List.getElem_map, h.enqueued k _ (List.getElem?_eq_getElem hk)]
    simp [tickCounts]

/-- Every tick that `main` enqueues is written to the log once, in the order of the ticks, unless it is dropped or
the process is killed before the stream has written it. -/
theorem logs_ticks {cfg : Core.Config} {start first second : UInt64} {labels : List MainLabel} {m : MainLoop}
    {run : LogRun} (hmain : Run MainLoop.step anyStep (.initial cfg start first second) labels m)
    (hmanager : Trace daemonProgram (daemon m.enqueued) tr c)
    (hopen : run.is_open = true) (hunrefused : run.Unrefused)
    (hexports : run.events.filterMap LogEvent.sample? = callsOf c.shared fileExporter) :
    LogsTicks m.enqueued.length c.shared (run.result []).lost (readLog (run.result []).file) ∧
      (run.destroyed = true → (run.result []).lost = 0) := by
  have hlog : LogRun.log [run] = ((run.result []).file, (run.result []).lost) := by
    rw [LogRun.log, List.foldl_cons, List.foldl_nil, Nat.zero_add]
  have hback := LogRun.readsBack_of_unrefused [run] (List.forall_mem_singleton.2 hunrefused)
  have hsamples : [run].flatMap LogRun.samples = callsOf c.shared fileExporter := by
    rw [List.flatMap_singleton, LogRun.samples, if_pos hopen, hexports]
  rw [hsamples, hlog] at hback
  dsimp only at hback
  have hticks := TellsAll.tick_counts (MainLoop.tells_all hmain)
  have hcalls := (callsOf_sublist hmanager (show fileExporter < 3 by decide)).map RuntimeMetrics.tick_count
  rw [map_tick_count_unstamped, map_tick_count_unstamped, hticks] at hcalls
  have hsublist := (hback.sublist.map RuntimeMetrics.tick_count).trans hcalls
  refine ⟨⟨hsublist, fun hlt => (tickCounts_ascending hlt).sublist hsublist, fun hjoined hlt => ?_⟩, ?_⟩
  · have hlength := length_of_joined hmanager hjoined (show fileExporter < 3 by decide)
    have hdropped := ((exporting_of_daemon hmanager).1.kept.dropped_exact (by omega)).1
    have hle := hback.sublist.length_le
    have hge := hback.length_le
    omega
  · intro hdestroyed
    exact LogRun.lost_of_destroyed hopen hdestroyed []

/-- One tick, whose line the stream writes in its destructor, after `stop` has returned. -/
theorem logs_ticks_one : ∃ (m : MainLoop) (c : Config TelemetryExportManager ExportAction) (run : LogRun),
    m.point = .stopped ∧ m.enqueued.length = 1 ∧ c.shared.export_thread = .joined ∧
      run = ⟨true, [.exportSample ⟨6, 1, 1, 0⟩ none], true⟩ ∧ readLog (run.result []).file = [⟨6, 1, 1, 0⟩] ∧
      LogsTicks m.enqueued.length c.shared (run.result []).lost (readLog (run.result []).file) ∧
      (run.destroyed = true → (run.result []).lost = 0) := by
  have hmain : (play MainLoop.step Runs.anyStep MainLoop.interruptedRun (.initial {} 1 2 3)).map
      (fun m => (m.point, m.enqueued)) = some (.stopped, [⟨6, 1, 0, 0⟩]) := rfl
  obtain ⟨m, hm, hfacts⟩ := Option.map_eq_some_iff.1 hmain
  obtain ⟨hpoint, henqueued⟩ := Prod.mk.inj hfacts
  have hplay : ∃ c, Threads.play daemonProgram Threads.anyStep
      [(1, false), (1, false), (0, false), (1, false), (0, false), (0, false), (0, true), (0, false), (0, false),
        (1, false), (0, false), (1, false)] (daemon [⟨6, 1, 0, 0⟩]) = some c ∧
      c.shared.export_thread = .joined ∧ callsOf c.shared fileExporter = [⟨6, 1, 1, 0⟩] := ⟨_, rfl, rfl, rfl⟩
  obtain ⟨c, hplay, hjoined, hcalls⟩ := hplay
  obtain ⟨tr, htr⟩ := (reaches_of_play hplay).trace
  rw [← henqueued] at htr
  have hunrefused : LogRun.Unrefused ⟨true, [.exportSample ⟨6, 1, 1, 0⟩ none], true⟩ := by
    intro event hevent
    rw [List.mem_singleton.1 hevent]
    rfl
  exact ⟨m, c, _, hpoint, by rw [henqueued]; rfl, hjoined, rfl, by decide +kernel,
    logs_ticks (run_of_play hm) htr rfl hunrefused hcalls.symm⟩

end Log

end EdgeNetSwitch
