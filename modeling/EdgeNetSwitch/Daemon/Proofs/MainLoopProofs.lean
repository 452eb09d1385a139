import EdgeNetSwitch.Daemon.MainLoop
import EdgeNetSwitch.Control.Proofs.TextReportsProofs
import EdgeNetSwitch.Health.Proofs.HealthMonitorProofs

/-!
# Proofs: the main loop

Where `main` is tells how many snapshots there are for the ticks (`Place`), and a status is published only where
there are as many of both.
-/

namespace EdgeNetSwitch

namespace MainLoop

open Runs

variable {m m' : MainLoop} {w : Reading} {l : MainLabel} {k : ℕ} {status : RuntimeStatus}

/-! ## What is told stays told -/

theorem Tells.of_append {heartbeats : List UInt64} {readings : List Reading} (h : Tells m k status)
    (hheartbeats : m'.heartbeats = m.heartbeats ++ heartbeats) (hreadings : m'.readings = m.readings ++ readings) :
    Tells m' k status := by
  obtain ⟨w, hw, halive⟩ := h.alive
  refine ⟨h.version, h.ticks, h.state, fun hk => ?_, w, ?_, halive⟩
  · have hheartbeat := h.heartbeat hk
    rw [hheartbeats, List.getElem?_append_left (List.getElem?_eq_some_iff.1 hheartbeat).1]
    exact hheartbeat
  · rw [hreadings, List.getElem?_append_left (List.getElem?_eq_some_iff.1 hw).1]
    exact hw

/-- The counters and the monitor agree with what is recorded. -/
structure Recorded (m : MainLoop) : Prop where
  ticks : m.telemetry.tick_count = UInt64.ofNat m.enqueued.length
  version : m.publisher.version = UInt64.ofNat m.published.length
  loaded : m.publisher.load = m.published.getLast?
  heartbeats : m.heartbeats.length = m.enqueued.length
  readings : m.readings.length = m.published.length
  heartbeat : m.enqueued ≠ [] → m.heartbeats.getLast? = some m.healthMonitor.last_heartbeat_ms
  timeout : m.healthMonitor.timeout_ms = 500
  published : ∀ k status, m.published[k]? = some status → Tells m k status
  enqueued : ∀ k sample, m.enqueued[k]? = some sample → sample.tick_count = UInt64.ofNat (k + 1)

/-- What is recorded stays where only `main` goes on. -/
theorem Recorded.move (h : Recorded m) (htelemetry : m'.telemetry = m.telemetry)
    (hpublisher : m'.publisher = m.publisher) (hpublished : m'.published = m.published)
    (henqueued : m'.enqueued = m.enqueued) (hheartbeats : m'.heartbeats = m.heartbeats)
    (hreadings : m'.readings = m.readings)
    (hmonitor : m'.healthMonitor.last_heartbeat_ms = m.healthMonitor.last_heartbeat_ms ∧
      m'.healthMonitor.timeout_ms = m.healthMonitor.timeout_ms) : Recorded m' where
  ticks := by rw [htelemetry, henqueued, h.ticks]
  version := by rw [hpublisher, hpublished, h.version]
  loaded := by rw [hpublisher, hpublished, h.loaded]
  heartbeats := by rw [hheartbeats, henqueued, h.heartbeats]
  readings := by rw [hreadings, hpublished, h.readings]
  heartbeat := by
    rw [henqueued, hheartbeats, hmonitor.1]
    exact h.heartbeat
  timeout := hmonitor.2.trans h.timeout
  published k status hk := by
    rw [hpublished] at hk
    have hheartbeats' : m'.heartbeats = m.heartbeats ++ [] := by rw [List.append_nil, hheartbeats]
    have hreadings' : m'.readings = m.readings ++ [] := by rw [List.append_nil, hreadings]
    exact (h.published k status hk).of_append hheartbeats' hreadings'
  enqueued k sample hk := by
    rw [henqueued] at hk
    exact h.enqueued k sample hk

theorem recorded_initial (cfg : Core.Config) (start first second : UInt64) :
    Recorded (initial cfg start first second) where
  ticks := rfl
  version := rfl
  loaded := rfl
  heartbeats := rfl
  readings := rfl
  heartbeat hne := absurd rfl hne
  timeout := rfl
  published _ _ h := absurd h nofun
  enqueued _ _ h := absurd h nofun

/-- The snapshot that is published next, when there are as many snapshots as ticks. -/
theorem Recorded.publish (h : Recorded m) (hlength : m.published.length = m.enqueued.length)
    (hstate : m.runtimeState = stateAt m.published.length) : Recorded (m.publish w) where
  ticks := h.ticks
  version := by
    show m.publisher.version + 1 = UInt64.ofNat (m.published ++ [_]).length
    rw [h.version, List.length_append, List.length_singleton, UInt64.ofNat_add, UInt64.ofNat_one]
  loaded := List.getLast?_concat.symm
  heartbeats := h.heartbeats
  readings := by
    show (m.readings ++ [_]).length = (m.published ++ [_]).length
    rw [List.length_append, List.length_append, h.readings]
    rfl
  heartbeat := h.heartbeat
  timeout := h.timeout
  published k status hk := by
    change (m.published ++ [_])[k]? = some status at hk
    by_cases hlt : k < m.published.length
    · rw [List.getElem?_append_left hlt] at hk
      exact (h.published k status hk).of_append (List.append_nil _).symm rfl
    · rw [List.getElem?_append_right (Nat.not_lt.1 hlt)] at hk
      have hlast : k = m.published.length := by
        have hbound := (List.getElem?_eq_some_iff.1 hk).1
        rw [List.length_singleton] at hbound
        omega
      subst hlast
      rw [Nat.sub_self] at hk
      obtain rfl := Option.some.inj hk
      refine ⟨?_, ?_, hstate, fun hpos => ?_, w, ?_, ?_⟩
      · show m.publisher.version + 1 = _
        rw [h.version, UInt64.ofNat_add, UInt64.ofNat_one]
      · show m.telemetry.tick_count = _
        rw [h.ticks, hlength]
      · have hne : m.enqueued ≠ [] := by
          rintro heq
          rw [hlength, heq] at hpos
          exact absurd hpos (Nat.lt_irrefl 0)
        have hheartbeat := h.heartbeat hne
        rw [List.getLast?_eq_getElem?, h.heartbeats, ← hlength] at hheartbeat
        exact hheartbeat
      · show (m.readings ++ [w])[m.published.length]? = some w
        rw [← h.readings]
        exact List.getElem?_concat_length
      · show decide (w.third - m.healthMonitor.last_heartbeat_ms ≤ m.healthMonitor.timeout_ms) = _
        rw [h.timeout]
        rfl
  enqueued := h.enqueued

/-- A sample for the next tick. -/
theorem Recorded.tick (h : Recorded m) :
    Recorded (({ m with telemetry := (m.telemetry.onTick w.first w.second).1 }).onTelemetry
      (m.telemetry.onTick w.first w.second).2 w.third) where
  ticks := by
    show m.telemetry.tick_count + 1 = UInt64.ofNat (m.enqueued ++ [_]).length
    rw [h.ticks, List.length_append, List.length_singleton, UInt64.ofNat_add, UInt64.ofNat_one]
  version := h.version
  loaded := h.loaded
  heartbeats := by
    show (m.heartbeats ++ [_]).length = (m.enqueued ++ [_]).length
    rw [List.length_append, List.length_append, h.heartbeats]
    rfl
  readings := h.readings
  heartbeat _ := List.getLast?_concat
  timeout := h.timeout
  published k status hk := (h.published k status hk).of_append rfl (List.append_nil _).symm
  enqueued k sample hk := by
    change (m.enqueued ++ [_])[k]? = some sample at hk
    by_cases hlt : k < m.enqueued.length
    · rw [List.getElem?_append_left hlt] at hk
      exact h.enqueued k sample hk
    · rw [List.getElem?_append_right (Nat.not_lt.1 hlt)] at hk
      have hlast : k = m.enqueued.length := by
        have hbound := (List.getElem?_eq_some_iff.1 hk).1
        rw [List.length_singleton] at hbound
        omega
      subst hlast
      rw [Nat.sub_self] at hk
      obtain rfl := Option.some.inj hk
      show m.telemetry.tick_count + 1 = _
      rw [h.ticks, UInt64.ofNat_add, UInt64.ofNat_one]

/-! ## Every run -/

/-- How many snapshots and samples there are where `main` is, the state it publishes, and the last status. -/
def Place (m : MainLoop) : MainPoint → Prop
  | .starting => m.published.length = m.enqueued.length ∧ m.runtimeState = stateAt m.published.length ∧ m.last = none
  | .announcing => m.published.length = m.enqueued.length + 1 ∧ m.last = none
  | .requested | .interrupted | .terminated | .ticking | .sleeping | .stopping =>
    m.published.length = m.enqueued.length + 1 ∧ m.runtimeState = .running ∧ m.last = none
  | .monitoring | .publishing =>
    m.published.length = m.enqueued.length ∧ 0 < m.published.length ∧ m.runtimeState = .running ∧ m.last = none
  | .stopped => m.published.length = m.enqueued.length + 1 ∧ ∀ status, m.last = some status →
      status.state = .stopping ∧ status.snapshot_version = 0 ∧
        status.metrics.tick_count = UInt64.ofNat m.enqueued.length

structure Going (m : MainLoop) : Prop where
  recorded : Recorded m
  place : Place m m.point

theorem Going.main (h : Going m) (hstep : m.main w = some m') : Going m' := by
  have hrecorded := h.recorded
  have hplace := h.place
  unfold MainLoop.main at hstep
  cases hpoint : m.point with
  | starting =>
    simp only [hpoint] at hstep hplace
    obtain rfl := Option.some.inj hstep
    obtain ⟨hlength, hstate, hlast⟩ := hplace
    refine ⟨(hrecorded.publish (w := w) hlength hstate).move rfl rfl rfl rfl rfl rfl ⟨rfl, rfl⟩, ?_, hlast⟩
    show (m.published ++ [_]).length = m.enqueued.length + 1
    rw [List.length_append, hlength]
    rfl
  | announcing =>
    simp only [hpoint] at hstep hplace
    obtain rfl := Option.some.inj hstep
    exact ⟨hrecorded.move rfl rfl rfl rfl rfl rfl ⟨rfl, rfl⟩, hplace.1, rfl, hplace.2⟩
  | requested =>
    simp only [hpoint] at hstep hplace
    obtain rfl := Option.some.inj hstep
    refine ⟨hrecorded.move rfl rfl rfl rfl rfl rfl ⟨rfl, rfl⟩, ?_⟩
    dsimp only
    split_ifs
    all_goals exact hplace
  | interrupted | terminated =>
    simp only [hpoint] at hstep hplace
    split_ifs at hstep
    all_goals
      obtain rfl := Option.some.inj hstep
      exact ⟨hrecorded.move rfl rfl rfl rfl rfl rfl ⟨rfl, rfl⟩, hplace⟩
  | ticking =>
    simp only [hpoint] at hstep hplace
    obtain rfl := Option.some.inj hstep
    obtain ⟨hlength, hstate, hlast⟩ := hplace
    refine ⟨(hrecorded.tick (w := w)).move rfl rfl rfl rfl rfl rfl ⟨rfl, rfl⟩, ?_, ?_, hstate, hlast⟩
    · show m.published.length = (m.enqueued ++ [_]).length
      rw [List.length_append, hlength]
      rfl
    · show 0 < m.published.length
      omega
  | monitoring =>
    simp only [hpoint] at hstep hplace
    obtain rfl := Option.some.inj hstep
    exact ⟨hrecorded.move rfl rfl rfl rfl rfl rfl (HealthMonitor.onTick_times _ _), hplace⟩
  | publishing =>
    simp only [hpoint] at hstep hplace
    obtain rfl := Option.some.inj hstep
    obtain ⟨hlength, hpos, hstate, hlast⟩ := hplace
    have hstate' : m.runtimeState = stateAt m.published.length := by
      rw [stateAt, if_neg (Nat.pos_iff_ne_zero.1 hpos), hstate]
    refine ⟨(hrecorded.publish (w := w) hlength hstate').move rfl rfl rfl rfl rfl rfl ⟨rfl, rfl⟩, ?_, hstate, hlast⟩
    show (m.published ++ [_]).length = m.enqueued.length + 1
    rw [List.length_append, hlength]
    rfl
  | sleeping =>
    simp only [hpoint] at hstep hplace
    obtain rfl := Option.some.inj hstep
    exact ⟨hrecorded.move rfl rfl rfl rfl rfl rfl ⟨rfl, rfl⟩, hplace⟩
  | stopping =>
    simp only [hpoint] at hstep hplace
    obtain rfl := Option.some.inj hstep
    refine ⟨hrecorded.move rfl rfl rfl rfl rfl rfl ⟨rfl, rfl⟩, hplace.1, fun status hlast => ?_⟩
    obtain rfl := Option.some.inj hlast
    exact ⟨rfl, rfl, hrecorded.ticks⟩
  | stopped =>
    simp only [hpoint] at hstep
    cases hstep

theorem Going.step (h : Going m) (hstep : m.step l = some m') : Going m' := by
  cases l with
  | main w => exact h.main hstep
  | signal s =>
    obtain rfl := Option.some.inj hstep
    refine ⟨h.recorded.move rfl rfl rfl rfl rfl rfl ⟨rfl, rfl⟩, ?_⟩
    have hplace := h.place
    show Place { m with received := some s, signals := m.signals ++ [s] } m.point
    cases hpoint : m.point
    all_goals
      rw [hpoint] at hplace
      exact hplace

theorem Going.last (h : Going m) (hlast : m.last = some status) : status.state = .stopping ∧
    status.snapshot_version = 0 ∧ status.metrics.tick_count = UInt64.ofNat m.enqueued.length := by
  have hplace := h.place
  cases hpoint : m.point with
  | stopped =>
    rw [hpoint] at hplace
    exact hplace.2 status hlast
  | starting | announcing | requested | interrupted | terminated | ticking | monitoring | publishing | sleeping |
    stopping =>
    rw [hpoint] at hplace
    simp [Place, hlast] at hplace

theorem Going.length (h : Going m) :
    m.published.length ≤ m.enqueued.length + 1 ∧ m.enqueued.length ≤ m.published.length := by
  have hplace := h.place
  cases hpoint : m.point
  all_goals
    rw [hpoint] at hplace
    have hlength := hplace.1
    omega

theorem Run.going {cfg : Core.Config} {start first second : UInt64} {labels : List MainLabel}
    (h : Run MainLoop.step anyStep (initial cfg start first second) labels m) : Going m := by
  apply h.keeps
  · intro s t l hs _ hstep
    exact hs.step hstep
  · exact ⟨recorded_initial cfg start first second, rfl, rfl, rfl⟩

/-- The publications and the samples of every run. -/
theorem tells_all {cfg : Core.Config} {start first second : UInt64} {labels : List MainLabel}
    (h : Run MainLoop.step anyStep (initial cfg start first second) labels m) : TellsAll m where
  loaded := (Run.going h).recorded.loaded
  published := (Run.going h).recorded.published
  enqueued := (Run.going h).recorded.enqueued
  length := (Run.going h).length
  last _ hlast := (Run.going h).last hlast

/-- A run with one tick, stopped by the signal that arrives while `main` sleeps. -/
def interruptedRun : List MainLabel :=
  let w : Reading := { first := 7, second := 8, third := 9, raw_metrics := {} }
  List.replicate 9 (.main w) ++ .signal .interrupt :: List.replicate 3 (.main w)

theorem tells_all_interrupted : ∃ m : MainLoop,
    play MainLoop.step anyStep interruptedRun (initial {} 1 2 3) = some m ∧
      m.point = .stopped ∧ m.enqueued.length = 1 ∧ TellsAll m := by
  have hplay : (play MainLoop.step anyStep interruptedRun (initial {} 1 2 3)).map
      (fun m => (m.point, m.enqueued.length)) = some (.stopped, 1) := rfl
  obtain ⟨m, hm, hfacts⟩ := Option.map_eq_some_iff.1 hplay
  obtain ⟨hpoint, hlength⟩ := Prod.mk.inj hfacts
  exact ⟨m, hm, hpoint, hlength, tells_all (run_of_play hm)⟩

/-! ## What clients are told -/

section Status

variable {p : Control.Platform} {ctx : Control.ControlContext} {resp : Control.ControlResponse}

/-- The text form of a status that is there. -/
theorem entries_status
    (hresp : (Control.dispatchControlRequest p ctx Control.Command.status.plain).response = some resp)
    (hok : resp.success = true) : ∃ snap, Control.loadSnapshot ctx = some snap ∧
      Lines.entries 0x0A 0x3D resp.payload =
        (Control.statusValues snap).map fun v => (bytesOf v.1, Control.scalarText v.2) := by
  rw [Control.response_plain, Control.handleStatus_eq, Control.reportSnapshot, Control.checkArgument_nil] at hresp
  cases hsnap : Control.loadSnapshot ctx with
  | none =>
    rw [hsnap] at hresp
    rw [(Control.makeJsonError_eq hresp).1] at hok
    cases hok
  | some snap =>
    rw [hsnap] at hresp
    obtain rfl := Option.some.inj hresp
    exact ⟨snap, rfl, (Control.listable_status snap).entries_valuesText⟩

/-- A client that asks for the status is told of the last publication. -/
theorem status_tells {cfg : Core.Config} {start first second : UInt64} {labels : List MainLabel}
    (h : Run MainLoop.step anyStep (initial cfg start first second) labels m) : StatusTells p ctx m := by
  intro resp hresp hok
  have hall := tells_all h
  obtain ⟨snap, hsnap, hentries⟩ := entries_status hresp hok
  have hlast : m.published.getLast? = some snap := hall.loaded.symm.trans hsnap
  have hpos : 0 < m.published.length := by
    rw [List.length_pos_iff]
    rintro hnil
    rw [hnil] at hlast
    cases hlast
  rw [List.getLast?_eq_getElem?] at hlast
  have htells := hall.published _ _ hlast
  refine ⟨m.published.length - 1, (Nat.sub_add_cancel hpos).symm, ?_, ?_, ?_⟩
  all_goals rw [hentries, Control.statusValues]
  · rw [← htells.state]
    exact List.mem_cons_self
  · have htick : (m.published.length - 1) % 2 ^ 64 = snap.metrics.tick_count.toNat := by
      rw [htells.ticks]
      rfl
    rw [htick]
    exact List.mem_cons_of_mem _ (List.mem_cons_of_mem _ List.mem_cons_self)
  · have hversion : (m.published.length - 1 + 1) % 2 ^ 64 = snap.snapshot_version.toNat := by
      rw [htells.version]
      rfl
    rw [hversion]
    exact List.mem_cons_of_mem _ (List.mem_cons_of_mem _ (List.mem_cons_of_mem _ List.mem_cons_self))

theorem status_tells_interrupted : ∃ m : MainLoop,
    play MainLoop.step anyStep interruptedRun (initial {} 1 2 3) = some m ∧
      m.published.length = 2 ∧ StatusTells Control.printing {} m := by
  have hplay : (play MainLoop.step anyStep interruptedRun (initial {} 1 2 3)).map
      (fun m => m.published.length) = some 2 := rfl
  obtain ⟨m, hm, hlength⟩ := Option.map_eq_some_iff.1 hplay
  exact ⟨m, hm, hlength, status_tells (run_of_play hm)⟩

end Status

end MainLoop

end EdgeNetSwitch
