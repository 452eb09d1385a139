import EdgeNetSwitch.Daemon.MainLoop

/-!
# Proofs: the end of the main loop

The loop asks for the shutdown itself, in the step that leaves it (`Asked`). From a signal on, every step of `main`
takes one of the steps that are left (`stepsLeft`).
-/

namespace EdgeNetSwitch.MainLoop

open Runs

variable {m m' : MainLoop} {w : Reading} {l : MainLabel} {labels : List MainLabel}

/-- Who asks for the shutdown, and why. -/
structure Asked (m : MainLoop) : Prop where
  received : m.received = m.signals.getLast?
  cause : m.Over → m.shutdownRequest.requested = true ∧ ∃ s ∈ m.signals, m.shutdownRequest.reason = s.reason
  running : ¬ m.Over → m.shutdownRequest.requested = false

theorem asked_initial (cfg : Core.Config) (start first second : UInt64) :
    Asked (initial cfg start first second) where
  received := rfl
  cause hover := by
    rcases hover with hpoint | hpoint
    all_goals cases hpoint
  running _ := rfl

/-- Nothing is asked for where `main` goes on in the loop. -/
theorem Asked.goOn (h : Asked m) (hbefore : ¬ m.Over) (hafter : ¬ m'.Over) (hreceived : m'.received = m.received)
    (hsignals : m'.signals = m.signals) (hrequest : m'.shutdownRequest = m.shutdownRequest) : Asked m' where
  received := by rw [hreceived, hsignals, h.received]
  cause hover := absurd hover hafter
  running _ := by rw [hrequest, h.running hbefore]

/-- The loop is left for the signal received. -/
theorem Asked.leave {s : Signal} (h : Asked m) (hbefore : ¬ m.Over) (hs : m.received = some s)
    (hafter : m'.Over) (hreceived : m'.received = m.received) (hsignals : m'.signals = m.signals)
    (hrequest : m'.shutdownRequest = m.shutdownRequest.request s.reason) : Asked m' where
  received := by rw [hreceived, hsignals, h.received]
  cause _ := by
    rw [hrequest, ShutdownRequest.request, h.running hbefore, hsignals]
    exact ⟨rfl, s, List.mem_of_getLast? (h.received.symm.trans hs), rfl⟩
  running hnot := absurd hafter hnot

theorem Asked.main (h : Asked m) (hstep : m.main w = some m') : Asked m' := by
  unfold MainLoop.main at hstep
  cases hpoint : m.point with
  | starting | announcing | ticking | monitoring | publishing | sleeping =>
    simp only [hpoint] at hstep
    obtain rfl := Option.some.inj hstep
    refine h.goOn ?_ ?_ rfl rfl rfl
    · rintro (hover | hover)
      all_goals
        rw [hpoint] at hover
        cases hover
    · rintro (hover | hover)
      all_goals cases hover
  | requested =>
    have hnot : ¬ m.Over := by
      rintro (hover | hover)
      all_goals
        rw [hpoint] at hover
        cases hover
    simp only [hpoint, h.running hnot] at hstep
    obtain rfl := Option.some.inj hstep
    refine h.goOn hnot ?_ rfl rfl rfl
    rintro (hover | hover)
    all_goals cases hover
  | interrupted | terminated =>
    have hnot : ¬ m.Over := by
      rintro (hover | hover)
      all_goals
        rw [hpoint] at hover
        cases hover
    simp only [hpoint] at hstep
    split_ifs at hstep with hreceived
    · obtain rfl := Option.some.inj hstep
      exact h.leave hnot hreceived (.inl rfl) rfl rfl rfl
    · obtain rfl := Option.some.inj hstep
      refine h.goOn hnot ?_ rfl rfl rfl
      rintro (hover | hover)
      all_goals cases hover
  | stopping =>
    simp only [hpoint] at hstep
    obtain rfl := Option.some.inj hstep
    exact ⟨h.received, fun _ => h.cause (.inl hpoint), fun hnot => absurd (.inr rfl) hnot⟩
  | stopped =>
    simp only [hpoint] at hstep
    cases hstep

theorem Asked.step (h : Asked m) (hstep : MainLoop.step l m = some m') : Asked m' := by
  cases l with
  | main w => exact h.main hstep
  | signal s =>
    obtain rfl := Option.some.inj hstep
    refine ⟨List.getLast?_concat.symm, fun hover => ?_, h.running⟩
    obtain ⟨hrequested, s', hs', hreason⟩ := h.cause hover
    exact ⟨hrequested, s', List.mem_append_left [s] hs', hreason⟩

/-! ## The steps left -/

/-- The steps `main` takes, at most, after a signal: the last is the one after the loop. -/
def stepsLeft (m : MainLoop) : ℕ :=
  match m.point with
  | .stopped => 0
  | .stopping => 1
  | .interrupted => 3
  | .requested => 4
  | .announcing | .sleeping => 5
  | .starting | .publishing => 6
  | .monitoring => 7
  | .ticking => 8
  | .terminated => if m.received = some .terminate then 2 else 9

/-- The ticks among them. -/
def ticksLeft (m : MainLoop) : ℕ :=
  match m.point with
  | .ticking => 1
  | .terminated => if m.received = some .terminate then 0 else 1
  | _ => 0

theorem stepsLeft_le (m : MainLoop) : m.stepsLeft ≤ 9 := by
  unfold stepsLeft
  split
  case h_11 => split_ifs <;> decide
  all_goals decide

theorem ticksLeft_le (m : MainLoop) : m.ticksLeft ≤ 1 := by
  unfold ticksLeft
  split
  case h_2 => split_ifs <;> decide
  all_goals decide

/-- There is a signal, and who asks for the shutdown is known. -/
structure Signalled (m : MainLoop) : Prop where
  asked : Asked m
  some_signal : m.signals ≠ []

theorem signals_of_step (h : MainLoop.step l m = some m') : ∃ signals, m'.signals = m.signals ++ signals := by
  cases l with
  | signal s =>
    obtain rfl := Option.some.inj h
    exact ⟨[s], rfl⟩
  | main w =>
    refine ⟨[], ?_⟩
    rw [List.append_nil]
    change m.main w = some m' at h
    unfold MainLoop.main at h
    cases hpoint : m.point
    all_goals simp only [hpoint] at h
    case interrupted | terminated =>
      split_ifs at h
      all_goals
        obtain rfl := Option.some.inj h
        rfl
    case stopped => cases h
    all_goals
      obtain rfl := Option.some.inj h
      rfl

theorem Signalled.step (h : Signalled m) (hstep : MainLoop.step l m = some m') : Signalled m' := by
  refine ⟨h.asked.step hstep, ?_⟩
  obtain ⟨signals, hsignals⟩ := signals_of_step hstep
  rw [hsignals]
  exact List.append_ne_nil_of_left_ne_nil h.some_signal signals

theorem Signalled.received (h : Signalled m) : m.received = some .interrupt ∨ m.received = some .terminate := by
  rw [h.asked.received]
  cases hlast : m.signals.getLast? with
  | none => exact absurd (List.getLast?_eq_none_iff.1 hlast) h.some_signal
  | some s =>
    cases s with
    | interrupt => exact .inl rfl
    | terminate => exact .inr rfl

/-- The ticks that were, and those that are left. -/
def ticks (m : MainLoop) : ℕ := m.enqueued.length + m.ticksLeft

theorem Signalled.main (h : Signalled m) (hstep : m.main w = some m') :
    m'.stepsLeft + 1 ≤ m.stepsLeft ∧ m'.ticks ≤ m.ticks := by
  unfold MainLoop.main at hstep
  cases hpoint : m.point with
  | starting | announcing | monitoring | publishing | sleeping | stopping =>
    simp only [hpoint] at hstep
    obtain rfl := Option.some.inj hstep
    simp [stepsLeft, ticks, ticksLeft, hpoint, publish]
  | requested =>
    simp only [hpoint] at hstep
    obtain rfl := Option.some.inj hstep
    split_ifs with hrequested
    all_goals simp [stepsLeft, ticks, ticksLeft, hpoint]
  | interrupted =>
    simp only [hpoint] at hstep
    rcases h.received with hreceived | hreceived
    · rw [if_pos hreceived] at hstep
      obtain rfl := Option.some.inj hstep
      simp [stepsLeft, ticks, ticksLeft, hpoint]
    · rw [if_neg (by rw [hreceived]; decide)] at hstep
      obtain rfl := Option.some.inj hstep
      simp [stepsLeft, ticks, ticksLeft, hpoint, hreceived]
  | terminated =>
    simp only [hpoint] at hstep
    split_ifs at hstep with hreceived
    · obtain rfl := Option.some.inj hstep
      simp [stepsLeft, ticks, ticksLeft, hpoint, hreceived]
    · obtain rfl := Option.some.inj hstep
      simp [stepsLeft, ticks, ticksLeft, hpoint, hreceived]
  | ticking =>
    simp only [hpoint] at hstep
    obtain rfl := Option.some.inj hstep
    simp [stepsLeft, ticks, ticksLeft, hpoint, Telemetry.onTick, onTelemetry]
  | stopped =>
    simp only [hpoint] at hstep
    cases hstep

theorem InTime.signal {s : Signal} (hin : m.InTime (.signal s)) (hstep : MainLoop.step (.signal s) m = some m') :
    m'.stepsLeft ≤ m.stepsLeft ∧ m'.ticks ≤ m.ticks := by
  obtain rfl := Option.some.inj hstep
  cases hpoint : m.point with
  | terminated =>
    have hs : s = .terminate := by
      cases s with
      | interrupt => exact absurd rfl (hin hpoint)
      | terminate => rfl
    subst hs
    simp only [stepsLeft, ticks, ticksLeft, hpoint, if_true]
    split_ifs
    all_goals exact ⟨by decide, by omega⟩
  | _ => simp [stepsLeft, ticks, ticksLeft, hpoint]

/-- Neither the steps left nor the ticks go up. -/
theorem Signalled.lower (h : Signalled m) (hin : m.InTime l) (hstep : MainLoop.step l m = some m') :
    m'.stepsLeft + (if l.isMain then 1 else 0) ≤ m.stepsLeft ∧ m'.ticks ≤ m.ticks := by
  cases l with
  | main w => exact h.main hstep
  | signal s => exact hin.signal hstep

/-! ## Every run -/

theorem Run.asked {cfg : Core.Config} {start first second : UInt64}
    (h : Run MainLoop.step anyStep (initial cfg start first second) labels m) : Asked m := by
  apply h.keeps
  · intro s t l hs _ hstep
    exact hs.step hstep
  · exact asked_initial cfg start first second

/-- With one step left at most, the loop is over. -/
theorem over_of_stepsLeft (h : m.stepsLeft ≤ 1) : m.Over := by
  unfold stepsLeft at h
  cases hpoint : m.point with
  | stopping => exact .inl hpoint
  | stopped => exact .inr hpoint
  | terminated =>
    simp only [hpoint] at h
    split_ifs at h
    all_goals omega
  | starting | announcing | requested | interrupted | ticking | monitoring | publishing | sleeping =>
    simp only [hpoint] at h
    omega

theorem Signalled.bounded (h : Signalled m) (hrun : Run MainLoop.step InTime m labels m') :
    (8 ≤ labels.countP MainLabel.isMain → m'.Over) ∧ m'.enqueued.length ≤ m.enqueued.length + 1 := by
  have hkeep : ∀ {s t : MainLoop} {l : MainLabel}, Signalled s → s.InTime l → MainLoop.step l s = some t →
      Signalled t := fun hs _ hstep => hs.step hstep
  constructor
  · intro hcount
    have hleft : labels.countP MainLabel.isMain + m'.stepsLeft ≤ m.stepsLeft :=
      hrun.countP_add_le hkeep (fun hs hin hstep => (hs.lower hin hstep).1) h
    have hle := m.stepsLeft_le
    apply over_of_stepsLeft
    omega
  · have hticks : Signalled m' ∧ m'.ticks ≤ m.ticks := by
      apply hrun.keeps (I := fun s => Signalled s ∧ s.ticks ≤ m.ticks)
      · intro s t l hs hin hstep
        exact ⟨hkeep hs.1 hin hstep, (hs.1.lower hin hstep).2.trans hs.2⟩
      · exact ⟨h, Nat.le_refl _⟩
    have hle := m.ticksLeft_le
    have hticks' := hticks.2
    unfold ticks at hticks'
    omega

theorem isSome_main (hover : ¬ m.Over) (w : Reading) : (m.main w).isSome = true := by
  unfold MainLoop.main
  cases hp : m.point
  case stopped => exact absurd (.inr hp) hover
  case interrupted | terminated =>
    dsimp only
    split_ifs <;> rfl
  all_goals rfl

/-- The loop is over when a signal has arrived, for that reason, and after few steps. -/
theorem ends_on_signal {cfg : Core.Config} {start first second : UInt64}
    (h : Run MainLoop.step anyStep (initial cfg start first second) labels m) : EndsOnSignal m where
  cause := (Run.asked h).cause
  running := (Run.asked h).running
  moves := isSome_main
  bounded hsome _ _ hrun := Signalled.bounded ⟨Run.asked h, hsome⟩ hrun

/-- A termination that arrives while `main` tests for an interrupt. -/
theorem ends_on_signal_terminated :
    let w : Reading := { first := 7, second := 8, third := 9, raw_metrics := {} }
    ∃ m : MainLoop, play MainLoop.step anyStep
        (List.replicate 3 (.main w) ++ .signal .terminate :: List.replicate 2 (.main w)) (initial {} 1 2 3) = some m ∧
      m.point = .stopping ∧ m.shutdownRequest.reason = .signalTerminate ∧ EndsOnSignal m := by
  intro w
  have hplay : (play MainLoop.step anyStep
      (List.replicate 3 (.main w) ++ .signal .terminate :: List.replicate 2 (.main w)) (initial {} 1 2 3)).map
        (fun m => (m.point, m.shutdownRequest.reason)) = some (.stopping, .signalTerminate) := rfl
  obtain ⟨m, hm, hpoint⟩ := Option.map_eq_some_iff.1 hplay
  obtain ⟨hpoint, hreason⟩ := Prod.mk.inj hpoint
  exact ⟨m, hm, hpoint, hreason, ends_on_signal (run_of_play hm)⟩

/-! ## Signals between the tests -/

/-- A pass in which a termination arrives before the first test, and an interrupt before the second. -/
def missingPass (w : Reading) : List MainLabel :=
  [.main w, .signal .terminate, .main w, .signal .interrupt, .main w, .main w, .main w, .main w, .main w]

theorem run_missingPass (hpoint : m.point = .requested) (hrequest : m.shutdownRequest.requested = false)
    (w : Reading) : ∃ m', play MainLoop.step anyStep (missingPass w) m = some m' ∧ m'.point = .requested ∧
      m'.shutdownRequest.requested = false ∧ m'.signals.length = m.signals.length + 2 ∧
      m'.enqueued.length = m.enqueued.length + 1 := by
  obtain ⟨_, _, _, _, _, _, ⟨_, _⟩, _, _, signals, _, _, _, enqueued⟩ := m
  dsimp only at hpoint hrequest
  subst hpoint hrequest
  refine ⟨_, rfl, rfl, rfl, ?_, ?_⟩
  · show (signals ++ [Signal.terminate] ++ [Signal.interrupt]).length = signals.length + 2
    rw [List.append_assoc, List.length_append]
    rfl
  · show (enqueued ++ [_]).length = enqueued.length + 1
    rw [List.length_append]
    rfl

/-- Any number of signals may be missed: what `InTime` asks for is needed. -/
theorem misses_signals (cfg : Core.Config) (start first second : UInt64) (w : Reading) (n : ℕ) : ∃ labels m,
    Run MainLoop.step anyStep (initial cfg start first second) labels m ∧ m.point = .requested ∧
      m.shutdownRequest.requested = false ∧ m.signals.length = 2 * n ∧ m.enqueued.length = n := by
  induction n with
  | zero => exact ⟨[.main w, .main w], _, run_of_play rfl, rfl, rfl, rfl, rfl⟩
  | succ n ih =>
    obtain ⟨labels, m, hrun, hpoint, hrequest, hsignals, henqueued⟩ := ih
    obtain ⟨m', hplay, hpoint', hrequest', hsignals', henqueued'⟩ := run_missingPass hpoint hrequest w
    refine ⟨labels ++ missingPass w, m', hrun.append (run_of_play hplay), hpoint', hrequest', ?_, ?_⟩
    · omega
    · omega

end EdgeNetSwitch.MainLoop
