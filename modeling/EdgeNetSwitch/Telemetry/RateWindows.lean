import EdgeNetSwitch.Intervals.Tiling
import EdgeNetSwitch.Runs.Trail
import EdgeNetSwitch.Telemetry.WindowedEwmaRateSmoother
import Mathlib.Order.Bounds.Defs

/-!
# The windows of the rate smoother

What `WindowedEwmaRateSmoother` is for, stated over the trail of a run: an observation that updates the
snapshot closes a window that goes back to the observation stored as the base.
-/

namespace EdgeNetSwitch

open Runs Intervals

/-- The arguments of a call of `observe`. -/
structure Observation where
  counter : UInt64
  now_ms : UInt64
  deriving DecidableEq

/-- A window, from the base to the observation that closes it, with the rate computed for it and the
`raw_per_sec` published. -/
structure RateWindow where
  base : Observation
  upto : Observation
  rate : ℚ
  raw_per_sec : UInt64

namespace RateWindow

def span (w : RateWindow) : Observation × Observation := (w.base, w.upto)

/-- The length of the window in milliseconds, over the integers. -/
def elapsed (w : RateWindow) : ℤ := (w.upto.now_ms.toNat : ℤ) - w.base.now_ms.toNat

end RateWindow

namespace WindowedEwmaRateSmoother

/-- A smoother, and the observation it is given. -/
abbrev Step := WindowedEwmaRateSmoother × Observation

def step (s : WindowedEwmaRateSmoother) (o : Observation) : WindowedEwmaRateSmoother :=
  s.observe o.counter o.now_ms

/-- The smoother after observations. -/
def observeAll (config : RateSmootherConfig) (l : List Observation) : WindowedEwmaRateSmoother :=
  l.foldl step (new config)

/-- The calls of `observe`, each with the smoother it finds. -/
def calls (config : RateSmootherConfig) (l : List Observation) : List Step := trail step (new config) l

/-- The stored base. -/
def base (s : WindowedEwmaRateSmoother) : Observation := ⟨s.prev_counter, s.prev_time_ms⟩

/-- The counter has decreased below that of the base. -/
def Decreases (x : Step) : Prop := x.1.has_prev = true ∧ x.2.counter < x.1.prev_counter

/-- The observation publishes a rate. -/
def Updates (x : Step) : Prop :=
  x.1.has_prev = true ∧ ¬ x.2.counter < x.1.prev_counter ∧ x.2.now_ms - x.1.prev_time_ms ≠ 0 ∧
    ¬ x.2.now_ms - x.1.prev_time_ms < x.1.config.window_ms

instance : DecidablePred Decreases := fun _ => inferInstanceAs (Decidable (_ ∧ _))

instance : DecidablePred Updates := fun _ => inferInstanceAs (Decidable (_ ∧ _ ∧ _ ∧ _))

/-- The window an observation closes. -/
def window? (x : Step) : Option RateWindow :=
  if Updates x then
    some {
      base := x.1.base
      upto := x.2
      rate := instant (x.2.counter - x.1.prev_counter) (x.2.now_ms - x.1.prev_time_ms)
      raw_per_sec := (step x.1 x.2).snapshot.raw_per_sec }
  else none

/-- The windows of a run. -/
def windows (config : RateSmootherConfig) (l : List Observation) : List RateWindow :=
  (calls config l).filterMap window?

/-- The windows since the last counter reset. -/
def current (config : RateSmootherConfig) (l : List Observation) : List RateWindow :=
  (calls config l).foldl (fun ws x => if Decreases x then [] else ws ++ (window? x).toList) []

/-- The call that closes a window publishes its rate, rounded, and no other call changes what is published, but for
one with a counter that has decreased. -/
structure Publishes (x : Step) : Prop where
  window : ∀ w ∈ window? x, (step x.1 x.2).snapshot.valid = true ∧
    (step x.1 x.2).snapshot.raw_per_sec = UInt64.ofInt (llround w.rate)
  kept : window? x = none → ¬ Decreases x → (step x.1 x.2).snapshot = x.1.snapshot

/-! ## Smoothing -/

/-- The observation is at least `window_ms` after the stored base. -/
def Due (x : Step) : Prop :=
  x.1.has_prev = true ∧ x.1.prev_time_ms.toNat + x.1.config.window_ms.toNat ≤ x.2.now_ms.toNat

/-- Some observation was due, and neither there nor since has the counter decreased. -/
def Measured (config : RateSmootherConfig) (l : List Observation) : Prop :=
  ∃ before x after, calls config l = before ++ x :: after ∧ Due x ∧ ¬ Decreases x ∧
    ∀ y ∈ after, ¬ Decreases y

/-- `x` lies between the least and the greatest of `l`. -/
def Between {α : Type*} [LE α] (l : List α) (x : α) : Prop :=
  ∃ lo hi, IsLeast {y | y ∈ l} lo ∧ IsGreatest {y | y ∈ l} hi ∧ lo ≤ x ∧ x ≤ hi

/-- The snapshot is valid when a rate has been measured since the last counter reset, and what it says lies
between the least and the greatest of those measured. -/
structure Smooths (config : RateSmootherConfig) (l : List Observation) : Prop where
  valid_iff : (observeAll config l).snapshot.valid = true ↔ Measured config l
  smoothed : (observeAll config l).snapshot.valid = true →
    Between ((current config l).map RateWindow.rate) (observeAll config l).smoothed
  smoothed_per_sec : (observeAll config l).snapshot.valid = true →
    Between ((current config l).map RateWindow.raw_per_sec)
      (observeAll config l).snapshot.smoothed_per_sec

/-! ## Accounting -/

/-- The windows `ws` follow one another from the first observation to the last one that updated, none is
shorter than `window_ms`, and the rates times the lengths add up to what has been counted. -/
structure Accounts (config : RateSmootherConfig) (first : Observation) (ws : List RateWindow)
    (last : Observation) : Prop where
  consecutive : Tiles first (ws.map RateWindow.span) last
  wide : ∀ w ∈ ws, (config.window_ms.toNat : ℤ) ≤ w.elapsed
  disjoint : ws.Pairwise fun v w => v.upto.now_ms ≤ w.base.now_ms
  covers : ∀ t, (first.now_ms ≤ t ∧ t < last.now_ms) ↔
    ∃ w ∈ ws, w.base.now_ms ≤ t ∧ t < w.upto.now_ms
  total : (ws.map fun w => w.rate * (w.elapsed : ℚ)).sum =
    1000 * ((last.counter.toNat : ℚ) - first.counter.toNat)

/-! ## Clocks that step backwards -/

/-- What a call owes to its reader: a rate is computed over a whole window, and the base goes back in time
on a counter reset only. -/
structure KeepsTime (x : Step) : Prop where
  wide : ∀ w ∈ window? x, (x.1.config.window_ms.toNat : ℤ) ≤ w.elapsed
  forward : x.1.has_prev = true → ¬ Decreases x → x.1.prev_time_ms ≤ (step x.1 x.2).prev_time_ms
  publishes : Publishes x

/-- The clock has not stepped back behind the base, or so far that the wrapped interval is shorter than a
window. -/
def ClockAhead (x : Step) : Prop :=
  x.1.has_prev = true → x.1.prev_time_ms ≤ x.2.now_ms ∨
    x.2.now_ms.toNat + 2 ^ 64 < x.1.prev_time_ms.toNat + x.1.config.window_ms.toNat

end WindowedEwmaRateSmoother

end EdgeNetSwitch
