import Mathlib.Data.Rat.Floor
import Mathlib.Data.UInt

/-!
# The rate smoother

`WindowedEwmaRateSmoother` of `src/telemetry/WindowedEwmaRateSmoother.cpp`, in exact arithmetic: a `double`
is a rational number, and only `llround` rounds.
-/

namespace EdgeNetSwitch

/-- The default of `alpha` is the `double` 0.2. -/
structure RateSmootherConfig where
  alpha : ℚ := 3602879701896397 / 2 ^ 54
  window_ms : UInt64 := 1000

structure RateSnapshot where
  valid : Bool := false
  raw_per_sec : UInt64 := 0
  smoothed_per_sec : UInt64 := 0
  deriving DecidableEq

/-- `std::llround`: the nearest integer, and the one away from zero when there are two. Of an argument that
rounds to a number outside `long long` the C function gives an unspecified result; this is the exact one. -/
def llround (x : ℚ) : ℤ := if 0 ≤ x then ⌊x + 1 / 2⌋ else ⌈x - 1 / 2⌉

structure WindowedEwmaRateSmoother where
  config : RateSmootherConfig
  prev_counter : UInt64 := 0
  prev_time_ms : UInt64 := 0
  has_prev : Bool := false
  smoothed : ℚ := 0
  last_snapshot : RateSnapshot := {}

namespace WindowedEwmaRateSmoother

def reset (s : WindowedEwmaRateSmoother) : WindowedEwmaRateSmoother :=
  { s with
    prev_counter := 0
    prev_time_ms := 0
    has_prev := false
    smoothed := 0
    last_snapshot := { valid := false, raw_per_sec := 0, smoothed_per_sec := 0 } }

/-- The constructor. -/
def new (config : RateSmootherConfig) : WindowedEwmaRateSmoother := reset { config }

/-- The rate over an interval, in events per second. -/
def instant (delta_counter delta_time : UInt64) : ℚ :=
  ((delta_counter.toNat : ℚ) * 1000) / (delta_time.toNat : ℚ)

/-- `static_cast<std::uint64_t>(std::llround(rate))`. -/
def perSec (rate : ℚ) : UInt64 := UInt64.ofInt (llround rate)

def observe (s : WindowedEwmaRateSmoother) (counter now_ms : UInt64) : WindowedEwmaRateSmoother :=
  if s.has_prev = false then
    { s with prev_counter := counter, prev_time_ms := now_ms, has_prev := true }
  else if counter < s.prev_counter then
    { s.reset with prev_counter := counter, prev_time_ms := now_ms, has_prev := true }
  else
    let delta_time := now_ms - s.prev_time_ms
    if delta_time = 0 then s
    else if delta_time < s.config.window_ms then s
    else
      let delta_counter := counter - s.prev_counter
      let instant := instant delta_counter delta_time
      let raw := perSec instant
      let smoothed :=
        if s.last_snapshot.valid = false then instant
        else s.config.alpha * instant + (1 - s.config.alpha) * s.smoothed
      { s with
        smoothed
        last_snapshot := { valid := true, raw_per_sec := raw, smoothed_per_sec := perSec smoothed }
        prev_counter := counter
        prev_time_ms := now_ms }

def snapshot (s : WindowedEwmaRateSmoother) : RateSnapshot := s.last_snapshot

end WindowedEwmaRateSmoother

end EdgeNetSwitch
