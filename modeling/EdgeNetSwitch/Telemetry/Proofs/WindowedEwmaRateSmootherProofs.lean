import EdgeNetSwitch.Averages.MovingAverage
import EdgeNetSwitch.Telemetry.RateWindows
import Mathlib.Algebra.Order.Field.Rat
import Mathlib.Tactic.FieldSimp
import Mathlib.Tactic.Positivity
import Mathlib.Tactic.Ring

/-!
# Proofs: what the rate smoother publishes

An observation is the first one, resets, closes a window, or is ignored; each invariant is a case analysis
on these. `Smoothing` carries the average, `Tiling` the accounting.
-/

namespace EdgeNetSwitch

namespace WindowedEwmaRateSmoother

open Runs Intervals Averages

variable {config : RateSmootherConfig} {s : WindowedEwmaRateSmoother} {o first : Observation}
  {l : List Observation} {x : Step} {w : RateWindow} {ws : List RateWindow}

/-! ## One observation -/

theorem step_first (h : s.has_prev = false) :
    step s o = { s with prev_counter := o.counter, prev_time_ms := o.now_ms, has_prev := true } := by
  unfold step observe
  rw [if_pos h]

theorem step_decreases (h : Decreases (s, o)) :
    step s o = { s.reset with
      prev_counter := o.counter, prev_time_ms := o.now_ms, has_prev := true } := by
  obtain ⟨hp, hlt⟩ := h
  unfold step observe
  rw [if_neg (by rw [hp]; exact Bool.noConfusion), if_pos hlt]

/-- The rate over the interval since the base. -/
def rateOf (x : Step) : ℚ :=
  instant (x.2.counter - x.1.prev_counter) (x.2.now_ms - x.1.prev_time_ms)

/-- The average so far, if there is one. -/
def average (s : WindowedEwmaRateSmoother) : Option ℚ :=
  if s.last_snapshot.valid = true then some s.smoothed else none

theorem step_updates (h : Updates (s, o)) :
    step s o = { s with
      smoothed := pull s.config.alpha s.average (rateOf (s, o))
      last_snapshot :=
        { valid := true
          raw_per_sec := perSec (rateOf (s, o))
          smoothed_per_sec := perSec (pull s.config.alpha s.average (rateOf (s, o))) }
      prev_counter := o.counter
      prev_time_ms := o.now_ms } := by
  obtain ⟨hp, hcounter, hzero, hwindow⟩ := h
  have hpull : pull s.config.alpha s.average (rateOf (s, o)) =
      if s.last_snapshot.valid = false then rateOf (s, o)
      else s.config.alpha * rateOf (s, o) + (1 - s.config.alpha) * s.smoothed := by
    unfold average
    cases s.last_snapshot.valid <;> rfl
  rw [hpull]
  unfold step observe
  rw [if_neg (by rw [hp]; exact Bool.noConfusion), if_neg hcounter]
  simp only
  rw [if_neg hzero, if_neg hwindow]
  rfl

theorem step_ignored (hp : s.has_prev = true) (hd : ¬ Decreases (s, o)) (hu : ¬ Updates (s, o)) :
    step s o = s := by
  have hcounter : ¬ o.counter < s.prev_counter := fun hlt => hd ⟨hp, hlt⟩
  unfold step observe
  rw [if_neg (by rw [hp]; exact Bool.noConfusion), if_neg hcounter]
  simp only
  by_cases hzero : o.now_ms - s.prev_time_ms = 0
  · rw [if_pos hzero]
  · by_cases hwindow : o.now_ms - s.prev_time_ms < s.config.window_ms
    · rw [if_neg hzero, if_pos hwindow]
    · exact absurd ⟨hp, hcounter, hzero, hwindow⟩ hu

theorem not_updates_first (h : s.has_prev = false) : ¬ Updates (s, o) := fun hu => by
  rw [hu.1] at h
  cases h

theorem not_decreases_first (h : s.has_prev = false) : ¬ Decreases (s, o) := fun hd => by
  rw [hd.1] at h
  cases h

theorem window?_updates (h : Updates (s, o)) :
    window? (s, o) = some ⟨s.base, o, rateOf (s, o), perSec (rateOf (s, o))⟩ := by
  unfold window?
  rw [if_pos h, step_updates h]
  rfl

theorem window?_eq_none (h : ¬ Updates (s, o)) : window? (s, o) = none := if_neg h

theorem mem_window? :
    w ∈ window? (s, o) ↔
      Updates (s, o) ∧ w = ⟨s.base, o, rateOf (s, o), perSec (rateOf (s, o))⟩ := by
  by_cases h : Updates (s, o)
  · rw [window?_updates h, Option.mem_some_iff]
    exact ⟨fun hw => ⟨h, hw.symm⟩, fun hw => hw.2.symm⟩
  · rw [window?_eq_none h]
    exact ⟨fun hw => (by cases hw), fun hw => absurd hw.1 h⟩

theorem publishes (x : Step) : Publishes x := by
  obtain ⟨s, o⟩ := x
  by_cases hu : Updates (s, o)
  · refine ⟨?_, fun hnone => ?_⟩
    · intro w hw
      obtain ⟨-, rfl⟩ := mem_window?.1 hw
      rw [step_updates hu]
      exact ⟨rfl, rfl⟩
    · rw [window?_updates hu] at hnone
      cases hnone
  · refine ⟨fun w hw => ?_, fun _ hd => ?_⟩
    · rw [window?_eq_none hu] at hw
      cases hw
    · by_cases hp : s.has_prev = true
      · rw [step_ignored hp hd hu]
      · rw [step_first (eq_false_of_ne_true hp)]
        rfl

theorem step_config (s : WindowedEwmaRateSmoother) (o : Observation) :
    (step s o).config = s.config := by
  by_cases hp : s.has_prev = true
  · by_cases hd : Decreases (s, o)
    · rw [step_decreases hd]
      rfl
    · by_cases hu : Updates (s, o)
      · rw [step_updates hu]
      · rw [step_ignored hp hd hu]
  · rw [step_first (eq_false_of_ne_true hp)]

/-- The base after an observation is the observation, or the base before it. -/
theorem step_base (s : WindowedEwmaRateSmoother) (o : Observation) :
    (step s o).has_prev = true ∧
      ((step s o).base = o ∨ s.has_prev = true ∧ (step s o).base = s.base) := by
  by_cases hp : s.has_prev = true
  · by_cases hd : Decreases (s, o)
    · rw [step_decreases hd]
      exact ⟨rfl, Or.inl rfl⟩
    · by_cases hu : Updates (s, o)
      · rw [step_updates hu]
        exact ⟨hp, Or.inl rfl⟩
      · rw [step_ignored hp hd hu]
        exact ⟨hp, Or.inr ⟨hp, rfl⟩⟩
  · rw [step_first (eq_false_of_ne_true hp)]
    exact ⟨rfl, Or.inl rfl⟩

/-! ## Runs -/

@[simp] theorem observeAll_nil (config : RateSmootherConfig) : observeAll config [] = new config := rfl

theorem observeAll_concat (config : RateSmootherConfig) (l : List Observation) (o : Observation) :
    observeAll config (l ++ [o]) = step (observeAll config l) o := foldl_concat ..

theorem calls_concat (config : RateSmootherConfig) (l : List Observation) (o : Observation) :
    calls config (l ++ [o]) = calls config l ++ [(observeAll config l, o)] := trail_concat ..

theorem windows_concat (config : RateSmootherConfig) (l : List Observation) (o : Observation) :
    windows config (l ++ [o]) = windows config l ++ (window? (observeAll config l, o)).toList := by
  unfold windows
  rw [calls_concat, List.filterMap_append, List.filterMap_cons, List.filterMap_nil]
  cases window? (observeAll config l, o) <;> rfl

theorem current_concat (config : RateSmootherConfig) (l : List Observation) (o : Observation) :
    current config (l ++ [o]) =
      if Decreases (observeAll config l, o) then []
      else current config l ++ (window? (observeAll config l, o)).toList := by
  unfold current
  rw [calls_concat, List.foldl_append, List.foldl_cons, List.foldl_nil]

/-- The windows since the last reset are windows of the run. -/
theorem current_subset (config : RateSmootherConfig) (l : List Observation) :
    current config l ⊆ windows config l := by
  induction l using List.reverseRecOn with
  | nil => exact List.Subset.refl _
  | append_singleton l o ih =>
    rw [current_concat, windows_concat]
    split_ifs with hd
    · exact List.nil_subset _
    · exact List.append_subset.2 ⟨List.subset_append_of_subset_left _ ih, List.subset_append_right _ _⟩

theorem observeAll_config (config : RateSmootherConfig) (l : List Observation) :
    (observeAll config l).config = config := by
  induction l using List.reverseRecOn with
  | nil => rfl
  | append_singleton l o ih => rw [observeAll_concat, step_config, ih]

/-- The base is one of the observations. -/
theorem base_mem (h : (observeAll config l).has_prev = true) : (observeAll config l).base ∈ l := by
  induction l using List.reverseRecOn with
  | nil => cases h
  | append_singleton l o ih =>
    rw [observeAll_concat]
    rcases (step_base (observeAll config l) o).2 with hbase | ⟨hp, hbase⟩
    · rw [hbase]
      exact List.mem_append_right _ (List.mem_singleton.2 rfl)
    · rw [hbase]
      exact List.mem_append_left _ (ih hp)

/-- What the observations of a run keep, the base keeps towards the next one. -/
theorem base_rel {R : Observation → Observation → Prop} (hl : (l ++ [o]).Pairwise R)
    (h : (observeAll config l).has_prev = true) : R (observeAll config l).base o :=
  (List.pairwise_append.1 hl).2.2 _ (base_mem h) _ (List.mem_singleton.2 rfl)

/-! ## Times -/

/-- With the clock not behind the base the interval is the difference of the times. -/
theorem interval_toNat (h : s.prev_time_ms ≤ o.now_ms) :
    (o.now_ms - s.prev_time_ms).toNat = o.now_ms.toNat - s.prev_time_ms.toNat :=
  UInt64.toNat_sub_of_le _ _ h

/-- With the clock behind the base the interval wraps around. -/
theorem interval_toNat_of_lt (h : o.now_ms < s.prev_time_ms) :
    (o.now_ms - s.prev_time_ms).toNat = o.now_ms.toNat + 2 ^ 64 - s.prev_time_ms.toNat := by
  have hlt := UInt64.lt_iff_toNat_lt.1 h
  have hprev := s.prev_time_ms.toNat_lt
  rw [UInt64.toNat_sub]
  omega

/-- An observation that is due closes a window, if the counter has not decreased. -/
theorem updates_iff (hwindow : 0 < s.config.window_ms)
    (htime : s.has_prev = true → s.prev_time_ms ≤ o.now_ms) :
    Updates (s, o) ↔ Due (s, o) ∧ ¬ Decreases (s, o) := by
  have hwindow' := UInt64.lt_iff_toNat_lt.1 hwindow
  rw [UInt64.toNat_zero] at hwindow'
  constructor
  · rintro ⟨hp, hcounter, -, hgate⟩
    have hle := UInt64.le_iff_toNat_le.1 (htime hp)
    rw [UInt64.lt_iff_toNat_lt, interval_toNat (htime hp)] at hgate
    refine ⟨⟨hp, ?_⟩, fun hd => hcounter hd.2⟩
    simp only at hgate ⊢
    omega
  · rintro ⟨⟨hp, hdue⟩, hd⟩
    have hint := interval_toNat (htime hp)
    refine ⟨hp, fun hlt => hd ⟨hp, hlt⟩, ?_, ?_⟩
    · intro hzero
      rw [← UInt64.toNat_inj, hint, UInt64.toNat_zero] at hzero
      simp only at hdue hzero
      omega
    · intro hgate
      rw [UInt64.lt_iff_toNat_lt, hint] at hgate
      simp only at hdue hgate
      omega

/-! ## Rounding -/

theorem rateOf_nonneg (x : Step) : 0 ≤ rateOf x := by
  unfold rateOf instant
  positivity

/-- Below `2 ^ 63` the published number is the rounded rate. -/
theorem perSec_toNat {r : ℚ} (h₀ : 0 ≤ r) (h : r < 2 ^ 63) :
    ((perSec r).toNat : ℤ) = ⌊r + 1 / 2⌋ := by
  have hfloor₀ : 0 ≤ ⌊r + 1 / 2⌋ := Int.floor_nonneg.2 (by linarith)
  have hfloor : ⌊r + 1 / 2⌋ < 2 ^ 64 := by
    rw [Int.floor_lt]
    push_cast
    linarith
  unfold perSec llround
  rw [if_pos h₀, UInt64.ofInt, UInt64.toNat_ofNat']
  omega

/-- Rounding keeps the order. -/
theorem perSec_mono {r q : ℚ} (h₀ : 0 ≤ r) (hrq : r ≤ q) (h : q < 2 ^ 63) : perSec r ≤ perSec q := by
  have hr := perSec_toNat h₀ (hrq.trans_lt h)
  have hq := perSec_toNat (h₀.trans hrq) h
  have hfloor : ⌊r + 1 / 2⌋ ≤ ⌊q + 1 / 2⌋ := Int.floor_le_floor (by linarith)
  rw [UInt64.le_iff_toNat_le]
  omega

/-- A function that keeps the order of the values keeps what lies between them. -/
theorem Between.map {α β : Type*} [LE α] [LE β] {f : α → β} {S : Set α}
    {l : List α} {x : α} (hf : ∀ a ∈ S, ∀ b ∈ S, a ≤ b → f a ≤ f b) (hl : ∀ a ∈ l, a ∈ S) (hx : x ∈ S)
    (h : Between l x) : Between (l.map f) (f x) := by
  obtain ⟨lo, hi, hlo, hhi, hlox, hxhi⟩ := h
  refine ⟨f lo, f hi, ⟨List.mem_map_of_mem hlo.1, ?_⟩, ⟨List.mem_map_of_mem hhi.1, ?_⟩,
    hf lo (hl lo hlo.1) x hx hlox, hf x hx hi (hl hi hhi.1) hxhi⟩
  · intro y hy
    obtain ⟨a, ha, rfl⟩ := List.mem_map.1 hy
    exact hf lo (hl lo hlo.1) a (hl a ha) (hlo.2 ha)
  · intro y hy
    obtain ⟨a, ha, rfl⟩ := List.mem_map.1 hy
    exact hf a (hl a ha) hi (hl hi hhi.1) (hhi.2 ha)

/-! ## Smoothing -/

/-- The smoother has averaged the windows `ws`. -/
structure Smoothing (config : RateSmootherConfig) (ws : List RateWindow)
    (s : WindowedEwmaRateSmoother) : Prop where
  config_eq : s.config = config
  average_eq : s.average = ewma config.alpha (ws.map RateWindow.rate)
  valid_iff : s.last_snapshot.valid = true ↔ ws ≠ []
  published : s.last_snapshot.valid = true → s.last_snapshot.smoothed_per_sec = perSec s.smoothed
  raws : ∀ w ∈ ws, 0 ≤ w.rate ∧ w.raw_per_sec = perSec w.rate

theorem Smoothing.new (config : RateSmootherConfig) : Smoothing config [] (new config) where
  config_eq := rfl
  average_eq := rfl
  valid_iff := by simp [WindowedEwmaRateSmoother.new, WindowedEwmaRateSmoother.reset]
  published := fun h => by cases h
  raws := by simp

theorem Smoothing.step (h : Smoothing config ws s) (o : Observation) :
    Smoothing config (if Decreases (s, o) then [] else ws ++ (window? (s, o)).toList) (step s o) := by
  by_cases hp : s.has_prev = true
  · by_cases hd : Decreases (s, o)
    · rw [if_pos hd, step_decreases hd, ← h.config_eq]
      exact ⟨rfl, rfl, by simp [reset], fun hv => (by cases hv), by simp⟩
    · rw [if_neg hd]
      by_cases hu : Updates (s, o)
      · have hewma : some (pull s.config.alpha s.average (rateOf (s, o))) =
            ewma config.alpha ((ws ++ (window? (s, o)).toList).map RateWindow.rate) := by
          rw [window?_updates hu, Option.toList_some, List.map_append, List.map_singleton, ewma_concat,
            h.average_eq, h.config_eq]
        rw [step_updates hu]
        refine ⟨h.config_eq, hewma, ?_, fun _ => rfl, ?_⟩
        · rw [window?_updates hu]
          simp
        · intro w hw
          rw [window?_updates hu] at hw
          rcases List.mem_append.1 hw with hw | hw
          · exact h.raws w hw
          · obtain rfl := List.mem_singleton.1 hw
            exact ⟨rateOf_nonneg _, rfl⟩
      · rw [step_ignored hp hd hu, window?_eq_none hu, Option.toList_none, List.append_nil]
        exact h
  · have hp' := eq_false_of_ne_true hp
    rw [if_neg (not_decreases_first hp'), window?_eq_none (not_updates_first hp'), Option.toList_none,
      List.append_nil, step_first hp']
    exact ⟨h.config_eq, h.average_eq, h.valid_iff, h.published, h.raws⟩

theorem smoothing (config : RateSmootherConfig) (l : List Observation) :
    Smoothing config (current config l) (observeAll config l) := by
  induction l using List.reverseRecOn with
  | nil => exact Smoothing.new config
  | append_singleton l o ih =>
    rw [current_concat, observeAll_concat]
    exact ih.step o

theorem measured_concat (config : RateSmootherConfig) (l : List Observation) (o : Observation) :
    Measured config (l ++ [o]) ↔ ¬ Decreases (observeAll config l, o) ∧
      (Measured config l ∨ Due (observeAll config l, o)) := by
  unfold Measured
  rw [calls_concat]
  constructor
  · rintro ⟨before, x, after, heq, hdue, hd, hafter⟩
    rcases List.eq_nil_or_concat after with rfl | ⟨after, y, rfl⟩
    · obtain ⟨-, hx⟩ := List.append_inj' heq rfl
      obtain rfl := (List.cons.inj hx).1
      exact ⟨hd, Or.inr hdue⟩
    · have heq' : calls config l ++ [(observeAll config l, o)] = (before ++ x :: after) ++ [y] := by
        rw [heq, List.append_assoc, List.cons_append, List.concat_eq_append]
      obtain ⟨hl, hy⟩ := List.append_inj' heq' rfl
      obtain rfl := (List.cons.inj hy).1
      rw [List.concat_eq_append] at hafter
      exact ⟨hafter _ (List.mem_append_right _ (List.mem_singleton.2 rfl)),
        Or.inl ⟨before, x, after, hl, hdue, hd, fun y hy => hafter y (List.mem_append_left _ hy)⟩⟩
  · rintro ⟨hd, ⟨before, x, after, heq, hdue, hdx, hafter⟩ | hdue⟩
    · refine ⟨before, x, after ++ [(observeAll config l, o)], ?_, hdue, hdx, ?_⟩
      · rw [heq, List.append_assoc, List.cons_append]
      · intro y hy
        rcases List.mem_append.1 hy with hy | hy
        · exact hafter y hy
        · obtain rfl := List.mem_singleton.1 hy
          exact hd
    · exact ⟨calls config l, _, [], rfl, hdue, hd, fun y hy => by cases hy⟩

/-- Times that do not go back: a rate has been measured when there is a window. -/
theorem measured_iff (hwindow : 0 < config.window_ms)
    (hl : l.Pairwise fun o p => o.now_ms ≤ p.now_ms) : Measured config l ↔ current config l ≠ [] := by
  induction l using List.reverseRecOn with
  | nil =>
    constructor
    · rintro ⟨before, x, after, heq, -⟩
      exact absurd heq.symm (List.append_ne_nil_of_right_ne_nil _ (List.cons_ne_nil x after))
    · intro h
      exact absurd rfl h
  | append_singleton l o ih =>
    have ih := ih (List.pairwise_append.1 hl).1
    have hwindow' : 0 < (observeAll config l).config.window_ms := by
      rw [observeAll_config]
      exact hwindow
    have hu := updates_iff hwindow' (base_rel hl)
    rw [measured_concat, current_concat, ih]
    by_cases hd : Decreases (observeAll config l, o)
    · simp [hd]
    · rw [if_neg hd]
      by_cases hup : Updates (observeAll config l, o)
      · rw [window?_updates hup]
        simp [hd, (hu.1 hup).1]
      · have hdue : ¬ Due (observeAll config l, o) := fun hdue => hup (hu.2 ⟨hdue, hd⟩)
        rw [window?_eq_none hup]
        simp [hd, hdue]

/-- The average is between the least and the greatest of the rates it is made of. -/
theorem Smoothing.between (h : Smoothing config ws s) (h₀ : 0 ≤ config.alpha) (h₁ : config.alpha ≤ 1)
    (hv : s.last_snapshot.valid = true) : Between (ws.map RateWindow.rate) s.smoothed := by
  have hne : ws.map RateWindow.rate ≠ [] := fun hnil => h.valid_iff.1 hv (List.map_eq_nil_iff.1 hnil)
  obtain ⟨lo, hi, hlo, hhi⟩ := exists_isLeast_isGreatest hne
  have hmem : s.smoothed ∈ ewma config.alpha (ws.map RateWindow.rate) := by
    rw [← h.average_eq, average, if_pos hv]
    rfl
  obtain ⟨hle, hge⟩ := ewma_mem_Icc h₀ h₁ hlo hhi hmem
  exact ⟨lo, hi, hlo, hhi, hle, hge⟩

/-- What is published lies between what has been measured, for rates below `2 ^ 63`. -/
theorem smooths (hwindow : 0 < config.window_ms) (h₀ : 0 < config.alpha) (h₁ : config.alpha ≤ 1)
    (hl : l.Pairwise fun o p => o.now_ms ≤ p.now_ms)
    (hrates : ∀ w ∈ windows config l, w.rate < 2 ^ 63) : Smooths config l := by
  have hs := smoothing config l
  have hraws : (current config l).map RateWindow.raw_per_sec =
      ((current config l).map RateWindow.rate).map perSec := by
    rw [List.map_map]
    exact List.map_congr_left fun w hw => (hs.raws w hw).2
  have hrange : ∀ r ∈ (current config l).map RateWindow.rate, r ∈ Set.Ico (0 : ℚ) (2 ^ 63) := by
    intro r hr
    obtain ⟨w, hw, rfl⟩ := List.mem_map.1 hr
    exact ⟨(hs.raws w hw).1, hrates w (current_subset config l hw)⟩
  refine ⟨hs.valid_iff.trans (measured_iff hwindow hl).symm, hs.between h₀.le h₁, fun hv => ?_⟩
  have hbetween := hs.between h₀.le h₁ hv
  obtain ⟨lo, hi, hlo, hhi, hle, hge⟩ := id hbetween
  have hmem : (observeAll config l).smoothed ∈ Set.Ico (0 : ℚ) (2 ^ 63) :=
    ⟨(hrange lo hlo.1).1.trans hle, hge.trans_lt (hrange hi hhi.1).2⟩
  have hpublished : (observeAll config l).snapshot.smoothed_per_sec =
      perSec (observeAll config l).smoothed := hs.published hv
  rw [hraws, hpublished]
  exact hbetween.map (fun a ha b hb hab => perSec_mono ha.1 hab hb.2) hrange hmem

/-- The bursts of the tests. -/
theorem smooths_bursts : Smooths {} [⟨100, 0⟩, ⟨101, 1000⟩, ⟨151, 2000⟩, ⟨151, 2500⟩, ⟨152, 3000⟩] :=
  smooths (by decide) (by norm_num) (by norm_num) (by decide) (by decide +kernel)

/-- A counter that decreases, but not below the base, leaves the snapshot as it is. -/
theorem valid_after_decrease :
    let l : List Observation := [⟨100, 0⟩, ⟨200, 1000⟩, ⟨250, 1500⟩]
    let decreased : Observation := ⟨220, 1600⟩
    ((l ++ [decreased]).Pairwise fun o p => o.now_ms ≤ p.now_ms) ∧
      (∀ w ∈ windows {} (l ++ [decreased]), w.rate < 2 ^ 63) ∧
      (∀ o ∈ l.getLast?, decreased.counter < o.counter) ∧
      (observeAll {} (l ++ [decreased])).snapshot.valid = true := by
  decide +kernel

/-! ## Accounting -/

/-- The windows `ws` lead to the base, each at least `window_ms` wide and with the rate of its interval. -/
structure Tiling (config : RateSmootherConfig) (first : Observation) (ws : List RateWindow)
    (s : WindowedEwmaRateSmoother) : Prop where
  config_eq : s.config = config
  has_prev : s.has_prev = true
  tiles : Tiles first (ws.map RateWindow.span) s.base
  ordered : ∀ w ∈ ws, w.base.now_ms ≤ w.upto.now_ms
  wide : ∀ w ∈ ws, (config.window_ms.toNat : ℤ) ≤ w.elapsed
  rate : ∀ w ∈ ws,
    w.rate * (w.elapsed : ℚ) = 1000 * ((w.upto.counter.toNat : ℚ) - w.base.counter.toNat)

/-- With counter and clock not behind the base, a rate times its interval is what was counted. -/
theorem rateOf_mul_elapsed (hcounter : s.prev_counter ≤ o.counter) (htime : s.prev_time_ms ≤ o.now_ms)
    (hu : Updates (s, o)) :
    rateOf (s, o) * (((o.now_ms.toNat : ℤ) - s.prev_time_ms.toNat : ℤ) : ℚ) =
      1000 * ((o.counter.toNat : ℚ) - s.prev_counter.toNat) := by
  have hcle := UInt64.le_iff_toNat_le.1 hcounter
  have htle := UInt64.le_iff_toNat_le.1 htime
  have hinterval := interval_toNat htime
  have hne : ((o.now_ms.toNat : ℚ) - s.prev_time_ms.toNat) ≠ 0 := by
    intro hzero
    apply hu.2.2.1
    have heq : (o.now_ms.toNat : ℚ) = s.prev_time_ms.toNat := sub_eq_zero.1 hzero
    have heq' : o.now_ms.toNat = s.prev_time_ms.toNat := Nat.cast_injective heq
    rw [← UInt64.toNat_inj, hinterval, heq', Nat.sub_self, UInt64.toNat_zero]
  unfold rateOf instant
  simp only
  rw [hinterval, UInt64.toNat_sub_of_le _ _ hcounter, Nat.cast_sub hcle, Nat.cast_sub htle]
  push_cast
  field_simp

theorem Tiling.step (h : Tiling config first ws s) (hcounter : s.prev_counter ≤ o.counter)
    (htime : s.prev_time_ms ≤ o.now_ms) :
    Tiling config first (ws ++ (window? (s, o)).toList) (step s o) := by
  have hd : ¬ Decreases (s, o) := fun hd => absurd hcounter (UInt64.not_le.2 hd.2)
  by_cases hu : Updates (s, o)
  · have hgate := hu.2.2.2
    rw [UInt64.lt_iff_toNat_lt, interval_toNat htime, h.config_eq] at hgate
    have hle := UInt64.le_iff_toNat_le.1 htime
    have hlast : ∀ w ∈ ([⟨s.base, o, rateOf (s, o), perSec (rateOf (s, o))⟩] : List RateWindow),
        w.base.now_ms ≤ w.upto.now_ms ∧ (config.window_ms.toNat : ℤ) ≤ w.elapsed ∧
          w.rate * (w.elapsed : ℚ) =
            1000 * ((w.upto.counter.toNat : ℚ) - w.base.counter.toNat) := by
      intro w hw
      obtain rfl := List.mem_singleton.1 hw
      refine ⟨htime, ?_, rateOf_mul_elapsed hcounter htime hu⟩
      unfold RateWindow.elapsed base
      simp only at hgate ⊢
      omega
    rw [window?_updates hu, Option.toList_some]
    refine ⟨?_, ?_, ?_, ?_, ?_, ?_⟩
    · rw [step_config, h.config_eq]
    · exact (step_base s o).1
    · rw [List.map_append, List.map_singleton, step_updates hu]
      exact h.tiles.concat o
    · exact List.forall_mem_append.2 ⟨h.ordered, fun w hw => (hlast w hw).1⟩
    · exact List.forall_mem_append.2 ⟨h.wide, fun w hw => (hlast w hw).2.1⟩
    · exact List.forall_mem_append.2 ⟨h.rate, fun w hw => (hlast w hw).2.2⟩
  · rw [step_ignored h.has_prev hd hu, window?_eq_none hu, Option.toList_none, List.append_nil]
    exact h

theorem tiling (config : RateSmootherConfig)
    (hcounter : (first :: l).Pairwise fun o p => o.counter ≤ p.counter)
    (htime : (first :: l).Pairwise fun o p => o.now_ms ≤ p.now_ms) :
    Tiling config first (windows config (first :: l)) (observeAll config (first :: l)) := by
  induction l using List.reverseRecOn with
  | nil =>
    have hfirst : (new config).has_prev = false := rfl
    have hwindows : windows config [first] = [] := by
      rw [← List.nil_append [first], windows_concat, observeAll_nil,
        window?_eq_none (not_updates_first hfirst)]
      rfl
    rw [hwindows, ← List.nil_append [first], observeAll_concat, observeAll_nil, step_first hfirst]
    exact ⟨rfl, rfl, .nil first, by simp, by simp, by simp⟩
  | append_singleton l o ih =>
    rw [← List.cons_append] at hcounter htime ⊢
    have ih := ih (List.pairwise_append.1 hcounter).1 (List.pairwise_append.1 htime).1
    rw [windows_concat, observeAll_concat]
    exact ih.step (base_rel hcounter ih.has_prev) (base_rel htime ih.has_prev)

/-- The windows of a run lose nothing and count nothing twice, and what is published are their rates. -/
theorem accounts (config : RateSmootherConfig)
    (hcounter : (first :: l).Pairwise fun o p => o.counter ≤ p.counter)
    (htime : (first :: l).Pairwise fun o p => o.now_ms ≤ p.now_ms) :
    Accounts config first (windows config (first :: l))
      (((windows config (first :: l)).getLast?.map RateWindow.upto).getD first) ∧
      ∀ x ∈ calls config (first :: l), Publishes x := by
  refine ⟨?_, fun x _ => publishes x⟩
  have h := tiling config hcounter htime
  have hlast : ((windows config (first :: l)).getLast?.map RateWindow.upto).getD first =
      (observeAll config (first :: l)).base := by
    rw [← h.tiles.last_eq, List.getLast?_map, Option.map_map]
    rfl
  have hordered : ∀ x ∈ (windows config (first :: l)).map RateWindow.span,
      x.1.now_ms.toNat ≤ x.2.now_ms.toNat :=
    List.forall_mem_map.2 fun w hw => UInt64.le_iff_toNat_le.1 (h.ordered w hw)
  rw [hlast]
  refine ⟨h.tiles, h.wide, ?_, ?_, ?_⟩
  · have hpairs := h.tiles.pairwise (g := fun o => o.now_ms.toNat) hordered
    exact (List.pairwise_map.1 hpairs).imp UInt64.le_iff_toNat_le.2
  · intro t
    have hcovers := h.tiles.mem_iff (g := fun o => o.now_ms.toNat) hordered t.toNat
    simp only [List.mem_map, exists_exists_and_eq_and] at hcovers
    simp only [UInt64.le_iff_toNat_le, UInt64.lt_iff_toNat_lt]
    exact hcovers
  · calc ((windows config (first :: l)).map fun w => w.rate * (w.elapsed : ℚ)).sum
        = ((windows config (first :: l)).map RateWindow.span |>.map fun x =>
            1000 * (x.2.counter.toNat : ℚ) - 1000 * x.1.counter.toNat).sum := by
          rw [List.map_map]
          refine congrArg List.sum (List.map_congr_left fun w hw => ?_)
          rw [h.rate w hw, mul_sub]
          rfl
      _ = 1000 * ((observeAll config (first :: l)).base.counter.toNat : ℚ) -
            1000 * first.counter.toNat :=
          h.tiles.sum_sub fun o => 1000 * (o.counter.toNat : ℚ)
      _ = 1000 * (((observeAll config (first :: l)).base.counter.toNat : ℚ) - first.counter.toNat) :=
          (mul_sub _ _ _).symm

theorem accounts_traffic : Accounts {} ⟨100, 0⟩
    (windows {} [⟨100, 0⟩, ⟨150, 400⟩, ⟨200, 1000⟩, ⟨300, 2500⟩, ⟨310, 2600⟩])
      (((windows {} [⟨100, 0⟩, ⟨150, 400⟩, ⟨200, 1000⟩, ⟨300, 2500⟩, ⟨310, 2600⟩]).getLast?.map
        RateWindow.upto).getD ⟨100, 0⟩) ∧
    ∀ x ∈ calls {} [⟨100, 0⟩, ⟨150, 400⟩, ⟨200, 1000⟩, ⟨300, 2500⟩, ⟨310, 2600⟩], Publishes x :=
  accounts {} (by decide) (by decide)

/-! ## Clocks that step backwards -/

theorem keepsTime_iff (hd : ¬ Decreases x) : KeepsTime x ↔ ClockAhead x := by
  obtain ⟨s, o⟩ := x
  by_cases hp : s.has_prev = true
  · rcases UInt64.le_or_lt s.prev_time_ms o.now_ms with htime | htime
    · have hahead : ClockAhead (s, o) := fun _ => Or.inl htime
      refine iff_of_true ⟨?_, ?_, publishes _⟩ hahead
      · intro w hw
        obtain ⟨hu, rfl⟩ := mem_window?.1 hw
        have hgate := hu.2.2.2
        have hle := UInt64.le_iff_toNat_le.1 htime
        rw [UInt64.lt_iff_toNat_lt, interval_toNat htime] at hgate
        unfold RateWindow.elapsed base
        simp only at hgate ⊢
        omega
      · intro _ _
        by_cases hu : Updates (s, o)
        · rw [step_updates hu]
          exact htime
        · rw [step_ignored hp hd hu]
          exact UInt64.le_refl _
    · have hlt := UInt64.lt_iff_toNat_lt.1 htime
      have hint := interval_toNat_of_lt htime
      have hnow := o.now_ms.toNat_lt
      have hprev := s.prev_time_ms.toNat_lt
      by_cases hu : Updates (s, o)
      · -- the wrapped interval is not shorter than a window
        refine iff_of_false (fun h => ?_) (fun h => ?_)
        · have hwide := h.wide _ (mem_window?.2 ⟨hu, rfl⟩)
          unfold RateWindow.elapsed base at hwide
          simp only at hwide
          omega
        · have hgate := hu.2.2.2
          rw [UInt64.lt_iff_toNat_lt, hint] at hgate
          simp only at hgate
          rcases h hp with h | h
          · exact absurd htime (UInt64.not_lt.2 h)
          · simp only at h
            omega
      · have hgate : o.now_ms - s.prev_time_ms < s.config.window_ms := by
          by_contra hgate
          refine hu ⟨hp, fun hc => hd ⟨hp, hc⟩, fun hzero => ?_, hgate⟩
          rw [← UInt64.toNat_inj, hint, UInt64.toNat_zero] at hzero
          omega
        rw [UInt64.lt_iff_toNat_lt, hint] at hgate
        refine iff_of_true ⟨fun w hw => ?_, fun _ _ => ?_, publishes _⟩ (fun _ => Or.inr ?_)
        · rw [window?_eq_none hu] at hw
          cases hw
        · rw [step_ignored hp hd hu]
          exact UInt64.le_refl _
        · simp only
          omega
  · have hp' := eq_false_of_ne_true hp
    refine iff_of_true ⟨fun w hw => ?_, fun h => absurd h hp, publishes _⟩ (fun h => absurd h hp)
    rw [window?_eq_none (not_updates_first hp')] at hw
    cases hw

/-- With counters that do not decrease no call finds a base above its counter. -/
theorem not_decreases (hl : l.Pairwise fun o p => o.counter ≤ p.counter) :
    ∀ x ∈ calls config l, ¬ Decreases x := by
  induction l using List.reverseRecOn with
  | nil => exact fun x hx => by cases hx
  | append_singleton l o ih =>
    rw [calls_concat]
    refine List.forall_mem_append.2 ⟨ih (List.pairwise_append.1 hl).1, fun x hx => ?_⟩
    obtain rfl := List.mem_singleton.1 hx
    exact fun hd => absurd (base_rel hl hd.1) (UInt64.not_le.2 hd.2)

/-- Rates are computed over whole windows as long as the clock is not behind the base. -/
theorem keepsTime_forall_iff (hl : l.Pairwise fun o p => o.counter ≤ p.counter) :
    (∀ x ∈ calls config l, KeepsTime x) ↔ ∀ x ∈ calls config l, ClockAhead x :=
  forall₂_congr fun x hx => keepsTime_iff (not_decreases hl x hx)

theorem keepsTime_forall_iff_traffic :
    (∀ x ∈ calls {} [⟨0, 1000⟩, ⟨10, 2000⟩], KeepsTime x) ↔
      ∀ x ∈ calls {} [⟨0, 1000⟩, ⟨10, 2000⟩], ClockAhead x :=
  keepsTime_forall_iff (by decide)

/-- A clock that has stepped back by a tenth of a second: the wrapped interval is taken for a whole window, a
rate is published for it, and the base goes back. -/
theorem updates_backwards :
    let l : List Observation := [⟨0, 1000⟩, ⟨10, 900⟩]
    (l.Pairwise fun o p => o.counter ≤ p.counter) ∧
      (observeAll {} l).snapshot = { valid := true } ∧ (observeAll {} l).prev_time_ms = 900 ∧
      ¬ ∀ x ∈ calls {} l, KeepsTime x := by
  intro l
  refine ⟨by decide, by decide +kernel, by decide +kernel, fun h => ?_⟩
  have hcall : (observeAll {} [⟨0, 1000⟩], (⟨10, 900⟩ : Observation)) ∈ calls {} l :=
    List.mem_cons_of_mem _ List.mem_cons_self
  have hupdates : Updates (observeAll {} [⟨0, 1000⟩], ⟨10, 900⟩) := by decide
  have hwide := (h _ hcall).wide _ (mem_window?.2 ⟨hupdates, rfl⟩)
  unfold RateWindow.elapsed at hwide
  revert hwide
  decide

end WindowedEwmaRateSmoother

end EdgeNetSwitch
