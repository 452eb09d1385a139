import Mathlib.Analysis.Convex.Basic
import Mathlib.Data.Finset.Max

/-!
# Exponentially weighted averages

Each value pulls the average towards it by the fraction `α` of the distance. With `α` between 0 and 1 the
average stays in every convex set that has the values, so between the least and the greatest of them.
-/

namespace Averages

section Average

variable {K : Type*} [Ring K]

/-- One more value. -/
def pull (α : K) (average : Option K) (x : K) : K :=
  match average with
  | none => x
  | some a => α * x + (1 - α) * a

/-- The average of the values of a list; there is none of an empty list. -/
def ewma (α : K) (l : List K) : Option K := l.foldl (fun average x => some (pull α average x)) none

@[simp] theorem ewma_nil (α : K) : ewma α [] = none := rfl

theorem ewma_concat (α : K) (l : List K) (x : K) : ewma α (l ++ [x]) = some (pull α (ewma α l) x) := by
  unfold ewma
  rw [List.foldl_append]
  rfl

end Average

/-- A list with a value has a least and a greatest one. -/
theorem exists_isLeast_isGreatest {K : Type*} [LinearOrder K] {l : List K} (hne : l ≠ []) :
    ∃ lo hi, IsLeast {x | x ∈ l} lo ∧ IsGreatest {x | x ∈ l} hi := by
  have hne' : l.toFinset.Nonempty := (List.toFinset_nonempty_iff l).2 hne
  have hlo := l.toFinset.isLeast_min' hne'
  have hhi := l.toFinset.isGreatest_max' hne'
  rw [List.coe_toFinset] at hlo hhi
  exact ⟨_, _, hlo, hhi⟩

section Bounds

variable {K : Type*} [CommRing K] [LinearOrder K] [IsStrictOrderedRing K] {α x a : K} {l : List K}
  {S : Set K}

theorem pull_mem (hS : Convex K S) (h₀ : 0 ≤ α) (h₁ : α ≤ 1) {average : Option K}
    (ha : ∀ a ∈ average, a ∈ S) (hx : x ∈ S) : pull α average x ∈ S := by
  cases average with
  | none => exact hx
  | some a => exact hS hx (ha a rfl) h₀ (sub_nonneg.2 h₁) (add_sub_cancel α 1)

/-- The average is in every convex set that has all values. -/
theorem ewma_mem (hS : Convex K S) (h₀ : 0 ≤ α) (h₁ : α ≤ 1) (hl : ∀ x ∈ l, x ∈ S)
    (ha : a ∈ ewma α l) : a ∈ S := by
  induction l using List.reverseRecOn generalizing a with
  | nil => cases ha
  | append_singleton l x ih =>
    rw [ewma_concat] at ha
    obtain rfl := Option.some.inj ha
    have hbefore : ∀ a ∈ ewma α l, a ∈ S := fun a ha =>
      ih (fun y hy => hl y (List.mem_append_left _ hy)) ha
    exact pull_mem hS h₀ h₁ hbefore (hl x (by simp))

/-- The average lies between the least and the greatest value. -/
theorem ewma_mem_Icc (h₀ : 0 ≤ α) (h₁ : α ≤ 1) {lo hi : K} (hlo : IsLeast {x | x ∈ l} lo)
    (hhi : IsGreatest {x | x ∈ l} hi) (ha : a ∈ ewma α l) : a ∈ Set.Icc lo hi :=
  ewma_mem (convex_Icc lo hi) h₀ h₁ (fun _ hx => ⟨hlo.2 hx, hhi.2 hx⟩) ha

end Bounds

end Averages
