import Mathlib.Data.List.Basic
import Mathlib.Order.Basic

/-!
# Runs of a machine

A machine is a partial function from labels and states to states; a label holds all that its step takes
from outside. A run is restricted to the steps that meet `φ`, a condition on the state before the step and
its label.
-/

namespace Runs

variable {σ ℓ : Type*}

/-- The machine goes from the first state to the last by steps with these labels, each of which meets `φ`. -/
inductive Run (step : ℓ → σ → Option σ) (φ : σ → ℓ → Prop) : σ → List ℓ → σ → Prop where
  | nil (s : σ) : Run step φ s [] s
  | cons {s t u : σ} {l : ℓ} {labels : List ℓ} (hφ : φ s l) (hs : step l s = some t)
      (h : Run step φ t labels u) : Run step φ s (l :: labels) u

/-- The condition every step meets. -/
def anyStep : σ → ℓ → Prop := fun _ _ => True

/-- Go through labels one after the other. -/
def play (step : ℓ → σ → Option σ) (φ : σ → ℓ → Prop) [∀ s l, Decidable (φ s l)] :
    List ℓ → σ → Option σ
  | [], s => some s
  | l :: labels, s => if φ s l then (step l s).bind (play step φ labels) else none

instance (s : σ) (l : ℓ) : Decidable (anyStep s l) := isTrue trivial

variable {step : ℓ → σ → Option σ} {φ : σ → ℓ → Prop} {s t : σ} {labels : List ℓ}

theorem run_of_play [∀ s l, Decidable (φ s l)] (h : play step φ labels s = some t) :
    Run step φ s labels t := by
  induction labels generalizing s with
  | nil =>
    obtain rfl := Option.some.inj h
    exact .nil s
  | cons l labels ih =>
    rw [play] at h
    split_ifs at h with hφ
    obtain ⟨u, hu, hrest⟩ := Option.bind_eq_some_iff.1 h
    exact .cons hφ hu (ih hrest)

namespace Run

theorem append {u : σ} {labels' : List ℓ} (h : Run step φ s labels t) (h' : Run step φ t labels' u) :
    Run step φ s (labels ++ labels') u := by
  induction h with
  | nil => exact h'
  | cons hφ hs _ ih => exact .cons hφ hs (ih h')

theorem mono {ψ : σ → ℓ → Prop} (h : Run step φ s labels t) (hψ : ∀ s l, φ s l → ψ s l) : Run step ψ s labels t := by
  induction h with
  | nil s => exact .nil s
  | cons hφ hs _ ih => exact .cons (hψ _ _ hφ) hs ih

/-- The label of each step is one of those of the run. -/
theorem with_mem (h : Run step φ s labels t) : Run step (fun s l => φ s l ∧ l ∈ labels) s labels t := by
  induction h with
  | nil s => exact .nil s
  | cons hφ hs _ ih =>
    refine .cons ⟨hφ, List.mem_cons_self⟩ hs (ih.mono ?_)
    rintro s l ⟨hφ, hmem⟩
    exact ⟨hφ, List.mem_cons_of_mem _ hmem⟩

/-- What every step keeps holds at the end of a run if it holds at the start. -/
theorem keeps {I : σ → Prop}
    (hstep : ∀ {s t : σ} {l : ℓ}, I s → φ s l → step l s = some t → I t)
    (h : Run step φ s labels t) (hs : I s) : I t := by
  induction h with
  | nil => exact hs
  | cons hφ hs' _ ih => exact ih (hstep hs hφ hs')

/-- The steps that `own` counts bring the machine closer to the goal `G`, and no other step brings it back:
after as many of them as the rank `r` says, it is there. -/
theorem reaches {I G : σ → Prop} {own : ℓ → Bool} {r : σ → ℕ}
    (hkeep : ∀ {s t : σ} {l : ℓ}, I s → φ s l → step l s = some t → I t)
    (hgoal : ∀ {s t : σ} {l : ℓ}, G s → φ s l → step l s = some t → G t)
    (hpos : ∀ {s : σ}, I s → r s = 0 → G s)
    (hcloser : ∀ {s t : σ} {l : ℓ}, I s → φ s l → step l s = some t →
      G t ∨ r t + (if own l then 1 else 0) ≤ r s)
    (h : Run step φ s labels t) (hs : I s) (hcount : r s ≤ labels.countP own) : G t := by
  induction h with
  | nil s => exact hpos hs (Nat.le_zero.1 hcount)
  | cons hφ hstep htail ih =>
    rcases hcloser hs hφ hstep with hthere | hle
    · exact htail.keeps hgoal hthere
    · apply ih (hkeep hs hφ hstep)
      rw [List.countP_cons] at hcount
      omega

/-- If every step that `own` counts lowers the rank, and no step raises it but those that `feed` counts, by `c`
each, the steps of `own` are bounded by the rank at the start and by what has been fed. -/
theorem countP_add_le_fed {I : σ → Prop} {own feed : ℓ → Bool} {c : ℕ} {r : σ → ℕ}
    (hkeep : ∀ {s t : σ} {l : ℓ}, I s → φ s l → step l s = some t → I t)
    (hlower : ∀ {s t : σ} {l : ℓ}, I s → φ s l → step l s = some t →
      r t + (if own l then 1 else 0) ≤ r s + (if feed l then c else 0))
    (h : Run step φ s labels t) (hs : I s) : labels.countP own + r t ≤ r s + c * labels.countP feed := by
  induction h with
  | nil s => exact Nat.le_of_eq (by simp)
  | @cons s u t l labels hφ hstep _ ih =>
    have hrest := ih (hkeep hs hφ hstep)
    have hfirst := hlower hs hφ hstep
    have hfeed : c * (if feed l then 1 else 0) = if feed l then c else 0 := by split_ifs <;> simp
    rw [List.countP_cons, List.countP_cons, Nat.mul_add, hfeed]
    omega

/-- If every step that `own` counts lowers the rank, and no other step raises it, there are no more of them than
the rank says at the start. -/
theorem countP_add_le {I : σ → Prop} {own : ℓ → Bool} {r : σ → ℕ}
    (hkeep : ∀ {s t : σ} {l : ℓ}, I s → φ s l → step l s = some t → I t)
    (hlower : ∀ {s t : σ} {l : ℓ}, I s → φ s l → step l s = some t → r t + (if own l then 1 else 0) ≤ r s)
    (h : Run step φ s labels t) (hs : I s) : labels.countP own + r t ≤ r s := by
  have hfed : labels.countP own + r t ≤ r s + 0 * labels.countP fun _ => false :=
    h.countP_add_le_fed hkeep (fun hs hφ hstep => Nat.le_add_right_of_le (hlower hs hφ hstep)) hs
  rwa [Nat.zero_mul] at hfed

end Run

end Runs
