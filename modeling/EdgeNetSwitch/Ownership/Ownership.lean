import Mathlib.Logic.Basic

/-!
# Exclusive ownership

A relation says who owns what. What nobody owns can be acquired, what is owned can be dropped, and
everything an owner has can move to one that has nothing. Nothing gets two owners in this way.
-/

namespace Ownership

variable {ι ν : Type*} {R R' : ι → ν → Prop}

/-- Nothing has two owners. -/
def Exclusive (R : ι → ν → Prop) : Prop := ∀ i j n, R i n → R j n → i = j

/-- How ownership changes. -/
inductive Step (R R' : ι → ν → Prop) : Prop where
  | idle (h : ∀ x m, R' x m ↔ R x m)
  | acquire (i : ι) (n : ν) (hfree : ∀ x, ¬ R x n) (h : ∀ x m, R' x m ↔ R x m ∨ (x = i ∧ m = n))
  | drop (i : ι) (n : ν) (h : ∀ x m, R' x m ↔ R x m ∧ ¬ (x = i ∧ m = n))
  | move (i j : ι) (h : ∀ x m, R' x m ↔ (x = i ∧ R j m) ∨ (x ≠ i ∧ x ≠ j ∧ R x m))

/-- No step gives anything a second owner. -/
theorem Step.exclusive (hs : Step R R') (hR : Exclusive R) : Exclusive R' := by
  intro x y n hx hy
  cases hs with
  | idle h => exact hR x y n ((h x n).1 hx) ((h y n).1 hy)
  | acquire i m hfree h =>
    rcases (h x n).1 hx with hx | ⟨rfl, rfl⟩
    · rcases (h y n).1 hy with hy | ⟨rfl, rfl⟩
      · exact hR x y n hx hy
      · exact absurd hx (hfree x)
    · rcases (h y n).1 hy with hy | ⟨rfl, -⟩
      · exact absurd hy (hfree y)
      · rfl
  | drop i m h => exact hR x y n ((h x n).1 hx).1 ((h y n).1 hy).1
  | move i j h =>
    rcases (h x n).1 hx with ⟨rfl, hx⟩ | ⟨-, hxj, hx⟩
    · rcases (h y n).1 hy with ⟨rfl, -⟩ | ⟨-, hyj, hy⟩
      · rfl
      · exact absurd (hR y j n hy hx) hyj
    · rcases (h y n).1 hy with ⟨rfl, hy⟩ | ⟨-, -, hy⟩
      · exact absurd (hR x j n hx hy) hxj
      · exact hR x y n hx hy

end Ownership
