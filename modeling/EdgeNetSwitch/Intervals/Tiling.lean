import Mathlib.Algebra.BigOperators.Group.List.Basic
import Mathlib.Algebra.Group.Basic
import Mathlib.Order.Lattice

/-!
# Intervals that follow one another

A list of intervals that leads from one point to another without a gap. A quantity that is a difference
over each interval adds up to the difference over the whole, and if the points are on an axis, and no
interval runs backwards, the intervals are disjoint and cover what lies between the two points.
-/

namespace Intervals

variable {α : Type*} {a b c : α} {l l' : List (α × α)}

/-- The intervals lead from the first point to the last, each from where the one before it ends. -/
inductive Tiles : α → List (α × α) → α → Prop where
  | nil (a : α) : Tiles a [] a
  | cons {a b c : α} {l : List (α × α)} (h : Tiles b l c) : Tiles a ((a, b) :: l) c

namespace Tiles

theorem append (h : Tiles a l b) (h' : Tiles b l' c) : Tiles a (l ++ l') c := by
  induction h with
  | nil => exact h'
  | cons _ ih => exact .cons (ih h')

theorem concat (h : Tiles a l b) (c : α) : Tiles a (l ++ [(b, c)]) c := h.append (.cons (.nil c))

/-- The last interval ends at the last point. -/
theorem last_eq (h : Tiles a l b) : (l.getLast?.map Prod.snd).getD a = b := by
  induction h with
  | nil a => rfl
  | @cons a b c l h ih =>
    rw [← ih, List.getLast?_cons]
    cases l.getLast? <;> rfl

/-- Differences telescope. -/
theorem sum_sub {M : Type*} [AddCommGroup M] (h : Tiles a l b) (f : α → M) :
    (l.map fun x => f x.2 - f x.1).sum = f b - f a := by
  induction h with
  | nil a => rw [List.map_nil, List.sum_nil, sub_self]
  | @cons a b c l h ih =>
    rw [List.map_cons, List.sum_cons, ih, add_comm]
    exact sub_add_sub_cancel (f c) (f b) (f a)

section Axis

variable {β : Type*} [LinearOrder β] {g : α → β}

theorem le (h : Tiles a l b) (hl : ∀ x ∈ l, g x.1 ≤ g x.2) : g a ≤ g b := by
  induction h with
  | nil a => exact le_refl _
  | cons _ ih =>
    rw [List.forall_mem_cons] at hl
    exact hl.1.trans (ih hl.2)

/-- Every interval begins after the first point. -/
theorem le_fst (h : Tiles a l b) (hl : ∀ x ∈ l, g x.1 ≤ g x.2) : ∀ x ∈ l, g a ≤ g x.1 := by
  induction h with
  | nil a => simp
  | cons _ ih =>
    rw [List.forall_mem_cons] at hl ⊢
    exact ⟨le_refl _, fun x hx => hl.1.trans (ih hl.2 x hx)⟩

/-- No interval begins before those in front of it have ended. -/
theorem pairwise (h : Tiles a l b) (hl : ∀ x ∈ l, g x.1 ≤ g x.2) :
    l.Pairwise fun x y => g x.2 ≤ g y.1 := by
  induction h with
  | nil a => exact List.Pairwise.nil
  | cons h ih =>
    rw [List.forall_mem_cons] at hl
    exact List.Pairwise.cons (h.le_fst hl.2) (ih hl.2)

/-- What lies between the two points lies in one of the intervals. -/
theorem mem_iff (h : Tiles a l b) (hl : ∀ x ∈ l, g x.1 ≤ g x.2) (t : β) :
    (g a ≤ t ∧ t < g b) ↔ ∃ x ∈ l, g x.1 ≤ t ∧ t < g x.2 := by
  induction h with
  | nil a =>
    constructor
    · rintro ⟨h₁, h₂⟩
      exact absurd h₂ (not_lt.2 h₁)
    · rintro ⟨x, hx, -⟩
      cases hx
  | @cons a b c l h ih =>
    rw [List.forall_mem_cons] at hl
    have hbc := h.le hl.2
    constructor
    · rintro ⟨h₁, h₂⟩
      by_cases hb : t < g b
      · exact ⟨(a, b), List.mem_cons_self, h₁, hb⟩
      · obtain ⟨x, hx, hxt⟩ := (ih hl.2).1 ⟨not_lt.1 hb, h₂⟩
        exact ⟨x, List.mem_cons_of_mem _ hx, hxt⟩
    · rintro ⟨x, hx, hxt⟩
      rcases List.mem_cons.1 hx with rfl | hx
      · exact ⟨hxt.1, lt_of_lt_of_le hxt.2 hbc⟩
      · obtain ⟨h₁, h₂⟩ := (ih hl.2).2 ⟨x, hx, hxt⟩
        exact ⟨hl.1.trans h₁, h₂⟩

end Axis

end Tiles

end Intervals
