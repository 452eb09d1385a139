import Mathlib.Data.List.Forall2
import Mathlib.Order.Basic

/-!
# Observations of something that advances

A quantity goes up from stage to stage while others look at it, and a log holds what they have seen, in the
order in which they looked. `Follows` says that the log fits: each entry shows the quantity at some stage, and
the stages of later entries are not earlier. It is kept when the quantity advances and when somebody looks at
it as it is now, and what any two stages in order imply of what they show holds of any two entries in order
(`Follows.pairwise`).
-/

namespace Observations

variable {ι α : Type*} [Preorder ι] {shows : ι → α → Prop} {now next : ι} {log : List α}

/-- The entries show stages up to `now`, in ascending order. -/
def Follows (shows : ι → α → Prop) (now : ι) (log : List α) : Prop :=
  ∃ stages : List ι, List.Forall₂ shows stages log ∧ stages.Pairwise (· ≤ ·) ∧ ∀ i ∈ stages, i ≤ now

namespace Follows

theorem nil (shows : ι → α → Prop) (now : ι) : Follows shows now [] :=
  ⟨[], .nil, .nil, fun _ h => absurd h List.not_mem_nil⟩

/-- The quantity advances. -/
theorem advance (h : Follows shows now log) (hle : now ≤ next) : Follows shows next log := by
  obtain ⟨stages, hshows, hordered, hnow⟩ := h
  exact ⟨stages, hshows, hordered, fun i hi => (hnow i hi).trans hle⟩

/-- Somebody looks at the quantity. -/
theorem look {a : α} (h : Follows shows now log) (ha : shows now a) : Follows shows now (log ++ [a]) := by
  obtain ⟨stages, hshows, hordered, hnow⟩ := h
  refine ⟨stages ++ [now], List.rel_append hshows (.cons ha .nil), ?_, ?_⟩
  · rw [List.pairwise_append]
    refine ⟨hordered, List.pairwise_singleton _ _, fun i hi j hj => ?_⟩
    rw [List.mem_singleton.1 hj]
    exact hnow i hi
  · intro i hi
    rcases List.mem_append.1 hi with hi | hi
    · exact hnow i hi
    · rw [List.mem_singleton.1 hi]

/-- Every entry shows some stage. -/
theorem exists_stage {a : α} (h : Follows shows now log) (ha : a ∈ log) : ∃ i ≤ now, shows i a := by
  obtain ⟨stages, hshows, -, hnow⟩ := h
  induction hshows with
  | nil => exact absurd ha List.not_mem_nil
  | @cons i b stages log hshow _ ih =>
    rcases List.mem_cons.1 ha with rfl | ha
    · exact ⟨i, hnow i List.mem_cons_self, hshow⟩
    · exact ih ha fun j hj => hnow j (List.mem_cons_of_mem i hj)

/-- What two stages in order imply holds of two entries in order. -/
theorem pairwise {R : α → α → Prop} (h : Follows shows now log)
    (hR : ∀ i j a b, i ≤ j → j ≤ now → shows i a → shows j b → R a b) : log.Pairwise R := by
  obtain ⟨stages, hshows, hordered, hnow⟩ := h
  induction hshows with
  | nil => exact .nil
  | @cons i a stages log hshow htail ih =>
    obtain ⟨hfirst, hrest⟩ := List.pairwise_cons.1 hordered
    refine List.pairwise_cons.2 ⟨fun b hb => ?_, ih hrest fun j hj => hnow j (List.mem_cons_of_mem i hj)⟩
    obtain ⟨n, hn, rfl⟩ := List.getElem_of_mem hb
    have hn' : n < stages.length := htail.length_eq ▸ hn
    have hmem : stages[n] ∈ stages := List.getElem_mem hn'
    exact hR i stages[n] a _ (hfirst _ hmem) (hnow _ (List.mem_cons_of_mem i hmem)) hshow (htail.get hn' hn)

end Follows

end Observations
