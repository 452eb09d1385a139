import Mathlib.Data.List.Destutter

/-!
# The changes of a sequence

The values of a sequence with runs of equal values contracted to one, `List.destutter (· ≠ ·)`, at the end
of the list: a sequence that grows gains a change when the new value is not the last one.
-/

namespace Runs

variable {α : Type*} [DecidableEq α]

/-- The first value of a sequence, and each value that is not the one before it. -/
def changes (l : List α) : List α := l.destutter (· ≠ ·)

@[simp] theorem changes_nil : changes ([] : List α) = [] := rfl

theorem destutter'_concat (a b : α) (l : List α) :
    (l ++ [b]).destutter' (· ≠ ·) a =
      if (a :: l).getLast? = some b then l.destutter' (· ≠ ·) a
      else l.destutter' (· ≠ ·) a ++ [b] := by
  induction l generalizing a with
  | nil =>
    rw [List.nil_append, List.destutter'_singleton, List.destutter'_nil]
    by_cases h : a = b <;> simp [h]
  | cons c l ih =>
    rw [List.cons_append, List.getLast?_cons_cons]
    by_cases h : a = c
    · rw [List.destutter'_cons_neg _ (not_not.2 h), List.destutter'_cons_neg _ (not_not.2 h), h]
      exact ih c
    · rw [List.destutter'_cons_pos _ h, List.destutter'_cons_pos _ h, ih c]
      split_ifs <;> rfl

theorem changes_concat (l : List α) (a : α) :
    changes (l ++ [a]) = if l.getLast? = some a then changes l else changes l ++ [a] := by
  unfold changes
  cases l with
  | nil => rfl
  | cons b l => exact destutter'_concat b a l

/-- The last change leads to the last value. -/
theorem getLast?_changes (l : List α) : (changes l).getLast? = l.getLast? := by
  induction l using List.reverseRecOn with
  | nil => rfl
  | append_singleton l a ih =>
    rw [changes_concat, List.getLast?_concat]
    split_ifs with h
    · rw [ih, h]
    · exact List.getLast?_concat

/-- No two changes in a row are the same. -/
theorem isChain_changes (l : List α) : (changes l).IsChain (· ≠ ·) := List.isChain_destutter _ l

end Runs
