import Mathlib.Data.List.Basic

/-!
# The steps of a run that never blocks

A machine that takes an input at every step and is never blocked is a function `f : σ → ι → σ`, and its
run on a list of inputs is `List.foldl f`. The trail of the run is the list of its steps.
-/

namespace Runs

variable {σ ι : Type*} {f : σ → ι → σ}

/-- The steps of a run, oldest first: the state before each step, and its input. -/
def trail (f : σ → ι → σ) : σ → List ι → List (σ × ι)
  | _, [] => []
  | s, i :: l => (s, i) :: trail f (f s i) l

@[simp] theorem trail_nil (s : σ) : trail f s [] = [] := rfl

@[simp] theorem trail_cons (s : σ) (i : ι) (l : List ι) :
    trail f s (i :: l) = (s, i) :: trail f (f s i) l := rfl

theorem trail_append (s : σ) (l l' : List ι) :
    trail f s (l ++ l') = trail f s l ++ trail f (l.foldl f s) l' := by
  induction l generalizing s with
  | nil => rfl
  | cons i l ih => rw [List.cons_append, trail_cons, ih, trail_cons, List.foldl_cons, List.cons_append]

/-- The last step is done in the state the others lead to. -/
theorem trail_concat (s : σ) (l : List ι) (i : ι) :
    trail f s (l ++ [i]) = trail f s l ++ [(l.foldl f s, i)] := by
  rw [trail_append, trail_cons, trail_nil]

/-- A step in the middle is done in the state those before it lead to. -/
theorem mem_trail (s : σ) (l : List ι) (i : ι) (l' : List ι) : (l.foldl f s, i) ∈ trail f s (l ++ i :: l') := by
  rw [trail_append, trail_cons]
  exact List.mem_append_right _ List.mem_cons_self

theorem foldl_concat (s : σ) (l : List ι) (i : ι) : (l ++ [i]).foldl f s = f (l.foldl f s) i := by
  rw [List.foldl_append, List.foldl_cons, List.foldl_nil]

end Runs
