import Mathlib.Data.List.Induction

/-!
# Queues that drop the oldest item

A queue for at most `cap` items, first in, first out. An item offered to a full queue takes the place of
the oldest one; with no room at all it is dropped on arrival. Every item offered is queued or gone, and
the items that are gone left in the order in which they were offered.
-/

namespace DropOldest

inductive Op (α : Type*) where
  | offer (x : α)
  | poll

/-- The item an operation offers. -/
def Op.item? {α : Type*} : Op α → Option α
  | .offer x => some x
  | .poll => none

/-- What became of an item that is gone. -/
inductive Fate where
  | taken
  | dropped
  deriving DecidableEq

/-- The queue with its histories, oldest item first. -/
structure Buffer (α : Type*) where
  queue : List α := []
  offered : List α := []
  gone : List (Fate × α) := []

variable {α : Type*} {cap : ℕ}

/-- One operation; polling an empty queue does nothing. -/
def step (cap : ℕ) (s : Buffer α) : Op α → Buffer α
  | .offer x =>
    if s.queue.length < cap then
      { s with queue := s.queue ++ [x], offered := s.offered ++ [x] }
    else
      match s.queue with
      | y :: queue =>
        { queue := queue ++ [x], offered := s.offered ++ [x], gone := s.gone ++ [(.dropped, y)] }
      | [] => { s with offered := s.offered ++ [x], gone := s.gone ++ [(.dropped, x)] }
  | .poll =>
    match s.queue with
    | x :: queue => { s with queue, gone := s.gone ++ [(.taken, x)] }
    | [] => s

/-- The operations `ops` on a new queue. -/
def run (cap : ℕ) (ops : List (Op α)) : Buffer α := ops.foldl (step cap) {}

/-- The items with a fate. -/
def Buffer.gone? (s : Buffer α) (fate : Fate) : List α :=
  s.gone.filterMap fun x => if x.1 = fate then some x.2 else none

/-- The items taken, in order. -/
def Buffer.taken (s : Buffer α) : List α := s.gone? .taken

/-- The items dropped, in order. -/
def Buffer.dropped (s : Buffer α) : List α := s.gone? .dropped

@[simp] theorem run_nil : run cap ([] : List (Op α)) = {} := rfl

theorem run_append (ops : List (Op α)) (op : Op α) :
    run cap (ops ++ [op]) = step cap (run cap ops) op := by
  simp [run, List.foldl_append]

theorem step_offer_of_lt {s : Buffer α} (h : s.queue.length < cap) (x : α) :
    step cap s (.offer x) = { s with queue := s.queue ++ [x], offered := s.offered ++ [x] } :=
  if_pos h

theorem step_offer_of_full {s : Buffer α} {y : α} {q : List α} (h : cap ≤ s.queue.length)
    (hq : s.queue = y :: q) (x : α) : step cap s (.offer x) =
      { queue := q ++ [x], offered := s.offered ++ [x], gone := s.gone ++ [(.dropped, y)] } := by
  rw [step, if_neg (Nat.not_lt.2 h)]
  simp only [hq]

theorem step_offer_of_zero {s : Buffer α} (h : cap = 0) (hq : s.queue = []) (x : α) :
    step cap s (.offer x) =
      { s with offered := s.offered ++ [x], gone := s.gone ++ [(.dropped, x)] } := by
  rw [step, if_neg (by omega)]
  simp only [hq]

theorem step_poll_cons {s : Buffer α} {x : α} {q : List α} (h : s.queue = x :: q) :
    step cap s .poll = { s with queue := q, gone := s.gone ++ [(.taken, x)] } := by
  simp only [step, h]

theorem step_poll_nil {s : Buffer α} (h : s.queue = []) : step cap s .poll = s := by
  simp only [step, h]

/-- What an operation does, one case for each branch. -/
inductive Steps (cap : ℕ) (s : Buffer α) : Op α → Buffer α → Prop where
  | push (x : α) (h : s.queue.length < cap) :
    Steps cap s (.offer x) { s with queue := s.queue ++ [x], offered := s.offered ++ [x] }
  | replace (x y : α) (q : List α) (h : cap ≤ s.queue.length) (hq : s.queue = y :: q) :
    Steps cap s (.offer x)
      { queue := q ++ [x], offered := s.offered ++ [x], gone := s.gone ++ [(.dropped, y)] }
  | refuse (x : α) (h : cap = 0) (hq : s.queue = []) :
    Steps cap s (.offer x) { s with offered := s.offered ++ [x], gone := s.gone ++ [(.dropped, x)] }
  | pop (x : α) (q : List α) (hq : s.queue = x :: q) :
    Steps cap s .poll { s with queue := q, gone := s.gone ++ [(.taken, x)] }
  | idle (hq : s.queue = []) : Steps cap s .poll s

theorem steps (cap : ℕ) (s : Buffer α) (op : Op α) : Steps cap s op (step cap s op) := by
  cases op with
  | offer x =>
    by_cases h : s.queue.length < cap
    · rw [step_offer_of_lt h]
      exact .push x h
    · cases hq : s.queue with
      | nil =>
        have hcap : cap = 0 := by
          rw [hq, List.length_nil] at h
          omega
        rw [step_offer_of_zero hcap hq]
        exact .refuse x hcap hq
      | cons y q =>
        rw [step_offer_of_full (Nat.not_lt.1 h) hq]
        exact .replace x y q (Nat.not_lt.1 h) hq
  | poll =>
    cases hq : s.queue with
    | nil =>
      rw [step_poll_nil hq]
      exact .idle hq
    | cons x q =>
      rw [step_poll_cons hq]
      exact .pop x q hq

/-- What every operation preserves holds after every run. -/
theorem run_induction {P : Buffer α → Prop} (h0 : P {})
    (hs : ∀ s op s', P s → Steps cap s op s' → P s') (ops : List (Op α)) : P (run cap ops) := by
  induction ops using List.reverseRecOn with
  | nil => exact h0
  | append_singleton ops op ih =>
    rw [run_append]
    exact hs _ op _ ih (steps cap _ op)

theorem length_queue_le (ops : List (Op α)) : (run cap ops).queue.length ≤ cap := by
  apply run_induction (P := fun s => s.queue.length ≤ cap) (Nat.zero_le _)
  intro s op s' ih hstep
  cases hstep with
  | push x h =>
    simp only [List.length_append, List.length_singleton]
    omega
  | replace x y q h hq =>
    rw [hq, List.length_cons] at ih
    simp only [List.length_append, List.length_singleton]
    omega
  | refuse => exact ih
  | pop x q hq =>
    rw [hq, List.length_cons] at ih
    simp only
    omega
  | idle => exact ih

theorem offered_run (ops : List (Op α)) : (run cap ops).offered = ops.filterMap Op.item? := by
  induction ops using List.reverseRecOn with
  | nil => rfl
  | append_singleton ops op ih =>
    rw [run_append, List.filterMap_append, ← ih]
    have hstep := steps cap (run cap ops) op
    cases op with
    | offer x =>
      generalize step cap (run cap ops) (.offer x) = s' at hstep ⊢
      cases hstep <;> rfl
    | poll =>
      generalize step cap (run cap ops) .poll = s' at hstep ⊢
      cases hstep <;> exact (List.append_nil _).symm

/-- Items leave in the order in which they were offered. -/
theorem gone_append_queue (ops : List (Op α)) :
    (run cap ops).gone.map Prod.snd ++ (run cap ops).queue = (run cap ops).offered := by
  apply run_induction (P := fun s : Buffer α => s.gone.map Prod.snd ++ s.queue = s.offered) rfl
  intro s op s' ih hstep
  cases hstep with
  | push x h =>
    rw [← ih]
    simp
  | replace x y q h hq =>
    rw [← ih, hq]
    simp
  | refuse x h hq =>
    rw [← ih, hq]
    simp
  | pop x q hq =>
    rw [← ih, hq]
    simp
  | idle => exact ih

/-- What was taken and what is queued was offered in this order. -/
theorem taken_append_queue_sublist (ops : List (Op α)) :
    ((run cap ops).taken ++ (run cap ops).queue).Sublist (run cap ops).offered := by
  rw [← gone_append_queue]
  refine List.Sublist.append ?_ (List.Sublist.refl _)
  unfold Buffer.taken Buffer.gone?
  induction (run cap ops).gone with
  | nil => exact List.Sublist.refl _
  | cons x l ih =>
    by_cases hx : x.1 = .taken
    · rw [List.filterMap_cons, if_pos hx, List.map_cons]
      exact ih.cons_cons _
    · rw [List.filterMap_cons, if_neg hx, List.map_cons]
      exact ih.cons _

/-- Everything offered was taken, was dropped or is queued. -/
theorem perm_offered (ops : List (Op α)) :
    ((run cap ops).taken ++ (run cap ops).dropped ++ (run cap ops).queue).Perm
      (run cap ops).offered := by
  rw [← gone_append_queue]
  refine List.Perm.append_right _ ?_
  unfold Buffer.taken Buffer.dropped Buffer.gone?
  induction (run cap ops).gone with
  | nil => exact List.Perm.refl _
  | cons x l ih =>
    obtain ⟨fate, x⟩ := x
    cases fate with
    | taken => simpa using ih
    | dropped =>
      refine List.Perm.trans ?_ (ih.cons x)
      simp

end DropOldest
