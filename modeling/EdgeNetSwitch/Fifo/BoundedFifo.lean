import Mathlib.Data.List.Induction

/-!
# Bounded queues

A queue for at most `cap` items, first in, first out. An item offered to a full queue is refused. What
was accepted, what was refused and what was taken are the histories a client can observe.
-/

namespace BoundedFifo

inductive Op (α : Type*) where
  | offer (x : α)
  | poll

/-- The queue with its histories, oldest item first. -/
structure Fifo (α : Type*) where
  queue : List α := []
  accepted : List α := []
  refused : List α := []
  polled : List α := []

variable {α : Type*} {cap : ℕ}

/-- One operation; polling an empty queue does nothing. -/
def step (cap : ℕ) (s : Fifo α) : Op α → Fifo α
  | .offer x =>
    if s.queue.length < cap then
      { s with queue := s.queue ++ [x], accepted := s.accepted ++ [x] }
    else { s with refused := s.refused ++ [x] }
  | .poll =>
    match s.queue with
    | x :: queue => { s with queue, polled := s.polled ++ [x] }
    | [] => s

/-- The operations `ops` on a new queue. -/
def run (cap : ℕ) (ops : List (Op α)) : Fifo α := ops.foldl (step cap) {}

@[simp] theorem run_nil : run cap ([] : List (Op α)) = {} := rfl

theorem run_append (ops : List (Op α)) (op : Op α) :
    run cap (ops ++ [op]) = step cap (run cap ops) op := by
  simp [run, List.foldl_append]

theorem step_offer_of_lt {s : Fifo α} (h : s.queue.length < cap) (x : α) : step cap s (.offer x) =
    { s with queue := s.queue ++ [x], accepted := s.accepted ++ [x] } := if_pos h

theorem step_offer_of_full {s : Fifo α} (h : cap ≤ s.queue.length) (x : α) :
    step cap s (.offer x) = { s with refused := s.refused ++ [x] } := if_neg (Nat.not_lt.2 h)

theorem step_poll_cons {s : Fifo α} {x : α} {q : List α} (h : s.queue = x :: q) :
    step cap s .poll = { s with queue := q, polled := s.polled ++ [x] } := by
  simp only [step, h]

theorem step_poll_nil {s : Fifo α} (h : s.queue = []) : step cap s .poll = s := by
  simp only [step, h]

theorem length_queue_le (ops : List (Op α)) : (run cap ops).queue.length ≤ cap := by
  induction ops using List.reverseRecOn with
  | nil => exact Nat.zero_le _
  | append_singleton ops op ih =>
    rw [run_append]
    cases op with
    | offer x =>
      by_cases h : (run cap ops).queue.length < cap
      · rw [step_offer_of_lt h]
        simp only [List.length_append, List.length_singleton]
        omega
      · rw [step_offer_of_full (Nat.not_lt.1 h)]
        exact ih
    | poll =>
      cases hq : (run cap ops).queue with
      | nil =>
        rw [step_poll_nil hq]
        exact ih
      | cons x q =>
        rw [step_poll_cons hq]
        rw [hq, List.length_cons] at ih
        simp only
        omega

/-- Items are taken in the order in which they were accepted. -/
theorem polled_append_queue (ops : List (Op α)) :
    (run cap ops).polled ++ (run cap ops).queue = (run cap ops).accepted := by
  induction ops using List.reverseRecOn with
  | nil => rfl
  | append_singleton ops op ih =>
    rw [run_append]
    cases op with
    | offer x =>
      by_cases h : (run cap ops).queue.length < cap
      · rw [step_offer_of_lt h]
        simp only
        rw [← List.append_assoc, ih]
      · rw [step_offer_of_full (Nat.not_lt.1 h)]
        exact ih
    | poll =>
      cases hq : (run cap ops).queue with
      | nil =>
        rw [step_poll_nil hq]
        exact ih
      | cons x q =>
        rw [step_poll_cons hq]
        rw [hq] at ih
        simp only
        rw [List.append_assoc, List.singleton_append, ih]

end BoundedFifo
