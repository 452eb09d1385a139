import Mathlib.Logic.Relation
import Mathlib.Algebra.BigOperators.Group.List.Basic

/-!
# Interleaved threads

A thread is the stack of the actions it still has to do. Doing the action on top of the stack reads
and writes the shared state and leaves further actions in its place: a call is replaced by its body,
a synchronous dispatch by the callbacks it runs. The threads of a configuration are interleaved at
the granularity of single actions.

What the system takes from outside (a clock reading, the result of a system call) is the argument
`w` of `exec`, so that an action is a function and a schedule can be played (`play`).
-/

namespace Threads

/-- What the actions of a system do. `exec a w s = none` says that `a` is blocked in the state `s`;
otherwise it gives the new state and the actions left in place of `a`. -/
structure Program (σ A ω : Type*) where
  exec : A → ω → σ → Option (σ × List A)

/-- The state all threads share, and for each thread the actions it still has to do, the next one
first. -/
structure Config (σ A : Type*) where
  shared : σ
  threads : List (List A)

variable {σ A ω : Type*}

/-- One thread does its next action `a`. -/
inductive Step (P : Program σ A ω) : Config σ A → A → Config σ A → Prop where
  | run {s s' : σ} {a : A} {w : ω} {rest k : List A} (pre post : List (List A))
      (h : P.exec a w s = some (s', k)) :
      Step P ⟨s, pre ++ (a :: rest) :: post⟩ a ⟨s', pre ++ (k ++ rest) :: post⟩

/-- In `d`, one thread has the actions `k` in place of the action `a` that it does next in `c`. -/
def Replaces (a : A) (k : List A) (c d : Config σ A) : Prop :=
  ∃ pre rest post, c.threads = pre ++ (a :: rest) :: post ∧ d.threads = pre ++ (k ++ rest) :: post

/-- `d` is reached from `c` by steps each of which meets `φ` (a condition on the configuration before
the step and the action done). -/
def Reaches (P : Program σ A ω) (φ : Config σ A → A → Prop) : Config σ A → Config σ A → Prop :=
  Relation.ReflTransGen fun c d => ∃ a, Step P c a d ∧ φ c a

/-- `d` is reached from `c`, and `tr` records the steps: the shared state before each and the action
done, oldest first. -/
inductive Trace (P : Program σ A ω) : Config σ A → List (σ × A) → Config σ A → Prop where
  | refl (c : Config σ A) : Trace P c [] c
  | tail {c d e : Config σ A} {tr : List (σ × A)} {a : A} (h : Trace P c tr d) (hs : Step P d a e) :
    Trace P c (tr ++ [(d.shared, a)]) e

/-- The condition every step meets: all interleavings. -/
def anyStep : Config σ A → A → Prop := fun _ _ => True

/-- Some thread still has to do an action that satisfies `p`. -/
def Config.Pending (p : A → Prop) (c : Config σ A) : Prop := ∃ t ∈ c.threads, ∃ a ∈ t, p a

/-- Every thread's stack satisfies `S`. -/
def Config.Stacks (S : List A → Prop) (c : Config σ A) : Prop := ∀ t ∈ c.threads, S t

/-- The sum of the weights of the actions on a stack. -/
def weight {M : Type*} [AddCommMonoid M] (w : A → M) (t : List A) : M := (t.map w).sum

/-- The sum of the weights of all pending actions. -/
def Config.load {M : Type*} [AddCommMonoid M] (w : A → M) (c : Config σ A) : M :=
  (c.threads.map (weight w)).sum

/-- The action thread `i` does next. -/
def Config.next (c : Config σ A) (i : ℕ) : Option A := c.threads[i]?.bind List.head?

/-- Thread `i` does its next action, and the environment answers `w`. -/
def stepAt (P : Program σ A ω) (i : ℕ) (w : ω) (c : Config σ A) : Option (Config σ A) :=
  match c.threads[i]? with
  | some (a :: rest) =>
    (P.exec a w c.shared).map fun r => ⟨r.1, c.threads.set i (r.2 ++ rest)⟩
  | _ => none

instance (p : A → Prop) [DecidablePred p] (c : Config σ A) : Decidable (c.Pending p) :=
  inferInstanceAs (Decidable (∃ t ∈ c.threads, ∃ a ∈ t, p a))

instance (c : Config σ A) (a : A) : Decidable (anyStep c a) := isTrue trivial

/-- Play a schedule of steps that meet `φ`: the number of the thread that moves, and the answer it
gets. -/
def play (P : Program σ A ω) (φ : Config σ A → A → Prop) [∀ c a, Decidable (φ c a)] :
    List (ℕ × ω) → Config σ A → Option (Config σ A)
  | [], c => some c
  | (i, w) :: sched, c =>
    match c.next i with
    | some a => if φ c a then (stepAt P i w c).bind (play P φ sched) else none
    | none => none

/-- A single thread that starts with the stack `t` in the state `s` can be left, running alone, with
the stack `t'` in the state `s'`. -/
def Alone (P : Program σ A ω) (t : List A) (s : σ) (t' : List A) (s' : σ) : Prop :=
  Relation.ReflTransGen
    (fun x y : List A × σ => ∃ a w rest k, x.1 = a :: rest ∧ P.exec a w x.2 = some (y.2, k) ∧
      y.1 = k ++ rest) (t, s) (t', s')

/-- Started in a state that satisfies `I`, a thread can do the actions `t`, and all they lead to,
without the others and arrive in a state that satisfies `J`. -/
def Solo (P : Program σ A ω) (I : σ → Prop) (t : List A) (J : σ → Prop) : Prop :=
  ∀ s, I s → ∃ s', J s' ∧ ∀ rest, Alone P (t ++ rest) s rest s'

end Threads
