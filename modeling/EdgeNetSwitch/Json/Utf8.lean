import Mathlib.Data.UInt

/-!
# UTF-8

Which byte strings are UTF-8, decided one byte at a time: after the first byte of a character it is known
how many bytes it still owes, and in which range the next one lies. There are no overlong forms, no
surrogates and nothing above `U+10FFFF`.
-/

namespace Utf8

/-- Between two bytes: the character owes `owed` more bytes, the next one from `low` to `high`. -/
structure State where
  owed : ℕ
  low : UInt8 := 0x80
  high : UInt8 := 0xBF
  deriving DecidableEq

/-- Between two characters. -/
def start : State := { owed := 0 }

/-- The first byte of a character. -/
def first (b : UInt8) : Option State :=
  if b ≤ 0x7F then some start
  else if 0xC2 ≤ b ∧ b ≤ 0xDF then some { owed := 1 }
  else if b = 0xE0 then some { owed := 2, low := 0xA0 }
  else if b = 0xED then some { owed := 2, high := 0x9F }
  else if 0xE1 ≤ b ∧ b ≤ 0xEF then some { owed := 2 }
  else if b = 0xF0 then some { owed := 3, low := 0x90 }
  else if 0xF1 ≤ b ∧ b ≤ 0xF3 then some { owed := 3 }
  else if b = 0xF4 then some { owed := 3, high := 0x8F }
  else none

def step (s : State) (b : UInt8) : Option State :=
  if s.owed = 0 then first b
  else if s.low ≤ b ∧ b ≤ s.high then some { owed := s.owed - 1 }
  else none

def run (s : State) : List UInt8 → Option State
  | [] => some s
  | b :: bytes => (step s b).bind fun s' => run s' bytes

/-- The bytes are characters in full. -/
def valid (bytes : List UInt8) : Bool := (run start bytes).any fun s => s.owed = 0

/-- The bytes are single-byte characters. -/
def ascii (bytes : List UInt8) : Bool := bytes.all fun b => b ≤ 0x7F

theorem step_start {b : UInt8} (h : b ≤ 0x7F) : step start b = some start := by
  show first b = some start
  rw [first, if_pos h]

theorem run_append_of_ascii {a : List UInt8} (h : ascii a = true) (b : List UInt8) :
    run start (a ++ b) = run start b := by
  induction a with
  | nil => rfl
  | cons x a ih =>
    have hx : x ≤ 0x7F ∧ ascii a = true := by simpa [ascii] using h
    rw [List.cons_append, run, step_start hx.1, Option.bind_some]
    exact ih hx.2

/-- Single-byte characters in front change nothing. -/
@[simp] theorem valid_append_of_ascii {a : List UInt8} (h : ascii a = true) (b : List UInt8) :
    valid (a ++ b) = valid b := by
  rw [valid, run_append_of_ascii h, valid]

theorem valid_of_ascii {a : List UInt8} (h : ascii a = true) : valid a = true := by
  rw [← List.append_nil a, valid_append_of_ascii h]
  rfl

/-- A byte that continues a character is none of ASCII. -/
theorem low_of_step {s s' : State} {b : UInt8} (h : step s b = some s') : 0x80 ≤ s'.low := by
  have hrest : ∀ n : ℕ, 0x80 ≤ ({ owed := n } : State).low := fun _ => by
    show (0x80 : UInt8) ≤ 0x80
    decide
  unfold step at h
  split_ifs at h with howed
  · unfold first at h
    split_ifs at h <;> cases h <;> decide
  · cases h
    exact hrest _

theorem low_of_run {s s' : State} {bytes : List UInt8} (h : run s bytes = some s') (hs : 0x80 ≤ s.low) :
    0x80 ≤ s'.low := by
  induction bytes generalizing s with
  | nil =>
    cases h
    exact hs
  | cons b bytes ih =>
    obtain ⟨t, ht, hrun⟩ := Option.bind_eq_some_iff.1 h
    exact ih hrun (low_of_step ht)

theorem run_append (s : State) (a b : List UInt8) : run s (a ++ b) = (run s a).bind fun s' => run s' b := by
  induction a generalizing s with
  | nil => rfl
  | cons x a ih =>
    show (step s x).bind (fun s' => run s' (a ++ b)) =
      ((step s x).bind fun s' => run s' a).bind fun s' => run s' b
    rw [Option.bind_assoc]
    congr 1
    funext s'
    exact ih s'

/-- What is in front of a single-byte character is characters in full. -/
theorem valid_of_append_ascii {a b : List UInt8} {x : UInt8} (h : valid (a ++ x :: b) = true)
    (hx : x ≤ 0x7F) : valid a = true := by
  unfold valid at h ⊢
  rw [run_append] at h
  cases hrun : run start a with
  | none =>
    rw [hrun] at h
    exact absurd h nofun
  | some s =>
    have hlow : 0x80 ≤ s.low := low_of_run hrun (by decide)
    by_contra howed
    have howed' : s.owed ≠ 0 := by simpa using howed
    -- a character that still owes bytes cannot go on with `x`
    have hstep : step s x = none := by
      unfold step
      rw [if_neg howed', if_neg]
      rintro ⟨hle, -⟩
      exact absurd (UInt8.le_trans hlow (UInt8.le_trans hle hx)) (by decide)
    rw [hrun, Option.bind_some, run, hstep] at h
    exact absurd h nofun

end Utf8
