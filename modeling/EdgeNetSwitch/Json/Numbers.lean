import EdgeNetSwitch.Json.Lookup
import Mathlib.Data.Rat.Floor

/-!
# Numbers of a document

A document holds a number as an unsigned integer, a negative integer or a `double`, and a caller asks for the
type it needs: the library converts by a plain `static_cast`. An integer wraps, a `double` loses its fraction.
`whole?` is the integer a number is, whatever it is held as; `Alike` are documents that differ at most in how they
hold their integers.
-/

namespace Json

/-- What `static_cast` leaves open: an integer that is no `double` becomes one next to it, and a `double` that
is too large for an integer type becomes anything. -/
structure Casts where
  toDouble : ℤ → ℚ
  toDouble_eq : ∀ n : ℤ, n.natAbs ≤ 2 ^ 53 → toDouble n = n
  toDouble_mono : ∀ {m n : ℤ}, m ≤ n → toDouble m ≤ toDouble n
  toInt : ℚ → ℤ
  toUint64 : ℚ → UInt64

/-- The number without its fraction. -/
def truncate (x : ℚ) : ℤ := if 0 ≤ x then ⌊x⌋ else ⌈x⌉

/-- An integer as an `int`. -/
def wrapInt (n : ℤ) : ℤ := n.bmod (2 ^ 32)

namespace Casts

variable (c : Casts)

/-- `get<int>`: `none` where it throws. A `bool` is an arithmetic type too. -/
def getInt : Json → Option ℤ
  | .unsigned n => some (wrapInt n)
  | .integer n => some (wrapInt n)
  | .float x =>
    if -2 ^ 31 ≤ truncate x ∧ truncate x < 2 ^ 31 then some (truncate x) else some (wrapInt (c.toInt x))
  | .boolean b => some (if b then 1 else 0)
  | _ => none

/-- `get<std::uint64_t>`. -/
def getUint64 : Json → Option UInt64
  | .unsigned n => some (UInt64.ofInt n)
  | .integer n => some (UInt64.ofInt n)
  | .float x =>
    if 0 ≤ truncate x ∧ truncate x < 2 ^ 64 then some (UInt64.ofInt (truncate x)) else some (c.toUint64 x)
  | _ => none

/-- `get<double>`. -/
def getDouble : Json → Option ℚ
  | .unsigned n => some (c.toDouble n)
  | .integer n => some (c.toDouble n)
  | .float x => some x
  | _ => none

end Casts

/-- `get<bool>`. -/
def getBool : Json → Option Bool
  | .boolean b => some b
  | _ => none

/-- `get<std::string>`. -/
def getString : Json → Option (List UInt8)
  | .string s => some s
  | _ => none

def isNumber : Json → Bool
  | .unsigned _ | .integer _ | .float _ => true
  | _ => false

def isBoolean : Json → Bool
  | .boolean _ => true
  | _ => false

def isString : Json → Bool
  | .string _ => true
  | _ => false

def isFloat : Json → Bool
  | .float _ => true
  | _ => false

/-- The integer that a number is. -/
def whole? : Json → Option ℤ
  | .unsigned n => some n
  | .integer n => some n
  | .float x => if x.den = 1 then some x.num else none
  | _ => none

/-- The same document, but that an integer may be held as a signed or as an unsigned one. The order of the
fields of an object does not matter. -/
inductive Alike : Json → Json → Prop where
  | integer {v w : Json} {n : ℤ} (left : v.whole? = some n) (right : w.whole? = some n)
    (left_integer : v.isFloat = false) (right_integer : w.isFloat = false) : Alike v w
  | null : Alike .null .null
  | boolean (b : Bool) : Alike (.boolean b) (.boolean b)
  | float (x : ℚ) : Alike (.float x) (.float x)
  | string (s : List UInt8) : Alike (.string s) (.string s)
  | array {items items' : List Json} (items_alike : List.Forall₂ Alike items items') :
    Alike (.array items) (.array items')
  | object {fields fields' : List (List UInt8 × Json)}
    (keys : ∀ key, (fields'.lookup key).isSome = (fields.lookup key).isSome)
    (values : ∀ key v w, fields.lookup key = some v → fields'.lookup key = some w → Alike v w) :
    Alike (.object fields) (.object fields')

/-- A whole number between two bounds. -/
def Within (low high : ℤ) (v : Json) : Prop := ∃ n, v.whole? = some n ∧ low ≤ n ∧ n ≤ high

/-- Converted to an integer, it is zero or refused. -/
def vanishes : Json → Bool
  | .unsigned n => (n : ℤ) % 2 ^ 64 = 0
  | .integer n => n % 2 ^ 64 = 0
  | .float x => truncate x = 0
  | _ => true

/-- More than zero, and one at most. -/
def inUnit : Json → Bool
  | .unsigned n => n = 1
  | .integer n => n = 1
  | .float x => 0 < x ∧ x ≤ 1
  | _ => false

variable {v : Json} {x : ℚ} {n low high : ℤ} {c : Casts}

mutual

theorem alike_refl : ∀ v : Json, v.Alike v
  | .null => .null
  | .boolean b => .boolean b
  | .unsigned _ => .integer rfl rfl rfl rfl
  | .integer _ => .integer rfl rfl rfl rfl
  | .float x => .float x
  | .string s => .string s
  | .array items => .array (alikeItems_refl items)
  | .object fields => .object (fun _ => rfl) (alikeFields_refl fields)

theorem alikeItems_refl : ∀ items : List Json, List.Forall₂ Alike items items
  | [] => .nil
  | v :: vs => .cons (alike_refl v) (alikeItems_refl vs)

theorem alikeFields_refl : ∀ (fields : List (List UInt8 × Json)) (key : List UInt8) (v w : Json),
    fields.lookup key = some v → fields.lookup key = some w → v.Alike w
  | (_, u) :: fields, key, v, w, hv, hw => by
    rw [lookup_cons] at hv hw
    split_ifs at hv hw
    · obtain rfl : u = v := Option.some.inj hv
      obtain rfl : u = w := Option.some.inj hw
      exact alike_refl u
    · exact alikeFields_refl fields key v w hv hw

end

/-- A field that is there is there in a document that is alike. -/
theorem Alike.field?_eq_some {j j' v : Json} (h : j.Alike j') {key : List UInt8} (hv : j.field? key = some v) :
    ∃ w, j'.field? key = some w ∧ v.Alike w := by
  cases h with
  | object keys values =>
    obtain ⟨w, hw⟩ := Option.isSome_iff_exists.1 ((keys key).trans (Option.isSome_of_mem hv))
    exact ⟨w, hw, values key v w hv hw⟩
  | integer left =>
    cases j with
    | object => cases left
    | null | boolean | unsigned | integer | float | string | array => cases hv
  | null | boolean | float | string | array => cases hv

theorem Alike.string_eq {s : List UInt8} {w : Json} (h : (Json.string s).Alike w) : w = .string s := by
  cases h with
  | integer left => cases left
  | string => rfl

theorem Alike.boolean_eq {b : Bool} {w : Json} (h : (Json.boolean b).Alike w) : w = .boolean b := by
  cases h with
  | integer left => cases left
  | boolean => rfl

theorem Alike.float_eq {x : ℚ} {w : Json} (h : (Json.float x).Alike w) : w = .float x := by
  cases h with
  | integer left right hfloat => cases hfloat
  | float => rfl

/-- An integer is read as the same integer. -/
theorem Alike.whole?_eq {v w : Json} {n : ℤ} (h : v.Alike w) (hv : v.whole? = some n) (hfloat : v.isFloat = false) :
    w.whole? = some n ∧ w.isFloat = false := by
  cases h with
  | integer left right left_integer right_integer => exact ⟨right.trans (left.symm.trans hv), right_integer⟩
  | float => cases hfloat
  | null | boolean | string | array | object => cases hv

theorem truncate_intCast (n : ℤ) : truncate n = n := by
  unfold truncate
  split_ifs
  · exact Int.floor_intCast n
  · exact Int.ceil_intCast n

theorem getInt_float (c : Casts) (x : ℚ) : c.getInt (.float x) =
    if -2 ^ 31 ≤ truncate x ∧ truncate x < 2 ^ 31 then some (truncate x)
    else some (wrapInt (c.toInt x)) := rfl

theorem getUint64_float (c : Casts) (x : ℚ) : c.getUint64 (.float x) =
    if 0 ≤ truncate x ∧ truncate x < 2 ^ 64 then some (UInt64.ofInt (truncate x))
    else some (c.toUint64 x) := rfl

theorem whole?_float : whole? (.float x) = some n ↔ x = n := by
  show (if x.den = 1 then some x.num else none) = some n ↔ x = n
  split_ifs with h
  · rw [Option.some.injEq, ← (Rat.den_eq_one_iff x).1 h]
    simp
  · refine iff_of_false nofun ?_
    rintro rfl
    exact h (Rat.den_intCast n)

theorem wrapInt_eq (hlow : -2 ^ 31 ≤ n) (hhigh : n < 2 ^ 31) : wrapInt n = n :=
  Int.bmod_eq_of_le (by omega) (by omega)

/-- A whole number that an `int` can hold is converted to itself. -/
theorem getInt_eq (h : v.whole? = some n) (hlow : -2 ^ 31 ≤ n) (hhigh : n < 2 ^ 31) :
    c.getInt v = some n := by
  cases v with
  | unsigned m | integer m =>
    cases h
    exact congrArg some (wrapInt_eq hlow hhigh)
  | float x =>
    rw [whole?_float] at h
    subst h
    rw [getInt_float, truncate_intCast, if_pos ⟨hlow, hhigh⟩]
  | null | boolean b | string s | array items | object fields => exact absurd h nofun

/-- An integer too large for an `int` wraps. -/
theorem getInt_of_not_float (h : v.whole? = some n) (hfloat : v.isFloat = false) :
    c.getInt v = some (wrapInt n) := by
  cases v with
  | unsigned m | integer m =>
    cases h
    rfl
  | float x => exact absurd hfloat nofun
  | null | boolean b | string s | array items | object fields => exact absurd h nofun

theorem getUint64_eq (h : v.whole? = some n) (hlow : 0 ≤ n) (hhigh : n < 2 ^ 64) :
    c.getUint64 v = some (UInt64.ofInt n) := by
  cases v with
  | unsigned m | integer m =>
    cases h
    rfl
  | float x =>
    rw [whole?_float] at h
    subst h
    rw [getUint64_float, truncate_intCast, if_pos ⟨hlow, hhigh⟩]
  | null | boolean b | string s | array items | object fields => exact absurd h nofun

theorem getInt_eq_none_iff : c.getInt v = none ↔ (!v.isNumber && !v.isBoolean) = true := by
  cases v with
  | float x =>
    rw [getInt_float]
    split_ifs <;> simp [isNumber]
  | null | boolean b | unsigned n | integer n | string s | array items | object fields =>
    simp [Casts.getInt, isNumber, isBoolean]

theorem isNumber_of_getDouble (h : c.getDouble v = some x) : v.isNumber = true := by
  cases v with
  | unsigned n | integer n | float x => rfl
  | null | boolean b | string s | array items | object fields => exact absurd h nofun

theorem getBool_eq_none_iff : getBool v = none ↔ (!v.isBoolean) = true := by
  cases v <;> simp [getBool, isBoolean]

theorem getString_eq_none_iff : getString v = none ↔ (!v.isString) = true := by
  cases v <;> simp [getString, isString]

theorem ofInt_eq_zero_iff (n : ℤ) : UInt64.ofInt n = 0 ↔ n % 2 ^ 64 = 0 := by
  rw [← UInt64.toNat_inj]
  show (n % 2 ^ 64).toNat % 2 ^ 64 = 0 ↔ n % 2 ^ 64 = 0
  omega

/-- What vanishes is zero, or no number. -/
theorem getUint64_of_vanishes {w : UInt64} (h : v.vanishes = true) (hv : c.getUint64 v = some w) : w = 0 := by
  cases v with
  | unsigned n | integer n =>
    cases hv
    exact (ofInt_eq_zero_iff n).2 (by simpa [vanishes] using h)
  | float x =>
    have hzero : truncate x = 0 := by simpa [vanishes] using h
    rw [getUint64_float, hzero] at hv
    cases hv
    rfl
  | null | boolean b | string s | array items | object fields => exact absurd hv nofun

theorem getUint64_of_not_vanishes (h : v.vanishes = false) (hc : ∀ x, c.toUint64 x ≠ 0) :
    ∃ w, c.getUint64 v = some w ∧ w ≠ 0 := by
  cases v with
  | unsigned n | integer n =>
    have hne : ¬ (n : ℤ) % 2 ^ 64 = 0 := by simpa [vanishes] using h
    exact ⟨_, rfl, fun hzero => hne ((ofInt_eq_zero_iff n).1 hzero)⟩
  | float x =>
    have hne : truncate x ≠ 0 := by simpa [vanishes] using h
    rw [getUint64_float]
    split_ifs with hrange
    · refine ⟨_, rfl, fun hzero => hne ?_⟩
      have hmod := (ofInt_eq_zero_iff _).1 hzero
      omega
    · exact ⟨_, rfl, hc x⟩
  | null | boolean b | string s | array items | object fields => exact absurd h nofun

theorem getDouble_of_inUnit (h : v.inUnit = true) : ∃ x, c.getDouble v = some x ∧ 0 < x ∧ x ≤ 1 := by
  have hone : c.toDouble 1 = 1 := by simpa using c.toDouble_eq 1 (by decide)
  cases v with
  | unsigned n | integer n =>
    have hn : n = 1 := by simpa [inUnit] using h
    subst hn
    exact ⟨c.toDouble 1, rfl, by rw [hone]; exact zero_lt_one, hone.le⟩
  | float x =>
    have hx : 0 < x ∧ x ≤ 1 := by simpa [inUnit] using h
    exact ⟨x, rfl, hx⟩
  | null | boolean b | string s | array items | object fields => exact absurd h nofun

/-- Integers other than 1 are out of the unit interval as a `double` too. -/
theorem toDouble_of_ne_one (hne : n ≠ 1) : c.toDouble n ≤ 0 ∨ 1 < c.toDouble n := by
  rcases Int.lt_or_gt_of_ne hne with hlt | hgt
  · have hzero : c.toDouble 0 = 0 := by simpa using c.toDouble_eq 0 (by decide)
    have hle := c.toDouble_mono (show n ≤ 0 by omega)
    exact .inl (hle.trans hzero.le)
  · have htwo : c.toDouble 2 = 2 := by simpa using c.toDouble_eq 2 (by decide)
    have hle := c.toDouble_mono (show 2 ≤ n by omega)
    rw [htwo] at hle
    exact .inr (one_lt_two.trans_le hle)

theorem getDouble_of_not_inUnit (h : v.inUnit = false) (hv : c.getDouble v = some x) : x ≤ 0 ∨ 1 < x := by
  cases v with
  | unsigned n | integer n =>
    cases hv
    have hne : n ≠ 1 := by simpa [inUnit] using h
    exact toDouble_of_ne_one (by omega)
  | float y =>
    cases hv
    have hy : 0 < x → 1 < x := by simpa [inUnit] using h
    rcases le_or_gt x 0 with hle | hlt
    · exact .inl hle
    · exact .inr (hy hlt)
  | null | boolean b | string s | array items | object fields => exact absurd hv nofun

end Json
