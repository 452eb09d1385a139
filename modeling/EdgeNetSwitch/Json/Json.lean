import EdgeNetSwitch.Json.Utf8
import Mathlib.Data.Rat.Defs

/-!
# JSON values

Values as a JSON library builds them: an object is a map, kept in the order of its keys, and assigning to
a key it has replaces the value. `utf8` says that all strings in a value are UTF-8.
-/

inductive Json where
  | null
  | boolean (b : Bool)
  | unsigned (n : ℕ)
  | integer (n : ℤ)
  | float (x : ℚ)
  | string (s : List UInt8)
  | array (items : List Json)
  | object (fields : List (List UInt8 × Json))

namespace Json

/-- `fields[key] = value`. -/
def set (key : List UInt8) (value : Json) :
    List (List UInt8 × Json) → List (List UInt8 × Json)
  | [] => [(key, value)]
  | (k, v) :: fields =>
    if key = k then (k, value) :: fields
    else if key < k then (key, value) :: (k, v) :: fields
    else (k, v) :: set key value fields

/-- The object that assigning these fields one after the other leads to. -/
def ofFields (fields : List (List UInt8 × Json)) : Json :=
  .object (fields.foldl (fun acc field => set field.1 field.2 acc) [])

mutual

def utf8 : Json → Bool
  | .string s => Utf8.valid s
  | .array items => utf8Items items
  | .object fields => utf8Fields fields
  | _ => true

def utf8Items : List Json → Bool
  | [] => true
  | item :: items => utf8 item && utf8Items items

def utf8Fields : List (List UInt8 × Json) → Bool
  | [] => true
  | (key, value) :: fields => Utf8.valid key && utf8 value && utf8Fields fields

end

mutual

/-- The same value. -/
def same : Json → Json → Bool
  | .null, .null => true
  | .boolean b, .boolean b' => b = b'
  | .unsigned n, .unsigned n' => n = n'
  | .integer n, .integer n' => n = n'
  | .float x, .float x' => x = x'
  | .string s, .string s' => s = s'
  | .array items, .array items' => sameItems items items'
  | .object fields, .object fields' => sameFields fields fields'
  | _, _ => false

def sameItems : List Json → List Json → Bool
  | [], [] => true
  | v :: vs, w :: ws => same v w && sameItems vs ws
  | _, _ => false

def sameFields : List (List UInt8 × Json) → List (List UInt8 × Json) → Bool
  | [], [] => true
  | (key, v) :: fields, (key', w) :: fields' => key = key' && same v w && sameFields fields fields'
  | _, _ => false

end

/-- The escape of a byte in a string. -/
def escape (b : UInt8) : List UInt8 :=
  if b = 0x22 ∨ b = 0x5C then [0x5C, b]
  else if b = 0x08 then [0x5C, 0x62]
  else if b = 0x09 then [0x5C, 0x74]
  else if b = 0x0A then [0x5C, 0x6E]
  else if b = 0x0C then [0x5C, 0x66]
  else if b = 0x0D then [0x5C, 0x72]
  else if b < 0x20 then
    let high : UInt8 := b >>> 4
    let digit : UInt8 := b &&& 0xF
    [0x5C, 0x75, 0x30, 0x30, 0x30 + high, if digit < 10 then 0x30 + digit else 0x57 + digit]
  else [b]

def quote (s : List UInt8) : List UInt8 := 0x22 :: (s.map escape).flatten ++ [0x22]

def digits (n : ℕ) : List UInt8 := (Nat.toDigits 10 n).map fun c => c.toNat.toUInt8

/-- The start of a line, two columns in for each level. -/
def indent (level : ℕ) : List UInt8 := 0x0A :: List.replicate (2 * level) 0x20

mutual

/-- The text of a value, one item or field a line; `number` prints fractions. -/
def print (number : ℚ → List UInt8) (level : ℕ) : Json → List UInt8
  | .null => [0x6E, 0x75, 0x6C, 0x6C]
  | .boolean b => if b then [0x74, 0x72, 0x75, 0x65] else [0x66, 0x61, 0x6C, 0x73, 0x65]
  | .unsigned n => digits n
  | .integer n => if n < 0 then 0x2D :: digits n.natAbs else digits n.natAbs
  | .float x => number x
  | .string s => quote s
  | .array [] => [0x5B, 0x5D]
  | .array items => 0x5B :: printItems number (level + 1) items ++ indent level ++ [0x5D]
  | .object [] => [0x7B, 0x7D]
  | .object fields => 0x7B :: printFields number (level + 1) fields ++ indent level ++ [0x7D]

def printItems (number : ℚ → List UInt8) (level : ℕ) : List Json → List UInt8
  | [] => []
  | [item] => indent level ++ print number level item
  | item :: items => indent level ++ print number level item ++ [0x2C] ++ printItems number level items

def printFields (number : ℚ → List UInt8) (level : ℕ) : List (List UInt8 × Json) → List UInt8
  | [] => []
  | [(key, value)] => indent level ++ quote key ++ [0x3A, 0x20] ++ print number level value
  | (key, value) :: fields =>
    indent level ++ quote key ++ [0x3A, 0x20] ++ print number level value ++ [0x2C] ++
      printFields number level fields

end

/-- The text of a value if all its strings are UTF-8. -/
def dump (number : ℚ → List UInt8) (j : Json) : Option (List UInt8) :=
  if utf8 j then some (print number 0 j) else none

variable {key : List UInt8} {value : Json} {fields : List (List UInt8 × Json)}

theorem utf8Fields_set (hkey : Utf8.valid key = true) (hvalue : utf8 value = true)
    (hfields : utf8Fields fields = true) : utf8Fields (set key value fields) = true := by
  induction fields with
  | nil => simp [set, utf8Fields, hkey, hvalue]
  | cons field fields ih =>
    obtain ⟨k, v⟩ := field
    simp only [utf8Fields, Bool.and_eq_true] at hfields
    obtain ⟨⟨hk, hv⟩, hrest⟩ := hfields
    unfold set
    split_ifs
    · simp [utf8Fields, hk, hvalue, hrest]
    · simp [utf8Fields, hkey, hvalue, hk, hv, hrest]
    · simp [utf8Fields, hk, hv, ih hrest]

/-- An object whose fields are UTF-8 is. -/
theorem utf8_ofFields (h : ∀ field ∈ fields, Utf8.valid field.1 = true ∧ utf8 field.2 = true) :
    utf8 (ofFields fields) = true := by
  have hfold : ∀ acc, utf8Fields acc = true →
      utf8Fields (fields.foldl (fun acc field => set field.1 field.2 acc) acc) = true := by
    induction fields with
    | nil => exact fun acc hacc => hacc
    | cons field fields ih =>
      intro acc hacc
      obtain ⟨hkey, hvalue⟩ := h field (List.mem_cons_self ..)
      exact ih (fun f hf => h f (List.mem_cons_of_mem _ hf)) _ (utf8Fields_set hkey hvalue hacc)
  exact hfold [] rfl

theorem mem_keys_set {k : List UInt8} :
    k ∈ (set key value fields).map Prod.fst ↔ k = key ∨ k ∈ fields.map Prod.fst := by
  induction fields with
  | nil => simp [set]
  | cons field fields ih =>
    obtain ⟨l, v⟩ := field
    unfold set
    split_ifs with heq
    · subst heq
      simp
    · simp
    · simp only [List.map_cons, List.mem_cons, ih]
      exact or_left_comm

theorem utf8Fields_set_of_new (h : key ∉ fields.map Prod.fst) :
    utf8Fields (set key value fields) = (Utf8.valid key && utf8 value && utf8Fields fields) := by
  induction fields with
  | nil => simp [set, utf8Fields]
  | cons field fields ih =>
    obtain ⟨k, v⟩ := field
    simp only [List.map_cons, List.mem_cons, not_or] at h
    unfold set
    split_ifs with heq hlt
    · exact absurd heq h.1
    · simp [utf8Fields]
    · rw [utf8Fields, ih h.2, utf8Fields]
      exact Bool.and_left_comm _ _ _

/-- An object that is assigned no field twice is UTF-8 exactly if its fields are. -/
theorem utf8_ofFields_eq (h : (fields.map Prod.fst).Nodup) :
    utf8 (ofFields fields) = utf8Fields fields := by
  have hfold : ∀ acc, (∀ k ∈ fields.map Prod.fst, k ∉ acc.map Prod.fst) →
      utf8Fields (fields.foldl (fun acc field => set field.1 field.2 acc) acc) =
        (utf8Fields acc && utf8Fields fields) := by
    induction fields with
    | nil => exact fun acc _ => (Bool.and_true _).symm
    | cons field fields ih =>
      intro acc hnew
      obtain ⟨hfield, hnodup⟩ := List.nodup_cons.1 h
      rw [List.foldl_cons, ih hnodup, utf8Fields_set_of_new (hnew _ (List.mem_cons_self ..)), utf8Fields]
      · ac_rfl
      · intro k hk hmem
        rcases mem_keys_set.1 hmem with rfl | hmem
        · exact hfield hk
        · exact hnew k (List.mem_cons_of_mem _ hk) hmem
  exact hfold [] fun k _ hk => absurd hk (List.not_mem_nil)

theorem utf8_array {items : List Json} (h : ∀ item ∈ items, utf8 item = true) :
    utf8 (.array items) = true := by
  show utf8Items items = true
  induction items with
  | nil => rfl
  | cons item items ih =>
    simp only [utf8Items, Bool.and_eq_true]
    exact ⟨h item (List.mem_cons_self ..), ih fun i hi => h i (List.mem_cons_of_mem _ hi)⟩

mutual

theorem same_iff : ∀ v w : Json, same v w = true ↔ v = w
  | .array items, w => by
    cases w with
    | array items' => simpa [same] using sameItems_iff items items'
    | null | boolean | unsigned | integer | float | string | object => simp [same]
  | .object fields, w => by
    cases w with
    | object fields' => simpa [same] using sameFields_iff fields fields'
    | null | boolean | unsigned | integer | float | string | array => simp [same]
  | .null, w | .boolean _, w | .unsigned _, w | .integer _, w | .float _, w | .string _, w => by
    cases w <;> simp [same]

theorem sameItems_iff : ∀ vs ws : List Json, sameItems vs ws = true ↔ vs = ws
  | [], ws => by cases ws <;> simp [sameItems]
  | v :: vs, ws => by
    cases ws with
    | nil => simp [sameItems]
    | cons w ws => rw [sameItems, Bool.and_eq_true, same_iff v w, sameItems_iff vs ws, List.cons.injEq]

theorem sameFields_iff : ∀ fields fields' : List (List UInt8 × Json),
    sameFields fields fields' = true ↔ fields = fields'
  | [], fields' => by cases fields' <;> simp [sameFields]
  | (key, v) :: fields, fields' => by
    cases fields' with
    | nil => simp [sameFields]
    | cons field' fields' =>
      obtain ⟨key', w⟩ := field'
      rw [sameFields, Bool.and_eq_true, Bool.and_eq_true, decide_eq_true_iff, same_iff v w,
        sameFields_iff fields fields', List.cons.injEq, Prod.mk.injEq]

end

instance : DecidableEq Json := fun v w => decidable_of_iff _ (same_iff v w)

theorem dump_isSome (number : ℚ → List UInt8) (j : Json) : (dump number j).isSome = utf8 j := by
  unfold dump
  split_ifs with h
  · exact h.symm
  · simpa using h

end Json
