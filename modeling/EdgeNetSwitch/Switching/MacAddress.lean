import Mathlib.Data.UInt

/-!
# MAC addresses

`MacAddress` of `include/edgenetswitch/switching/MacAddress.hpp`: an array of six bytes ordered
lexicographically, with the text codec of `src/switching/MacAddress.cpp`. A `std::string` is the list
of its bytes.
-/

namespace EdgeNetSwitch

/-- A `std::string`: the bytes it holds. -/
abbrev Bytes := List UInt8

/-- The bytes of an ASCII literal of the source. -/
def bytesOf (s : String) : Bytes := s.toList.map fun c => c.toNat.toUInt8

/-- Six bytes. -/
structure MacAddress where
  bytes : Bytes
  size_eq : bytes.length = 6
  deriving DecidableEq

namespace MacAddress

/-- The defaulted `operator<=>`: lexicographic in the bytes. -/
instance : Ord MacAddress := ⟨compareOn MacAddress.bytes⟩

theorem ext_bytes {a b : MacAddress} (h : a.bytes = b.bytes) : a = b := by
  cases a; cases b; cases h; rfl

instance : Std.TransOrd MacAddress := inferInstanceAs (Std.TransCmp (compareOn MacAddress.bytes))

instance : Std.LawfulEqOrd MacAddress where
  eq_of_compare {a b} h := by
    have h' : compare a.bytes b.bytes = .eq := h
    exact ext_bytes (Std.LawfulEqCmp.eq_of_compare h')

/-- `MacAddress::isBroadcast`: every byte is `0xFF`. -/
def isBroadcast (m : MacAddress) : Bool := m.bytes.all fun byte => byte == 0xFF

/-- The locally administered address with last byte `n`. -/
def station (n : UInt8) : MacAddress := ⟨[2, 0, 0, 0, 0, n], rfl⟩

/-- `hexValue`: the value of one hexadecimal digit of either case. -/
def hexValue (c : UInt8) : Option UInt8 :=
  if 0x30 ≤ c ∧ c ≤ 0x39 then some (c - 0x30)
  else if 0x61 ≤ c ∧ c ≤ 0x66 then some (10 + (c - 0x61))
  else if 0x41 ≤ c ∧ c ≤ 0x46 then some (10 + (c - 0x41))
  else none

/-- One round of the loop of `fromString`: the byte written by the two digits at `3 * index`, which
a `':'` has to follow except in the last round. -/
def fromStringByte (text : Bytes) (index : ℕ) : Option UInt8 :=
  let offset := index * 3
  if index ≠ 5 ∧ text[offset + 2]? ≠ some 0x3A then none
  else do
    let high ← text[offset]? >>= hexValue
    let low ← text[offset + 1]? >>= hexValue
    return (high <<< 4) ||| low

/-- `MacAddress::fromString`. -/
def fromString (text : Bytes) : Option MacAddress :=
  if text.length ≠ 17 then none
  else do
    let b0 ← fromStringByte text 0
    let b1 ← fromStringByte text 1
    let b2 ← fromStringByte text 2
    let b3 ← fromStringByte text 3
    let b4 ← fromStringByte text 4
    let b5 ← fromStringByte text 5
    return ⟨[b0, b1, b2, b3, b4, b5], rfl⟩

/-- A lower-case hexadecimal digit. -/
def hexDigit (n : UInt8) : UInt8 := if n < 10 then 0x30 + n else 0x61 + (n - 10)

/-- `MacAddress::toString`. -/
def toString (m : MacAddress) : Bytes :=
  let pairs := m.bytes.map fun (byte : UInt8) => [hexDigit (byte >>> 4), hexDigit (byte &&& 0xF)]
  List.intercalate [0x3A] pairs

end MacAddress

end EdgeNetSwitch
