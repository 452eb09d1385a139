import EdgeNetSwitch.Switching.MacAddress
import EdgeNetSwitch.Text.Pairs

/-!
# The texts of MAC addresses

What a text has to look like to name an address: six pairs of hexadecimal digits with a colon between one
pair and the next. Defined without `fromString` and `toString`, to compare them with.
-/

namespace EdgeNetSwitch.MacAddress

/-- A hexadecimal digit of either case. -/
def IsHexDigit (c : UInt8) : Prop :=
  (0x30 ≤ c ∧ c ≤ 0x39) ∨ (0x61 ≤ c ∧ c ≤ 0x66) ∨ (0x41 ≤ c ∧ c ≤ 0x46)

/-- Six pairs of hexadecimal digits separated by single colons, and nothing else. -/
def IsMacText (text : Bytes) : Prop :=
  ∃ pairs : List (UInt8 × UInt8), pairs.length = 6 ∧ (∀ p ∈ pairs, IsHexDigit p.1 ∧ IsHexDigit p.2) ∧
    text = Pairs.join 0x3A pairs

/-- An ASCII letter in lower case; other bytes as they are. -/
def lowerCase (c : UInt8) : UInt8 := if 0x41 ≤ c ∧ c ≤ 0x5A then c + 0x20 else c

/-- The byte that two digits write. -/
def pairByte (p : UInt8 × UInt8) : Option UInt8 := do
  let high ← hexValue p.1
  let low ← hexValue p.2
  return (high <<< 4) ||| low

/-- The two digits of a byte. -/
def digits (byte : UInt8) : UInt8 × UInt8 := (hexDigit (byte >>> 4), hexDigit (byte &&& 0xF))

end EdgeNetSwitch.MacAddress
