import EdgeNetSwitch.Packet.PacketParser
import EdgeNetSwitch.Text.Search
import Mathlib.Data.List.DropRight

/-!
# The format of datagrams

A datagram is a list of fields `key=value` with `';'` between them, in any order. What `parsePacket` is to
make of one, and the texts that mislead its search for a key or `std::stoull`.
-/

namespace EdgeNetSwitch

namespace Bytes

/-- The parts of a text in which `std::stoull` finds digits: white space, a sign, the digits and what is
left after them. -/
structure Numeral (text space sign digits rest : Bytes) : Prop where
  text_eq : text = space ++ (sign ++ (digits ++ rest))
  space : ∀ c ∈ space, isspace c = true
  sign : sign = [] ∨ sign = [0x2D] ∨ sign = [0x2B]
  nonempty : digits ≠ []
  digits : ∀ c ∈ digits, isdigit c = true
  stop : ∀ c ∈ rest.head?, isdigit c = false

/-- The digits `std::stoull` reads. -/
def leadingDigits (text : Bytes) : Bytes :=
  let s := text.dropWhile isspace
  (if s.head? = some 0x2D ∨ s.head? = some 0x2B then s.tail else s).takeWhile isdigit

/-- A text without the white space around it. -/
def trim (text : Bytes) : Bytes := (text.dropWhile isspace).rdropWhile isspace

/-- The decimal notation of a 64-bit number. -/
structure Decimal64 (text : Bytes) : Prop where
  nonempty : text ≠ []
  digits : ∀ c ∈ text, isdigit c = true
  value_lt : digitsValue text < 2 ^ 64

/-- `std::stoull` gives a number, but the text holds more than digits and white space around them. -/
def Lenient (text : Bytes) : Prop :=
  ∃ space sign digits rest, Numeral text space sign digits rest ∧ digitsValue digits < 2 ^ 64 ∧
    (sign ≠ [] ∨ ∃ c ∈ rest, isspace c = false)

end Bytes

open Bytes

/-- `parsePacket` accepts the datagram exactly if the text of its id is numeric, and takes its value. -/
structure AcceptsNumericIds (data text : Bytes) : Prop where
  valid_iff : (parsePacket data).valid = true ↔ Decimal64 (trim text)
  id_eq : (parsePacket data).valid = true → (parsePacket data).id.toNat = digitsValue (trim text)

structure PacketField where
  key : Bytes
  value : Bytes
  deriving DecidableEq

def PacketField.text (field : PacketField) : Bytes := field.key ++ 0x3D :: field.value

/-- The datagram made of these fields. -/
def joinFields (fields : List PacketField) : Bytes := Search.join 0x3B (fields.map PacketField.text)

/-- Fields with different keys, one of which is an id. -/
structure WellFormed (fields : List PacketField) (digits : Bytes) : Prop where
  nodup : (fields.map PacketField.key).Nodup
  key_ok : ∀ field ∈ fields, 0x3B ∉ field.key ∧ 0x3D ∉ field.key
  value_ok : ∀ field ∈ fields, 0x3B ∉ field.value
  id_mem : ⟨bytesOf "id", digits⟩ ∈ fields
  decimal : Decimal64 digits

/-- The value of the field `payload`, empty if there is none. -/
def payloadOf (fields : List PacketField) : Bytes :=
  match fields.find? fun field => field.key = bytesOf "payload" with
  | some field => field.value
  | none => []

/-- In every order, the fields parse to the packet with this id and their payload. -/
def ReadsFields (fields : List PacketField) (digits : Bytes) : Prop :=
  ∀ order : List PacketField, order.Perm fields →
    (parsePacket (joinFields order)).valid = true ∧
    (parsePacket (joinFields order)).id.toNat = digitsValue digits ∧
    (parsePacket (joinFields order)).payload = payloadOf fields

/-- Where `id=` or `payload=` occurs in a field, what follows its first occurrence is the id or the
payload. -/
def Unambiguous (fields : List PacketField) (digits : Bytes) : Prop :=
  ∀ field ∈ fields,
    (∀ rest ∈ Search.after (bytesOf "id=") field.text,
      stoull rest = some (UInt64.ofNat (digitsValue digits))) ∧
    ∀ rest ∈ Search.after (bytesOf "payload=") field.text, rest = payloadOf fields

end EdgeNetSwitch
