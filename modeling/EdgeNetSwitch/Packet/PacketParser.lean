import EdgeNetSwitch.Packet.Packet

/-!
# Parsing and validating datagrams

`parsePacket` of `src/packet/PacketParser.cpp` and `PacketValidator::validate` of
`src/packet/PacketValidator.cpp`, with the parts of the standard library they use.
-/

namespace EdgeNetSwitch

/-- `isspace` in the C locale. -/
def isspace (c : UInt8) : Bool := c == 0x20 || (0x09 ≤ c && c ≤ 0x0D)

def isdigit (c : UInt8) : Bool := 0x30 ≤ c && c ≤ 0x39

namespace Bytes

/-- `std::string::find(pat)`. -/
def find (pat : Bytes) : Bytes → Option ℕ
  | [] => if pat = [] then some 0 else none
  | c :: data => if pat.isPrefixOf (c :: data) then some 0 else (find pat data).map (· + 1)

/-- `std::string::find(pat, pos)`. -/
def findFrom (pat data : Bytes) (pos : ℕ) : Option ℕ := (find pat (data.drop pos)).map (· + pos)

/-- `std::string::substr(pos, len)`. -/
def substr (data : Bytes) (pos len : ℕ) : Bytes := (data.drop pos).take len

/-- The number a string of decimal digits stands for. -/
def digitsValue (digits : Bytes) : ℕ := digits.foldl (fun n c => 10 * n + (c.toNat - 0x30)) 0

/-- `std::stoull`: `none` where it throws. -/
def stoull (s : Bytes) : Option UInt64 :=
  let s := s.dropWhile isspace
  let negative := s.head? = some 0x2D
  let s := if negative ∨ s.head? = some 0x2B then s.tail else s
  let digits := s.takeWhile isdigit
  if digits = [] then none
  else if digitsValue digits ≥ 2 ^ 64 then none
  else if negative then some (0 - UInt64.ofNat (digitsValue digits))
  else some (UInt64.ofNat (digitsValue digits))

end Bytes

open Bytes

/-- The text of a field: what follows `pos + key.length`, up to the next `';'` after `pos`. -/
def fieldText (data key : Bytes) (pos : ℕ) : Bytes :=
  match findFrom (bytesOf ";") data pos with
  | some fin => substr data (pos + key.length) (fin - (pos + key.length))
  | none => data.drop (pos + key.length)

/-- `parsePacket`. -/
def parsePacket (data : Bytes) : Packet :=
  if data = [] then {}
  else
    match find (bytesOf "id=") data with
    | none => {}
    | some idPos =>
      let idStr := fieldText data (bytesOf "id=") idPos
      if idStr = [] then {}
      else
        match stoull idStr with
        | none => {}
        | some id =>
          let payload :=
            match find (bytesOf "payload=") data with
            | some payloadPos => fieldText data (bytesOf "payload=") payloadPos
            | none => []
          { id, payload, payload_size := payload.length.toUInt32, valid := true }

inductive PacketRejectReason where
  | none
  | invalidFormat
  | emptyPayload
  | missingSource
  | payloadTooLarge
  deriving DecidableEq

structure ValidationResult where
  accepted : Bool
  reason : PacketRejectReason
  deriving DecidableEq

/-- `PacketValidator::validate`. -/
def PacketValidator.validate (packet : Packet) : ValidationResult :=
  if !packet.valid then ⟨false, .invalidFormat⟩
  else if packet.payload.isEmpty || packet.payload.all isspace then ⟨false, .emptyPayload⟩
  else if packet.source_ip.isEmpty then ⟨false, .missingSource⟩
  else if packet.payload.length > 512 then ⟨false, .payloadTooLarge⟩
  else ⟨true, .none⟩

end EdgeNetSwitch
