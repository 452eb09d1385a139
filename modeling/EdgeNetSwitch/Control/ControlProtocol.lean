import EdgeNetSwitch.Json.Json
import EdgeNetSwitch.Packet.PacketParser

/-!
# The control protocol

Requests, responses and version checks of `include/edgenetswitch/control/ControlProtocol.hpp`, the wire
format of `ControlWire.hpp`, and the responses of `src/control/JsonResponse.hpp`. The JSON library is not
part of the repository: `json::dump` is a parameter, and gives `none` where it throws.
-/

namespace EdgeNetSwitch.Control

/-- `json::dump`. -/
abbrev Dump := Json → Option Bytes

/-- With its default error handler, `json::dump` throws at a string that is not UTF-8 and nowhere else. -/
def Dump.Strict (dump : Dump) : Prop := ∀ j, (dump j).isSome = j.utf8

namespace error

def invalidRequest : Bytes := bytesOf "invalid_request"
def invalidVersionFormat : Bytes := bytesOf "invalid_version_format"
def unsupportedVersion : Bytes := bytesOf "unsupported_version"
def unknownCommand : Bytes := bytesOf "unknown_command"
def internalError : Bytes := bytesOf "internal_error"

end error

def isValidProtocolVersion (v : Bytes) : Bool := v == bytesOf "1.2"

def isWellFormedVersion : Bytes → Bool
  | [major, dot, minor] => isdigit major && dot == 0x2E && isdigit minor
  | _ => false

structure ControlRequest where
  version : Bytes
  command : Bytes
  deriving DecidableEq

structure ControlResponse where
  success : Bool := false
  payload : Bytes := []
  error_code : Bytes := []
  message : Bytes := []
  deriving DecidableEq

def newline : Bytes := bytesOf "\n"

def encodeResponse (resp : ControlResponse) : Bytes :=
  if resp.success then
    let body :=
      if resp.payload = [] then []
      else if resp.payload.getLast? ≠ newline.head? then resp.payload ++ newline
      else resp.payload
    bytesOf "OK\n" ++ body ++ bytesOf "END\n"
  else
    let code := if resp.error_code = [] then error.internalError else resp.error_code
    let msg := if resp.message = [] then bytesOf "internal error" else resp.message
    bytesOf "ERR\n" ++ bytesOf "error_code=" ++ code ++ newline ++ bytesOf "message=" ++ msg ++
      newline ++ bytesOf "END\n"

/-- An object with ASCII keys. -/
def jsonObject (fields : List (String × Json)) : Json :=
  Json.ofFields (fields.map fun field => (bytesOf field.1, field.2))

/-- An ASCII literal as a value. -/
def jsonText (s : String) : Json := .string (bytesOf s)

def makeJsonSuccess (dump : Dump) (data : Json) : Option ControlResponse := do
  let payload ← dump (jsonObject [("status", jsonText "ok"), ("data", data)])
  return { success := true, payload }

def makeJsonError (dump : Dump) (code msg : Bytes) : Option ControlResponse := do
  let payload ← dump (jsonObject [("status", jsonText "error"),
    ("error", jsonObject [("code", .string code), ("message", .string msg)])])
  return { success := false, payload, error_code := code, message := msg }

/-- `std::to_string` of an unsigned number. -/
def to_string (n : ℕ) : Bytes := (Nat.toDigits 10 n).map fun c => c.toNat.toUInt8

/-- `std::to_string` of an `int`. -/
def to_string_int (n : ℤ) : Bytes := if n < 0 then bytesOf "-" ++ to_string n.natAbs else to_string n.natAbs

/-- The nearest natural number, the even one of two. -/
def roundHalfEven (x : ℚ) : ℕ :=
  let n := x.floor.toNat
  if x - n < 1 / 2 ∨ x - n = 1 / 2 ∧ n % 2 = 0 then n else n + 1

/-- `std::to_string` of a finite `double`: `%f`, with six decimals. -/
def to_string_double (x : ℚ) : Bytes :=
  let n := roundHalfEven ((if x < 0 then -x else x) * 10 ^ 6)
  let decimals := to_string (n % 10 ^ 6)
  let sign := if x < 0 then bytesOf "-" else []
  sign ++ to_string (n / 10 ^ 6) ++ bytesOf "." ++ List.replicate (6 - decimals.length) 0x30 ++ decimals

end EdgeNetSwitch.Control
