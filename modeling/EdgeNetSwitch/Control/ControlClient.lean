import EdgeNetSwitch.Control.ControlService
import EdgeNetSwitch.Json.Numbers

/-!
# The command line

`executeControlCommand` of `src/daemon/main.cpp`: a process that sends one request to the control server and
prints the answer. Everything else, that is the server, the other clients and the sockets, goes on beside it.
A connection whose server end has been closed, by the server or with its process, is at its end once the bytes
written to it have been read; a write to it raises `SIGPIPE`.
-/

namespace EdgeNetSwitch.Control

/-- `nlohmann::json::parse` without exceptions: `none` is a discarded value. -/
abbrev Parse := Bytes → Option Json

/-- A blank of the JSON grammar. -/
def isJsonBlank (c : UInt8) : Bool := c == 0x20 || c == 0x09 || c == 0x0A || c == 0x0D

/-- The text without a byte order mark. -/
def skipBom : Bytes → Bytes
  | 0xEF :: 0xBB :: 0xBF :: text => text
  | text => text

/-- What is assumed of the JSON library: what it prints it reads, and the text of an object begins with a brace,
after a byte order mark and blanks if there are any. -/
structure ReadsBack (dump : Dump) (parse : Parse) : Prop where
  dumped : ∀ j text, dump j = some text → ∃ j', parse text = some j' ∧ j.Alike j'
  object : ∀ text fields, parse text = some (.object fields) →
    ((skipBom text).dropWhile isJsonBlank).head? = some 0x7B

/-- The bytes `executeControlCommand` writes. -/
def cliRequest (command : Bytes) : Bytes := bytesOf "1.2" ++ bytesOf "|" ++ command

/-- The command of the arguments: `help` takes a further one. -/
def cliCommand (first : Bytes) (second : Option Bytes) : Bytes :=
  match second with
  | some target => if first = bytesOf "help" then first ++ bytesOf ":" ++ target else first
  | none => first

/-- What `executeControlCommand` returns once it has read all of `accum`. -/
def cliResult (parse : Parse) (accum : Bytes) : Bool :=
  if accum = [] then false
  else
    match parse accum with
    | some (.object fields) =>
      match fields.lookup (bytesOf "status") with
      | some (.string status) => status = bytesOf "ok"
      | _ => true
    | _ => true

namespace ControlState

/-- What has been written to client `i`. -/
def writtenTo (s : ControlState) (i : ℕ) : List Bytes :=
  s.events.filterMap fun
    | .written j bytes => if j = i then some bytes else none
    | _ => none

/-- The server end of the connection of client `i` is closed. -/
def hungUp (s : ControlState) (i : ℕ) : Bool :=
  !s.alive || s.events.any fun
    | .closed j => j = i
    | _ => false

end ControlState

/-- Where `executeControlCommand` is: before `socket`, `connect` or `write`, in the loop that reads, or at its
end, which it does not reach if a signal kills the process. -/
inductive CliPhase where
  | creating
  | connecting
  | writing (i : ℕ)
  | reading (i : ℕ)
  | finished (ok : Bool)
  | killed

structure CliState where
  server : ControlState := {}
  phase : CliPhase := .creating
  accum : Bytes := []

/-- What happens next. The process does its next call, where `socket` may fail and a `read` may return fewer
bytes than there are; or something else happens. -/
inductive CliLabel where
  | call (created : Bool) (count : ℕ)
  | other (l : ControlLabel)

/-- What the process itself does to its connection. -/
def CliPhase.owns : CliPhase → ControlLabel → Bool
  | writing i, .write j _ | reading i, .write j _ | writing i, .closeClient j | reading i, .closeClient j => i = j
  | _, _ => false

namespace CliState

/-- A `read` of at most `count` bytes into the buffer, or of none at the end of the connection. -/
def read (parse : Parse) (i count : ℕ) (s : CliState) : Option CliState :=
  match (s.server.writtenTo i).flatten.drop s.accum.length with
  | [] =>
    if s.server.hungUp i then some { s with phase := .finished (cliResult parse s.accum) } else none
  | c :: rest =>
    -- a `read` that returns has got one byte at least
    some { s with accum := s.accum ++ (c :: rest).take (min (max count 1) 255) }

def step (p : Platform) (parse : Parse) (command : Bytes) : CliLabel → CliState → Option CliState
  | .other l, s =>
    if s.phase.owns l then none else (s.server.step p l).map fun server => { s with server }
  | .call created count, s =>
    match s.phase with
    | .creating => some { s with phase := if created then .connecting else .finished false }
    | .connecting =>
      if s.server.alive then
        (s.server.step p (.connect (cliRequest command))).map fun server =>
          { s with server, phase := .writing s.server.connections.length }
      else some { s with phase := .finished false }
    | .writing i =>
      if s.server.hungUp i then some { s with phase := .killed }
      else
        (s.server.step p (.write i (cliRequest command).length)).map fun server =>
          { s with server, phase := .reading i }
    | .reading i => s.read parse i count
    | .finished _ | .killed => none

end CliState

/-! ## What clients get -/

/-- A `read` may have got this of a request. -/
structure Heard (request cmd : Bytes) : Prop where
  ne_nil : cmd ≠ []
  isPrefix : cmd <+: request
  length_le : cmd.length ≤ 127

/-- The response to what has been heard of the request, in one of these contexts: that of the dispatch if it is a
request, and a refusal otherwise. -/
def Answers (p : Platform) (contexts : List ControlContext) (request : Bytes) (resp : ControlResponse) : Prop :=
  ∃ cmd, Heard request cmd ∧
    ((∃ req, Says cmd req ∧ ∃ ctx ∈ contexts, (dispatchControlRequest p ctx req).response = some resp) ∨
      (0x7C ∉ cmd ∧ makeJsonError p.dump (bytesOf "invalid_request") (bytesOf "malformed_request") = some resp))

/-- Nothing has been written to a client, or one whole answer. -/
def RepliedOnce (p : Platform) (contexts : List ControlContext) (request : Bytes) (written : List Bytes) : Prop :=
  written = [] ∨ ∃ resp, Answers p contexts request resp ∧ written = [wire resp]

/-- The context that a dispatch finds in this step. -/
def CliLabel.context? : CliLabel → Option ControlContext
  | call _ _ => none
  | other l => l.context?

/-- The command line has got no answer and fails, or one whole answer to its request, of which it tells
whether it is a success. -/
def ReportsAnswer (p : Platform) (contexts : List ControlContext) (command accum : Bytes) (ok : Bool) : Prop :=
  (accum = [] ∧ ok = false) ∨
    ∃ resp, Answers p contexts (cliRequest command) resp ∧ accum = wire resp ∧ ok = resp.success

end EdgeNetSwitch.Control
