import EdgeNetSwitch.Control.ControlDispatch
import EdgeNetSwitch.Runs.Runs
import Mathlib.Data.List.DropRight

/-!
# The control server

`ControlServer` of `src/control/ControlServer.cpp`, on the epoll thread, between the clients and a UNIX
stream socket. The socket delivers what a client writes in order, in segments of any size, and takes a
response whole. A write to a client that has closed raises `SIGPIPE`, for which the daemon installs no
handler; `EpollEventLoop::run` catches no exception. Either ends the process.
-/

namespace EdgeNetSwitch.Control

/-- The bytes trimmed from the end of a command. -/
def isBlank (c : UInt8) : Bool := c == 0x20 || c == 0x0A || c == 0x0D || c == 0x09

/-- The parse of `handleClient`. -/
def parseRequest (cmd : Bytes) : Option ControlRequest :=
  (Bytes.find (bytesOf "|") cmd).map fun sep =>
    { version := cmd.take sep, command := (cmd.drop (sep + 1)).rdropWhile isBlank }

/-- `read` into the buffer of `handleClient`: at most 127 bytes of what the socket holds, and none if it
would block or has come to the end. -/
def readBuffer (available : Bytes) : Bytes := available.take 127

/-- `handleClient`, from the bytes read to the response. -/
def respond (p : Platform) (ctx : ControlContext) (cmd : Bytes) : Reply :=
  match parseRequest cmd with
  | some req => dispatchControlRequest p ctx req
  | none => { response := makeJsonError p.dump error.invalidRequest (bytesOf "malformed_request") }

/-- The bytes `writeControlResponse` writes. -/
def wire (resp : ControlResponse) : Bytes :=
  if resp.payload = [] then encodeResponse resp else resp.payload

/-- `handleClient` with a socket that holds `available`: what it writes before it closes, if anything.
`none` is an exception. -/
def handleClient (p : Platform) (ctx : ControlContext) (available : Bytes) : Option (Option Bytes) :=
  if readBuffer available = [] then some none
  else (respond p ctx (readBuffer available)).response.map fun resp => some (wire resp)

/-- A connection: all that the client writes in the end, and how far it has come. -/
structure Connection where
  request : Bytes
  unsent : Bytes
  in_flight : Bytes := []
  available : Bytes := []
  client_closed : Bool := false

/-- Where the epoll thread is: in `epoll_wait`, before the `accept4` of `processReadableEvent`, or in
`handleClient` before its `read`, its dispatch, its `write` or its `close`. -/
inductive Phase where
  | waiting
  | accepting
  | reading (i : ℕ)
  | dispatching (i : ℕ) (cmd : Bytes)
  | writing (i : ℕ) (resp : ControlResponse)
  | closing (i : ℕ)

/-- What the server has done for a client. -/
inductive ControlEvent where
  | dispatched (i : ℕ) (req : ControlRequest) (ctx : ControlContext)
  | written (i : ℕ) (bytes : Bytes)
  | closed (i : ℕ)

def ControlEvent.client : ControlEvent → ℕ
  | dispatched i _ _ => i
  | written i _ => i
  | closed i => i

/-- Clients are numbered in the order in which they connect, and `backlog` are those not accepted yet.
`events` only records what happened. -/
structure ControlState where
  connections : List Connection := []
  backlog : List ℕ := []
  phase : Phase := .waiting
  alive : Bool := true
  events : List ControlEvent := []

/-- What happens next. A client connects, and `request` is all that it will have written; it writes `n`
further bytes; `n` bytes arrive; it closes; or the epoll thread does its next call, where a dispatch finds
the context `ctx`. -/
inductive ControlLabel where
  | connect (request : Bytes)
  | write (i n : ℕ)
  | arrive (i n : ℕ)
  | closeClient (i : ℕ)
  | server (ctx : ControlContext)

namespace Connection

def write (c : Connection) (n : ℕ) : Connection :=
  { c with unsent := c.unsent.drop n, in_flight := c.in_flight ++ c.unsent.take n }

def arrive (c : Connection) (n : ℕ) : Connection :=
  { c with in_flight := c.in_flight.drop n, available := c.available ++ c.in_flight.take n }

def read (c : Connection) : Connection := { c with available := c.available.drop 127 }

end Connection

namespace ControlState

/-- Something happens to the connection of client `i`. -/
def onConnection (s : ControlState) (i : ℕ) (f : Connection → Connection) : ControlState :=
  { s with connections := s.connections.modify i f }

/-- The event of a dispatch; a malformed request is not dispatched. -/
def dispatchEvents (i : ℕ) (cmd : Bytes) (ctx : ControlContext) : List ControlEvent :=
  (parseRequest cmd).toList.map fun req => .dispatched i req ctx

/-- The next call of the epoll thread. -/
def serve (p : Platform) (ctx : ControlContext) (s : ControlState) : ControlState :=
  match s.phase with
  | .waiting => if s.backlog = [] then s else { s with phase := .accepting }
  | .accepting =>
    match s.backlog with
    | [] => { s with phase := .waiting }
    | i :: backlog => { s with backlog, phase := .reading i }
  | .reading i =>
    match s.connections[i]? with
    | none => s
    | some c =>
      let s := s.onConnection i Connection.read
      if readBuffer c.available = [] then { s with phase := .closing i }
      else { s with phase := .dispatching i (readBuffer c.available) }
  | .dispatching i cmd =>
    let s := { s with events := s.events ++ dispatchEvents i cmd ctx }
    match (respond p ctx cmd).response with
    | some resp => { s with phase := .writing i resp }
    | none => { s with alive := false }
  | .writing i resp =>
    match s.connections[i]? with
    | none => s
    | some c =>
      if c.client_closed then { s with alive := false }
      else { s with phase := .closing i, events := s.events ++ [.written i (wire resp)] }
  | .closing i => { s with phase := .accepting, events := s.events ++ [.closed i] }

def step (p : Platform) : ControlLabel → ControlState → Option ControlState
  | .connect request, s =>
    if s.alive then
      some { s with
        connections := s.connections ++ [{ request, unsent := request }]
        backlog := s.backlog ++ [s.connections.length] }
    else none
  | .write i n, s =>
    match s.connections[i]? with
    | some c => if c.client_closed then none else some (s.onConnection i fun c => c.write n)
    | none => none
  | .arrive i n, s => some (s.onConnection i fun c => c.arrive n)
  | .closeClient i, s => some (s.onConnection i fun c => { c with client_closed := true })
  | .server ctx, s => if s.alive then some (s.serve p ctx) else none

end ControlState

end EdgeNetSwitch.Control
