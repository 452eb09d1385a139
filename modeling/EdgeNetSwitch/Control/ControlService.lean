import EdgeNetSwitch.Control.ControlServer

/-!
# What the control server owes its clients

The properties of the control path, and the conditions under which it has them.
-/

namespace EdgeNetSwitch.Control

/-- `handler` reaches the argument: the part of the context that the command looks for first is there. -/
def Command.available (ctx : ControlContext) : Command → Bool
  | .showConfig => ctx.config.isSome
  | .sendPacket => ctx.bus
  | .showTable => ctx.forwarding_engine.isSome
  | .fdStatus => ctx.fd_registry.isSome
  | .transportStats => ctx.transport_manager.isSome
  | _ => true

/-- The strings of the configuration are UTF-8. -/
def quotableConfig (cfg : Core.Config) : Bool := Utf8.valid cfg.log.level && Utf8.valid cfg.log.file

/-- What a command quotes is UTF-8: its argument if it comes to look at it, and the configuration in
`show-config:json`. -/
def Command.Quotable (ctx : ControlContext) (arg : Bytes) (command : Command) : Prop :=
  command.available ctx → Utf8.valid arg ∧
    (command = .showConfig → arg = json → ∀ cfg ∈ ctx.config, quotableConfig cfg)

/-- What the response to a request quotes is UTF-8: the version, if the envelope is not refused before; in
version 1.2 also the name of the command, and what a command of this name quotes. -/
def ControlRequest.Quotable (ctx : ControlContext) (req : ControlRequest) : Prop :=
  req.version ≠ [] → req.command ≠ [] → Utf8.valid req.version ∧
    (req.version = bytesOf "1.2" → Utf8.valid (splitCommand req.command).1 ∧
      ∀ command ∈ Command.find (splitCommand req.command).1,
        command.Quotable ctx (splitCommand req.command).2)

/-- What the response to the bytes read quotes is UTF-8. -/
def Quotable (ctx : ControlContext) (cmd : Bytes) : Prop :=
  ∀ req ∈ parseRequest cmd, req.Quotable ctx

instance (ctx : ControlContext) (arg : Bytes) (command : Command) :
    Decidable (command.Quotable ctx arg) :=
  inferInstanceAs (Decidable (command.available ctx → _ ∧ (_ → _ → ∀ cfg ∈ ctx.config, _)))

instance (ctx : ControlContext) (req : ControlRequest) : Decidable (req.Quotable ctx) :=
  inferInstanceAs (Decidable (_ → _ → _ ∧ (_ → _ ∧ ∀ command ∈ Command.find _, command.Quotable ctx _)))

instance (ctx : ControlContext) (cmd : Bytes) : Decidable (Quotable ctx cmd) :=
  inferInstanceAs (Decidable (∀ req ∈ parseRequest cmd, req.Quotable ctx))

def ControlEvent.closed? : ControlEvent → Option ℕ
  | closed i => some i
  | _ => none

namespace Phase

/-- The client the epoll thread is serving. -/
def client? : Phase → Option ℕ
  | waiting | accepting => none
  | reading i | dispatching i _ | writing i _ | closing i => some i

def reading? : Phase → Option ℕ
  | reading i => some i
  | _ => none

def dispatching? : Phase → Option Bytes
  | dispatching _ cmd => some cmd
  | _ => none

def writing? : Phase → Option ℕ
  | writing i _ => some i
  | _ => none

end Phase

namespace ControlState

/-- What the server has done for client `i`. -/
def eventsOf (s : ControlState) (i : ℕ) : List ControlEvent := s.events.filter fun e => e.client = i

/-- The clients whose descriptors have been closed, in this order. -/
def served (s : ControlState) : List ℕ := s.events.filterMap ControlEvent.closed?

end ControlState

/-- The text is this request: the version, a `'|'`, and the command with spaces, tabs and line ends after it. -/
structure Says (text : Bytes) (req : ControlRequest) : Prop where
  split : ∃ blanks : Bytes, text = req.version ++ 0x7C :: (req.command ++ blanks) ∧
    ∀ c ∈ blanks, c = 0x20 ∨ c = 0x09 ∨ c = 0x0A ∨ c = 0x0D
  version : 0x7C ∉ req.version
  command : ∀ c ∈ req.command.getLast?, c ≠ 0x20 ∧ c ≠ 0x09 ∧ c ≠ 0x0A ∧ c ≠ 0x0D

/-- The context that a dispatch finds in this step. -/
def ControlLabel.context? : ControlLabel → Option ControlContext
  | .server ctx => some ctx
  | _ => none

/-- The service due to client `i` for `req`, when the dispatch finds the context `ctx`. -/
def service (p : Platform) (ctx : ControlContext) (i : ℕ) (req : ControlRequest) : List ControlEvent :=
  .dispatched i req ctx ::
    match (dispatchControlRequest p ctx req).response with
    | some resp => [.written i (wire resp), .closed i]
    | none => []

/-- What has been done for every client that writes a request and waits is the beginning of the service
due to it for this request, in one of the contexts there were. -/
def AnswersAsSent (p : Platform) (contexts : List ControlContext) (s : ControlState) : Prop :=
  ∀ i c req, s.connections[i]? = some c → c.client_closed = false → Says c.request req →
    s.eventsOf i = [] ∨ ∃ ctx ∈ contexts, s.eventsOf i <+: service p ctx i req

/-- A `read` finds what matters of the request of a waiting client: the `'|'`, and all that follows it but
blanks at the end. -/
def ReadsWhole (s : ControlState) : ControlLabel → Prop
  | .server _ => ∀ i ∈ s.phase.reading?, ∀ c ∈ s.connections[i]?, c.client_closed = false →
      0x7C ∈ c.request → 0x7C ∈ readBuffer c.available ∧
        (c.request.drop (readBuffer c.available).length).all isBlank
  | _ => True

/-- The daemon is alive, its epoll thread can go on, and it has served the clients in the order in which
they connected, each up to the `close` of its descriptor before it turned to the next. -/
structure Serves (p : Platform) (s : ControlState) : Prop where
  alive : s.alive = true
  ready : ∀ ctx, (s.step p (.server ctx)).isSome
  order : s.served ++ s.phase.client?.toList ++ s.backlog = List.range s.connections.length

/-- What the response quotes is UTF-8, and a client is still there when its response is written. -/
def Spared (s : ControlState) : ControlLabel → Prop
  | .server ctx => (∀ cmd ∈ s.phase.dispatching?, Quotable ctx cmd) ∧
      ∀ i ∈ s.phase.writing?, ∀ c ∈ s.connections[i]?, c.client_closed = false
  | _ => True

/-- The label of a call of the epoll thread. -/
def ControlLabel.IsServer : ControlLabel → Bool
  | .server _ => true
  | _ => false

instance : ∀ s l, Decidable (ReadsWhole s l)
  | s, .server _ => inferInstanceAs (Decidable (∀ i ∈ s.phase.reading?, ∀ c ∈ s.connections[i]?, _))
  | _, .connect _ | _, .write .. | _, .arrive .. | _, .closeClient _ => isTrue trivial

instance : ∀ s l, Decidable (Spared s l)
  | s, .server ctx => inferInstanceAs (Decidable ((∀ cmd ∈ s.phase.dispatching?, Quotable ctx cmd) ∧
      ∀ i ∈ s.phase.writing?, ∀ c ∈ s.connections[i]?, c.client_closed = false))
  | _, .connect _ | _, .write .. | _, .arrive .. | _, .closeClient _ => isTrue trivial

end EdgeNetSwitch.Control
