import EdgeNetSwitch.Control.Proofs.ControlDispatchProofs

/-!
# The control server and its clients

What one call of the epoll thread does is said once, in `Call`. From it follow the order of service
(`Ledger`), what each waiting client has got (`Standing`), and how many calls a client still has to wait. That
these calls do together what `handleClient` does is `calls_of_handleClient` and `dead_of_handleClient`.
-/

namespace EdgeNetSwitch.Control

open Runs

section Parse

theorem find_bar_cons (c : UInt8) (cmd : Bytes) : Bytes.find (bytesOf "|") (c :: cmd) =
    if c = 0x7C then some 0 else (Bytes.find (bytesOf "|") cmd).map (· + 1) := by
  have hbar : bytesOf "|" = [0x7C] := by decide
  rw [hbar]
  exact find_char_cons 0x7C c cmd

/-- The parse of a text with a `'|'`. -/
theorem parseRequest_split {version : Bytes} (h : 0x7C ∉ version) (rest : Bytes) :
    parseRequest (version ++ 0x7C :: rest) = some { version, command := rest.rdropWhile isBlank } := by
  have hfind : Bytes.find (bytesOf "|") (version ++ 0x7C :: rest) = some version.length := by
    induction version with
    | nil => rw [List.nil_append, find_bar_cons, if_pos rfl, List.length_nil]
    | cons c version ih =>
      obtain ⟨hne, hrest⟩ := List.ne_and_not_mem_of_not_mem_cons h
      rw [List.cons_append, find_bar_cons, if_neg hne.symm, ih hrest]
      rfl
  rw [parseRequest, hfind, Option.map_some, List.take_left, ← List.drop_drop, List.drop_left]
  rfl

theorem parseRequest_eq_none {cmd : Bytes} (h : 0x7C ∉ cmd) : parseRequest cmd = none := by
  have hfind : Bytes.find (bytesOf "|") cmd = none := by
    induction cmd with
    | nil => rfl
    | cons c cmd ih =>
      obtain ⟨hne, hrest⟩ := List.ne_and_not_mem_of_not_mem_cons h
      rw [find_bar_cons, if_neg hne.symm, ih hrest]
      rfl
  rw [parseRequest, hfind]
  rfl

theorem bar_mem_of_parseRequest {cmd : Bytes} {req : ControlRequest} (h : parseRequest cmd = some req) :
    0x7C ∈ cmd := by
  by_contra hbar
  rw [parseRequest_eq_none hbar] at h
  cases h

theorem rdropWhile_append_all {p : UInt8 → Bool} {rest : Bytes} (h : rest.all p = true) (cmd : Bytes) :
    (cmd ++ rest).rdropWhile p = cmd.rdropWhile p := by
  induction rest using List.reverseRecOn with
  | nil => rw [List.append_nil]
  | append_singleton rest c ih =>
    have hboth : rest.all p = true ∧ p c = true := by simpa using h
    rw [← List.append_assoc, List.rdropWhile_concat_pos _ _ _ hboth.2, ih hboth.1]

/-- What is read of a request stands for the whole if it has the `'|'` and only blanks are missing. -/
theorem parseRequest_append {cmd rest : Bytes} (hbar : 0x7C ∈ cmd) (hblank : rest.all isBlank = true) :
    parseRequest (cmd ++ rest) = parseRequest cmd := by
  obtain ⟨version, command, rfl, hversion⟩ := List.eq_append_cons_of_mem hbar
  rw [List.append_assoc, List.cons_append, parseRequest_split hversion, parseRequest_split hversion,
    rdropWhile_append_all hblank]

theorem isBlank_iff (c : UInt8) : isBlank c = true ↔ c = 0x20 ∨ c = 0x09 ∨ c = 0x0A ∨ c = 0x0D := by
  simp only [isBlank, Bool.or_eq_true, beq_iff_eq]
  tauto

/-- The code finds the request that a text is. -/
theorem parseRequest_eq_some_iff {cmd : Bytes} {req : ControlRequest} :
    parseRequest cmd = some req ↔ Says cmd req := by
  constructor
  · intro h
    obtain ⟨version, rest, rfl, hversion⟩ := List.eq_append_cons_of_mem (bar_mem_of_parseRequest h)
    rw [parseRequest_split hversion] at h
    obtain rfl := Option.some.inj h
    refine ⟨⟨rest.rtakeWhile isBlank, ?_, fun c hc => (isBlank_iff c).1 (List.mem_rtakeWhile_imp hc)⟩, hversion, ?_⟩
    · rw [List.rdropWhile_append_rtakeWhile]
    · intro c hc
      have hne : rest.rdropWhile isBlank ≠ [] := by
        intro hnil
        simp only [hnil, List.getLast?_nil, Option.mem_def] at hc
        cases hc
      have hlast := List.rdropWhile_last_not isBlank rest hne
      obtain rfl := Option.some.inj ((List.getLast?_eq_some_getLast hne).symm.trans hc)
      rw [isBlank_iff] at hlast
      tauto
  · rintro ⟨⟨blanks, rfl, hblanks⟩, hversion, hcommand⟩
    have hall : blanks.all isBlank = true := List.all_eq_true.2 fun c hc => (isBlank_iff c).2 (hblanks c hc)
    have hself : req.command.rdropWhile isBlank = req.command := by
      rw [List.rdropWhile_eq_self_iff]
      intro hne hblank
      have hlast := hcommand _ (List.getLast?_eq_some_getLast hne)
      rw [isBlank_iff] at hblank
      tauto
    rw [parseRequest_split hversion, rdropWhile_append_all hall, hself]

end Parse

/-- What one call of the epoll thread does, when the dispatch finds the context `ctx`. -/
inductive Call (p : Platform) (ctx : ControlContext) (s : ControlState) : ControlState → Prop where
  /-- `epoll_wait` times out. -/
  | idle (hphase : s.phase = .waiting) (hbacklog : s.backlog = []) : Call p ctx s s
  /-- The connection of the client in service is missing, which does not happen. -/
  | lost {i : ℕ} (hclient : s.phase.client? = some i) (hconnection : s.connections[i]? = none) :
      Call p ctx s s
  | wake (hphase : s.phase = .waiting) (hbacklog : s.backlog ≠ []) :
      Call p ctx s { s with phase := .accepting }
  | leave (hphase : s.phase = .accepting) (hbacklog : s.backlog = []) :
      Call p ctx s { s with phase := .waiting }
  | accept {i : ℕ} {backlog : List ℕ} (hphase : s.phase = .accepting) (hbacklog : s.backlog = i :: backlog) :
      Call p ctx s { s with backlog, phase := .reading i }
  | readNothing {i : ℕ} {c : Connection} (hphase : s.phase = .reading i)
      (hconnection : s.connections[i]? = some c) (hempty : readBuffer c.available = []) :
      Call p ctx s { s.onConnection i Connection.read with phase := .closing i }
  | read {i : ℕ} {c : Connection} (hphase : s.phase = .reading i)
      (hconnection : s.connections[i]? = some c) (hsome : readBuffer c.available ≠ []) :
      Call p ctx s
        { s.onConnection i Connection.read with phase := .dispatching i (readBuffer c.available) }
  | dispatch {i : ℕ} {cmd : Bytes} {resp : ControlResponse} (hphase : s.phase = .dispatching i cmd)
      (hresp : (respond p ctx cmd).response = some resp) :
      Call p ctx s
        { s with
          events := s.events ++ ControlState.dispatchEvents i cmd ctx
          phase := .writing i resp }
  | throw {i : ℕ} {cmd : Bytes} (hphase : s.phase = .dispatching i cmd)
      (hresp : (respond p ctx cmd).response = none) :
      Call p ctx s
        { s with events := s.events ++ ControlState.dispatchEvents i cmd ctx, alive := false }
  | write {i : ℕ} {resp : ControlResponse} {c : Connection} (hphase : s.phase = .writing i resp)
      (hconnection : s.connections[i]? = some c) (hopen : c.client_closed = false) :
      Call p ctx s { s with phase := .closing i, events := s.events ++ [.written i (wire resp)] }
  /-- `SIGPIPE`. -/
  | kill {i : ℕ} {resp : ControlResponse} {c : Connection} (hphase : s.phase = .writing i resp)
      (hconnection : s.connections[i]? = some c) (hclosed : c.client_closed = true) :
      Call p ctx s { s with alive := false }
  | close {i : ℕ} (hphase : s.phase = .closing i) :
      Call p ctx s { s with phase := .accepting, events := s.events ++ [.closed i] }

theorem serve_call (p : Platform) (ctx : ControlContext) (s : ControlState) :
    Call p ctx s (s.serve p ctx) := by
  obtain ⟨connections, backlog, phase, alive, events⟩ := s
  cases phase with
  | waiting =>
    dsimp only [ControlState.serve]
    split_ifs with hbacklog
    · exact .idle rfl hbacklog
    · exact .wake rfl hbacklog
  | accepting =>
    cases backlog with
    | nil => exact .leave rfl rfl
    | cons i backlog => exact .accept rfl rfl
  | reading i =>
    dsimp only [ControlState.serve]
    cases hconnection : connections[i]? with
    | none => exact .lost rfl hconnection
    | some c =>
      dsimp only
      split_ifs with hempty
      · exact .readNothing rfl hconnection hempty
      · exact .read rfl hconnection hempty
  | dispatching i cmd =>
    dsimp only [ControlState.serve]
    cases hresp : (respond p ctx cmd).response with
    | none => exact .throw rfl hresp
    | some resp => exact .dispatch rfl hresp
  | writing i resp =>
    dsimp only [ControlState.serve]
    cases hconnection : connections[i]? with
    | none => exact .lost rfl hconnection
    | some c =>
      dsimp only
      split_ifs with hclosed
      · exact .kill rfl hconnection hclosed
      · exact .write rfl hconnection (by simpa using hclosed)
  | closing i => exact .close rfl

/-- What the server can still read of a connection. -/
def Connection.stream (c : Connection) : Bytes := c.available ++ c.in_flight ++ c.unsent

/-- From `c` to `d` the client and the socket have done something. -/
structure Connection.Continues (c d : Connection) : Prop where
  request : d.request = c.request
  stream : d.stream = c.stream
  open_before : d.client_closed = false → c.client_closed = false

theorem Connection.continues_write (c : Connection) (n : ℕ) : c.Continues (c.write n) := by
  refine ⟨rfl, ?_, id⟩
  show c.available ++ (c.in_flight ++ c.unsent.take n) ++ c.unsent.drop n = _
  rw [List.append_assoc, List.append_assoc, List.take_append_drop, ← List.append_assoc]
  rfl

theorem Connection.continues_arrive (c : Connection) (n : ℕ) : c.Continues (c.arrive n) := by
  refine ⟨rfl, ?_, id⟩
  show c.available ++ c.in_flight.take n ++ c.in_flight.drop n ++ c.unsent = _
  rw [List.append_assoc c.available, List.take_append_drop]
  rfl

variable {p : Platform} {ctx : ControlContext} {s t : ControlState} {l : ControlLabel}

/-- A step is a call of the epoll thread, a new client, or something that happens to one connection. -/
theorem step_cases (h : s.step p l = some t) :
    (∃ ctx, l = .server ctx ∧ s.alive = true ∧ Call p ctx s t) ∨
    (∃ request, l = .connect request ∧ t = { s with
      connections := s.connections ++ [{ request, unsent := request }]
      backlog := s.backlog ++ [s.connections.length] }) ∨
    l.IsServer = false ∧ ∃ i f, (∀ c : Connection, c.Continues (f c)) ∧ t = s.onConnection i f := by
  cases l with
  | server ctx =>
    simp only [ControlState.step] at h
    split_ifs at h with halive
    obtain rfl := Option.some.inj h
    exact Or.inl ⟨ctx, rfl, halive, serve_call p ctx s⟩
  | connect request =>
    simp only [ControlState.step] at h
    split_ifs at h
    exact Or.inr (Or.inl ⟨request, rfl, (Option.some.inj h).symm⟩)
  | write i n =>
    simp only [ControlState.step] at h
    split at h
    · split_ifs at h
      refine Or.inr (Or.inr ⟨rfl, i, fun c => c.write n, fun c => c.continues_write n, ?_⟩)
      exact (Option.some.inj h).symm
    · exact absurd h nofun
  | arrive i n =>
    refine Or.inr (Or.inr ⟨rfl, i, fun c => c.arrive n, fun c => c.continues_arrive n, ?_⟩)
    exact (Option.some.inj h).symm
  | closeClient i =>
    refine Or.inr (Or.inr ⟨rfl, i, fun c => { c with client_closed := true }, fun c => ?_, ?_⟩)
    · exact ⟨rfl, rfl, nofun⟩
    · exact (Option.some.inj h).symm

section Order

variable {i j : ℕ}

/-- Every client is served, in service or waiting, in the order in which the clients connected, and nothing
is done for others. -/
structure Ledger (s : ControlState) : Prop where
  order : s.served ++ s.phase.client?.toList ++ s.backlog = List.range s.connections.length
  known : ∀ e ∈ s.events, e.client < s.connections.length

/-- A client in service has not been served, and waits no longer. -/
theorem Ledger.serving (hs : Ledger s) (hi : s.phase.client? = some i) : i ∉ s.served ∧ i ∉ s.backlog := by
  have hnodup : (s.served ++ [i] ++ s.backlog).Nodup := by
    have hrange : (List.range s.connections.length).Nodup := List.nodup_range
    rw [← hs.order, hi] at hrange
    exact hrange
  simp only [List.append_assoc, List.singleton_append, List.nodup_append, List.nodup_cons,
    List.mem_cons] at hnodup
  obtain ⟨-, ⟨hbacklog, -⟩, hserved⟩ := hnodup
  exact ⟨fun hmem => hserved i hmem i (Or.inl rfl) rfl, hbacklog⟩

theorem Ledger.mem_iff (hs : Ledger s) : i < s.connections.length ↔
    i ∈ s.served ∨ s.phase.client? = some i ∨ i ∈ s.backlog := by
  rw [← List.mem_range, ← hs.order, List.mem_append, List.mem_append, Option.mem_toList, or_assoc]

@[simp] theorem closed?_written (i : ℕ) (bytes : Bytes) :
    (ControlEvent.written i bytes).closed? = none := rfl

/-- Dispatching closes nothing. -/
@[simp] theorem closed?_dispatchEvents (i : ℕ) (cmd : Bytes) (ctx : ControlContext) :
    (ControlState.dispatchEvents i cmd ctx).filterMap ControlEvent.closed? = [] := by
  unfold ControlState.dispatchEvents
  cases parseRequest cmd <;> rfl

theorem client_dispatchEvents {cmd : Bytes} {e : ControlEvent}
    (h : e ∈ ControlState.dispatchEvents i cmd ctx) : e.client = i := by
  obtain ⟨req, _, rfl⟩ := List.mem_map.1 h
  rfl

theorem Call.order (h : Call p ctx s t) (hs : Ledger s) :
    t.served ++ t.phase.client?.toList ++ t.backlog = List.range t.connections.length := by
  have horder := hs.order
  unfold ControlState.served at horder ⊢
  cases h with
  | idle | lost | kill => exact horder
  | wake hphase | leave hphase =>
    rw [hphase] at horder
    exact horder
  | accept hphase hbacklog =>
    rw [hphase, hbacklog] at horder
    simpa [Phase.client?] using horder
  | readNothing hphase | read hphase | dispatch hphase | throw hphase | write hphase | close hphase =>
    rw [hphase] at horder
    simpa [Phase.client?, ControlState.onConnection, ControlEvent.closed?, List.filterMap_cons,
      hphase] using horder

/-- A call does something for the client in service only. -/
theorem Call.events (h : Call p ctx s t) : ∃ events, t.events = s.events ++ events ∧
    ∀ e ∈ events, s.phase.client? = some e.client := by
  cases h with
  | idle | lost | kill | wake | leave | accept | readNothing | read =>
    exact ⟨[], (List.append_nil _).symm, fun _ he => absurd he List.not_mem_nil⟩
  | dispatch hphase | throw hphase =>
    refine ⟨_, rfl, fun e he => ?_⟩
    rw [hphase, client_dispatchEvents he]
    rfl
  | write hphase | close hphase =>
    refine ⟨_, rfl, fun e he => ?_⟩
    rw [hphase, List.mem_singleton.1 he]
    rfl

theorem Call.connections_length (h : Call p ctx s t) : t.connections.length = s.connections.length := by
  cases h with
  | readNothing | read => exact List.length_modify ..
  | _ => rfl

theorem Ledger.step (h : s.step p l = some t) (hs : Ledger s) : Ledger t := by
  rcases step_cases h with ⟨ctx, -, -, hcall⟩ | ⟨request, -, rfl⟩ | ⟨-, i, f, -, rfl⟩
  · refine ⟨hcall.order hs, fun e he => ?_⟩
    rw [hcall.connections_length]
    obtain ⟨events, hevents, hclient⟩ := hcall.events
    rw [hevents, List.mem_append] at he
    rcases he with hold | hnew
    · exact hs.known e hold
    · exact hs.mem_iff.2 (Or.inr (Or.inl (hclient e hnew)))
  · refine ⟨?_, fun e he => ?_⟩
    · rw [List.length_append, List.length_singleton, List.range_succ, ← hs.order,
        List.append_assoc _ s.backlog]
      rfl
    · rw [List.length_append]
      exact Nat.lt_add_right 1 (hs.known e he)
  · refine ⟨?_, fun e he => ?_⟩
    · rw [ControlState.onConnection, List.length_modify]
      exact hs.order
    · rw [ControlState.onConnection, List.length_modify]
      exact hs.known e he

theorem ledger_initial : Ledger {} := ⟨rfl, fun _ he => absurd he List.not_mem_nil⟩

end Order

section Answers

variable {i j : ℕ} {c d : Connection} {req : ControlRequest}

/-- What has been done for a client in service, when the epoll thread is in a phase. In the dispatch the
process may have ended. -/
def InService (p : Platform) (s : ControlState) (j : ℕ) (c : Connection) (req : ControlRequest) :
    Phase → Prop
  | .reading _ => s.eventsOf j = [] ∧ c.stream = c.request
  | .dispatching _ cmd => parseRequest cmd = some req ∧ (s.alive = true → s.eventsOf j = []) ∧
      ∃ ctx, s.eventsOf j <+: service p ctx j req
  | .writing _ resp => ∃ ctx, (dispatchControlRequest p ctx req).response = some resp ∧
      s.eventsOf j = [.dispatched j req ctx]
  | .closing _ => ∃ ctx resp, (dispatchControlRequest p ctx req).response = some resp ∧
      s.eventsOf j = [.dispatched j req ctx, .written j (wire resp)]
  | _ => True

/-- What has been done for a client with the request `req`: nothing as long as it waits, everything when it
has been served. -/
structure Standing (p : Platform) (s : ControlState) (j : ℕ) (c : Connection) (req : ControlRequest) :
    Prop where
  waiting : j ∈ s.backlog → s.eventsOf j = [] ∧ c.stream = c.request
  serving : s.phase.client? = some j → InService p s j c req s.phase
  served : j ∈ s.served → ∃ ctx, s.eventsOf j = service p ctx j req

/-- How every client that waits for an answer stands. -/
def Stands (p : Platform) (s : ControlState) : Prop :=
  ∀ j c req, s.connections[j]? = some c → c.client_closed = false → parseRequest c.request = some req →
    Standing p s j c req

theorem Standing.begun (h : Standing p s j c req) (hs : Ledger s)
    (hj : j < s.connections.length) : ∃ ctx, s.eventsOf j <+: service p ctx j req := by
  rcases hs.mem_iff.1 hj with hserved | hclient | hwaiting
  · obtain ⟨ctx, hevents⟩ := h.served hserved
    exact ⟨ctx, hevents ▸ List.prefix_refl _⟩
  · have hin := h.serving hclient
    cases hphase : s.phase with
    | waiting | accepting =>
      rw [hphase] at hclient
      exact absurd hclient nofun
    | reading i =>
      rw [hphase] at hin
      exact ⟨{}, hin.1 ▸ List.nil_prefix⟩
    | dispatching i cmd =>
      rw [hphase] at hin
      exact hin.2.2
    | writing i resp =>
      rw [hphase] at hin
      obtain ⟨ctx, _, hevents⟩ := hin
      exact ⟨ctx, hevents ▸ ⟨_, rfl⟩⟩
    | closing i =>
      rw [hphase] at hin
      obtain ⟨ctx, resp, hresp, hevents⟩ := hin
      refine ⟨ctx, hevents ▸ ⟨[.closed j], ?_⟩⟩
      rw [service, hresp]
      rfl
  · exact ⟨{}, (h.waiting hwaiting).1 ▸ List.nil_prefix⟩

/-- A client stands as before when the epoll thread is not serving it after a step that does nothing for
it. -/
theorem Standing.other (h : Standing p s j c req) (hstream : d.stream = c.stream)
    (hrequest : d.request = c.request) (hbacklog : j ∈ t.backlog → j ∈ s.backlog)
    (hclient : t.phase.client? ≠ some j) (hevents : t.eventsOf j = s.eventsOf j)
    (hserved : j ∈ t.served → j ∈ s.served) : Standing p t j d req := by
  refine ⟨fun hwaiting => ?_, fun hserving => absurd hserving hclient, fun hdone => ?_⟩
  · rw [hevents, hstream, hrequest]
    exact h.waiting (hbacklog hwaiting)
  · rw [hevents]
    exact h.served (hserved hdone)

theorem eventsOf_append (s : ControlState) (events : List ControlEvent) (j : ℕ) (phase : Phase)
    (alive : Bool) :
    ControlState.eventsOf { s with events := s.events ++ events, phase, alive } j =
      s.eventsOf j ++ events.filter fun e => e.client = j :=
  List.filter_append ..

theorem onConnection_getElem? (s : ControlState) (i j : ℕ) (f : Connection → Connection) :
    (s.onConnection i f).connections[j]? =
      if i = j then s.connections[j]?.map f else s.connections[j]? := by
  rw [ControlState.onConnection, List.getElem?_modify]
  split_ifs <;> simp

/-- The client in service after a read is the one before it, that has been read from. -/
theorem eq_read (hconnection : s.connections[i]? = some c)
    (hd : (s.onConnection i Connection.read).connections[i]? = some d) : d = c.read := by
  rw [onConnection_getElem?, if_pos rfl, hconnection] at hd
  exact (Option.some.inj hd).symm

theorem client_of_closed? {e : ControlEvent} (h : e.closed? = some j) : e.client = j := by
  cases e with
  | closed i => exact Option.some.inj h
  | dispatched | written => exact absurd h nofun

/-- A call leaves a client alone that is in service neither before nor after it. -/
theorem Call.frame (h : Call p ctx s t) (hbefore : s.phase.client? ≠ some j)
    (hafter : t.phase.client? ≠ some j) : t.eventsOf j = s.eventsOf j ∧
      t.connections[j]? = s.connections[j]? ∧ (j ∈ t.backlog → j ∈ s.backlog) ∧
      (j ∈ t.served → j ∈ s.served) := by
  obtain ⟨events, hevents, hclient⟩ := h.events
  have hnone : ∀ e ∈ events, e.client ≠ j := by
    intro e he heq
    exact hbefore (heq ▸ hclient e he)
  refine ⟨?_, ?_, ?_, fun hserved => ?_⟩
  · have hfilter : events.filter (fun e => e.client = j) = [] := by
      rw [List.filter_eq_nil_iff]
      exact fun e he => by simpa using hnone e he
    rw [ControlState.eventsOf, hevents, List.filter_append, hfilter, List.append_nil]
    rfl
  · cases h with
    | readNothing hphase | read hphase =>
      rw [hphase] at hbefore
      exact (onConnection_getElem? ..).trans (if_neg fun heq => hbefore (congrArg some heq))
    | _ => rfl
  · cases h with
    | accept hphase hbacklog =>
      rw [hbacklog]
      exact fun hmem => List.mem_cons_of_mem _ hmem
    | _ => exact id
  · rw [ControlState.served, hevents, List.filterMap_append, List.mem_append] at hserved
    rcases hserved with hold | hnew
    · exact hold
    · obtain ⟨e, he, hclosed⟩ := List.mem_filterMap.1 hnew
      exact absurd (client_of_closed? hclosed) (hnone e he)

theorem respond_of_parse {cmd : Bytes} (h : parseRequest cmd = some req) :
    respond p ctx cmd = dispatchControlRequest p ctx req := by
  rw [respond, h]

theorem dispatchEvents_of_parse {cmd : Bytes} (h : parseRequest cmd = some req) :
    ControlState.dispatchEvents i cmd ctx = [.dispatched i req ctx] := by
  rw [ControlState.dispatchEvents, h]
  rfl

/-- A `read` that finds what matters of a request leads to the dispatch of this request. -/
theorem parseRequest_readBuffer (hstream : c.stream = c.request) (hbar : 0x7C ∈ readBuffer c.available)
    (hblank : (c.request.drop (readBuffer c.available).length).all isBlank = true)
    (hparse : parseRequest c.request = some req) : parseRequest (readBuffer c.available) = some req := by
  have hsplit : c.request = readBuffer c.available ++ (c.available.drop 127 ++ c.in_flight ++ c.unsent) := by
    rw [← hstream, Connection.stream, readBuffer, ← List.append_assoc, ← List.append_assoc,
      List.take_append_drop]
  rw [hsplit, List.drop_left] at hblank
  rw [hsplit, parseRequest_append hbar hblank] at hparse
  exact hparse

theorem Standing.of_serving (hl : Ledger t) (hj : t.phase.client? = some j)
    (hin : InService p t j c req t.phase) : Standing p t j c req :=
  ⟨fun hmem => absurd hmem (hl.serving hj).2, fun _ => hin, fun hmem => absurd hmem (hl.serving hj).1⟩

/-- A call for a waiting client in service leaves it as it should be. -/
theorem Call.stands_serving (h : Call p ctx s t) (halive : s.alive = true)
    (hwhole : ReadsWhole s (.server ctx)) (hl : Ledger s) (hl' : Ledger t) (hs : Stands p s)
    (hj : s.phase.client? = some j) (hd : t.connections[j]? = some d) (hopen : d.client_closed = false)
    (hparse : parseRequest d.request = some req) : Standing p t j d req := by
  cases h with
  | idle hphase | wake hphase | leave hphase | accept hphase =>
    rw [hphase] at hj
    exact absurd hj nofun
  | lost hclient hconnection =>
    obtain rfl := Option.some.inj (hclient.symm.trans hj)
    exact absurd (hconnection.symm.trans hd) nofun
  | @readNothing i c hphase hconnection hempty =>
    rw [hphase] at hj
    obtain rfl := Option.some.inj hj
    obtain rfl := eq_read hconnection hd
    have hbar := (hwhole i (by rw [hphase]; rfl) c hconnection hopen (bar_mem_of_parseRequest hparse)).1
    rw [hempty] at hbar
    exact absurd hbar List.not_mem_nil
  | @read i c hphase hconnection =>
    rw [hphase] at hj
    obtain rfl := Option.some.inj hj
    obtain rfl := eq_read hconnection hd
    obtain ⟨hbar, hblank⟩ :=
      hwhole i (by rw [hphase]; rfl) c hconnection hopen (bar_mem_of_parseRequest hparse)
    have hin := (hs i c req hconnection hopen hparse).serving (by rw [hphase]; rfl)
    rw [hphase] at hin
    obtain ⟨hevents, hstream⟩ := hin
    apply Standing.of_serving hl' rfl
    exact ⟨parseRequest_readBuffer hstream hbar hblank hparse, fun _ => hevents,
      {}, hevents ▸ List.nil_prefix⟩
  | @dispatch i cmd resp hphase hresp =>
    have hin := (hs j d req hd hopen hparse).serving hj
    rw [hphase] at hj hin
    obtain rfl := Option.some.inj hj
    obtain ⟨hcmd, hevents, _⟩ := hin
    rw [respond_of_parse hcmd] at hresp
    apply Standing.of_serving hl' rfl
    refine ⟨ctx, hresp, ?_⟩
    rw [dispatchEvents_of_parse hcmd, eventsOf_append, hevents halive]
    simp [ControlEvent.client]
  | @throw i cmd hphase hresp =>
    have hin := (hs j d req hd hopen hparse).serving hj
    have hclient := hj
    rw [hphase] at hj hin
    obtain rfl := Option.some.inj hj
    obtain ⟨hcmd, hevents, _⟩ := hin
    rw [respond_of_parse hcmd] at hresp
    apply Standing.of_serving hl' hclient
    show InService p _ i d req s.phase
    rw [hphase]
    refine ⟨hcmd, nofun, ctx, ?_⟩
    rw [dispatchEvents_of_parse hcmd, eventsOf_append, hevents halive, service, hresp]
    simp [ControlEvent.client]
  | @write i resp c hphase hconnection =>
    have hin := (hs j d req hd hopen hparse).serving hj
    rw [hphase] at hj hin
    obtain rfl := Option.some.inj hj
    obtain ⟨ctx', hresp, hevents⟩ := hin
    apply Standing.of_serving hl' rfl
    refine ⟨ctx', resp, hresp, ?_⟩
    rw [eventsOf_append, hevents]
    simp [ControlEvent.client]
  | kill hphase hconnection hclosed =>
    rw [hphase] at hj
    obtain rfl := Option.some.inj hj
    obtain rfl := Option.some.inj (hconnection.symm.trans hd)
    exact absurd (hclosed.symm.trans hopen) nofun
  | @close i hphase =>
    have hin := (hs j d req hd hopen hparse).serving hj
    have hwaiting := (hl.serving hj).2
    rw [hphase] at hj hin
    obtain rfl := Option.some.inj hj
    obtain ⟨ctx', resp, hresp, hevents⟩ := hin
    refine ⟨fun hmem => absurd hmem hwaiting, nofun, fun _ => ⟨ctx', ?_⟩⟩
    rw [eventsOf_append, hevents, service, hresp]
    simp [ControlEvent.client]

/-- A call finds or leaves a waiting client in service as it should. -/
theorem Call.stands (h : Call p ctx s t) (halive : s.alive = true)
    (hwhole : ReadsWhole s (.server ctx)) (hl : Ledger s) (hl' : Ledger t) (hs : Stands p s) :
    Stands p t := by
  intro j d req hd hopen hparse
  by_cases hbefore : s.phase.client? = some j
  · exact h.stands_serving halive hwhole hl hl' hs hbefore hd hopen hparse
  · by_cases hafter : t.phase.client? = some j
    · cases h with
      | accept hphase hbacklog =>
        obtain rfl := Option.some.inj hafter
        have hold := hs _ d req hd hopen hparse
        have hwaiting := hold.waiting (hbacklog ▸ List.mem_cons_self)
        exact ⟨fun _ => hwaiting, fun _ => hwaiting, hold.served⟩
      | wake | leave => exact absurd hafter nofun
      | idle | lost | throw | kill => exact absurd hafter hbefore
      | readNothing hphase | read hphase | dispatch hphase | write hphase =>
        rw [hphase] at hbefore
        exact absurd hafter hbefore
      | close => exact absurd hafter nofun
    · obtain ⟨hevents, hconnection, hbacklog, hserved⟩ := h.frame hbefore hafter
      rw [hconnection] at hd
      exact (hs j d req hd hopen hparse).other rfl rfl hbacklog hafter hevents hserved

theorem Stands.step (h : s.step p l = some t) (hwhole : ReadsWhole s l) (hl : Ledger s)
    (hs : Stands p s) : Stands p t := by
  have hl' : Ledger t := hl.step h
  rcases step_cases h with ⟨ctx, rfl, halive, hcall⟩ | ⟨request, -, rfl⟩ | ⟨-, i, f, hf, rfl⟩
  · exact hcall.stands halive hwhole hl hl' hs
  · intro j c req hc hopen hparse
    dsimp only at hc
    by_cases hj : j < s.connections.length
    · rw [List.getElem?_append_left hj] at hc
      have hold := hs j c req hc hopen hparse
      refine ⟨fun hwaiting => hold.waiting ?_, hold.serving, hold.served⟩
      rcases List.mem_append.1 hwaiting with hmem | hmem
      · exact hmem
      · exact absurd (List.mem_singleton.1 hmem) (Nat.ne_of_lt hj)
    · have hnone : s.eventsOf j = [] := by
        rw [ControlState.eventsOf, List.filter_eq_nil_iff]
        intro e he
        have hlt := hl.known e he
        simp only [decide_eq_true_eq]
        omega
      have hnot : ¬ (j ∈ s.served ∨ s.phase.client? = some j ∨ j ∈ s.backlog) := fun hmem =>
        hj (hl.mem_iff.2 hmem)
      rw [List.getElem?_append_right (by omega)] at hc
      obtain rfl := List.mem_singleton.1 (List.mem_of_getElem? hc)
      exact ⟨fun _ => ⟨hnone, rfl⟩, fun hserving => absurd (Or.inr (Or.inl hserving)) hnot,
        fun hserved => absurd (Or.inl hserved) hnot⟩
  · intro j d req hd hopen hparse
    rw [onConnection_getElem?] at hd
    split_ifs at hd with hij
    · obtain ⟨c, hc, rfl⟩ := Option.map_eq_some_iff.1 hd
      rw [(hf c).request] at hparse
      have hold := hs j c req hc ((hf c).open_before hopen) hparse
      refine ⟨?_, ?_, hold.served⟩
      · rw [(hf c).stream, (hf c).request]
        exact hold.waiting
      · intro hserving
        have hin := hold.serving hserving
        show InService p _ j (f c) req s.phase
        cases hphase : s.phase with
        | reading =>
          rw [hphase] at hin
          show s.eventsOf j = [] ∧ (f c).stream = (f c).request
          rw [(hf c).stream, (hf c).request]
          exact hin
        | _ =>
          rw [hphase] at hin
          exact hin
    · have hold := hs j d req hd hopen hparse
      exact ⟨hold.waiting, hold.serving, hold.served⟩

/-- The dispatches have found these contexts. -/
def FoundIn (contexts : List ControlContext) (s : ControlState) : Prop :=
  ∀ i req ctx, ControlEvent.dispatched i req ctx ∈ s.events → ctx ∈ contexts

variable {contexts : List ControlContext}

theorem Call.foundIn (h : Call p ctx s t) (hctx : ctx ∈ contexts) (hs : FoundIn contexts s) : FoundIn contexts t := by
  intro i req ctx' hmem
  cases h with
  | idle | lost | wake | leave | accept | readNothing | read | kill => exact hs i req ctx' hmem
  | dispatch | throw =>
    rcases List.mem_append.1 hmem with hold | hnew
    · exact hs i req ctx' hold
    · obtain ⟨_, _, heq⟩ := List.mem_map.1 hnew
      cases heq
      exact hctx
  | write | close =>
    rcases List.mem_append.1 hmem with hold | hnew
    · exact hs i req ctx' hold
    · cases List.mem_singleton.1 hnew

theorem FoundIn.step (h : s.step p l = some t) (hctx : ∀ ctx ∈ l.context?, ctx ∈ contexts)
    (hs : FoundIn contexts s) : FoundIn contexts t := by
  rcases step_cases h with ⟨ctx, rfl, -, hcall⟩ | ⟨request, -, rfl⟩ | ⟨-, i, f, -, rfl⟩
  · exact hcall.foundIn (hctx ctx rfl) hs
  · exact hs
  · exact hs

/-- What has been done for a client has been done in one of the contexts. -/
theorem Standing.found (h : Standing p s j c req) (hs : Ledger s) (hfound : FoundIn contexts s)
    (hj : j < s.connections.length) :
    s.eventsOf j = [] ∨ ∃ ctx ∈ contexts, s.eventsOf j <+: service p ctx j req := by
  obtain ⟨ctx, hbegun⟩ := h.begun hs hj
  cases hevents : s.eventsOf j with
  | nil => exact .inl rfl
  | cons e events =>
    rw [hevents] at hbegun
    obtain ⟨rfl, -⟩ := List.cons_prefix_cons.1 hbegun
    have hmem : ControlEvent.dispatched j req ctx ∈ s.eventsOf j := hevents ▸ List.mem_cons_self
    exact .inr ⟨ctx, hfound j req ctx (List.mem_of_mem_filter hmem), hbegun⟩

/-- The state of a server that answers as it should. -/
structure Answering (p : Platform) (contexts : List ControlContext) (s : ControlState) : Prop where
  ledger : Ledger s
  stands : Stands p s
  found : FoundIn contexts s

theorem answering_initial : Answering p contexts {} :=
  ⟨ledger_initial, fun _ _ _ hc => absurd hc nofun, fun _ _ _ he => absurd he List.not_mem_nil⟩

theorem Answering.step (h : s.step p l = some t) (hs : Answering p contexts s) (hwhole : ReadsWhole s l)
    (hctx : ∀ ctx ∈ l.context?, ctx ∈ contexts) : Answering p contexts t :=
  ⟨hs.ledger.step h, hs.stands.step h hwhole hs.ledger, hs.found.step h hctx⟩

theorem Answering.asSent (h : Answering p contexts s) : AnswersAsSent p contexts s := by
  intro i c req hc hopen hsays
  have hlt : i < s.connections.length := (List.getElem?_eq_some_iff.1 hc).1
  exact (h.stands i c req hc hopen (parseRequest_eq_some_iff.2 hsays)).found h.ledger h.found hlt

/-- As long as each `read` for a waiting client finds what matters of its request, every such client gets
the answer to the request it has sent, or what there has been time for. -/
theorem answersAsSent {labels : List ControlLabel} (hrun : Run (ControlState.step p) ReadsWhole {} labels s) :
    AnswersAsSent p (labels.filterMap ControlLabel.context?) s := by
  have hkept : Answering p (labels.filterMap ControlLabel.context?) s := by
    apply hrun.with_mem.keeps _ answering_initial
    intro s t l hs hφ hstep
    exact hs.step hstep hφ.1 fun ctx hctx => List.mem_filterMap.2 ⟨l, hφ.2, hctx⟩
  exact hkept.asSent

/-- One client, whose request arrives in two segments before it is accepted. -/
def versionRequest : List ControlLabel :=
  [.connect (bytesOf "1.2|version\n"), .write 0 12, .arrive 0 5, .arrive 0 7, .server {}, .server {},
    .server {}, .server {}, .server {}, .server {}]

theorem answersAsSent_version : ∃ s, play (ControlState.step printing) ReadsWhole versionRequest {} = some s ∧
    s.served = [0] ∧ AnswersAsSent printing (versionRequest.filterMap ControlLabel.context?) s := by
  have hplay : (play (ControlState.step printing) ReadsWhole versionRequest {}).map
      ControlState.served = some [0] := by decide
  obtain ⟨s, hs, hserved⟩ := Option.map_eq_some_iff.1 hplay
  exact ⟨s, hs, hserved, answersAsSent (run_of_play hs)⟩

/-- A client that is accepted before its request has arrived gets no answer. -/
theorem early_accept : ¬ ∀ (p : Platform) (labels : List ControlLabel) (s : ControlState),
    Run (ControlState.step p) anyStep {} labels s →
      AnswersAsSent p (labels.filterMap ControlLabel.context?) s := by
  intro hall
  have hplay : play (ControlState.step printing) anyStep
      [.connect (bytesOf "1.2|status"), .server {}, .server {}, .server {}, .server {}] {} =
      some {
        connections := [{ request := bytesOf "1.2|status", unsent := bytesOf "1.2|status" }]
        phase := .accepting
        events := [.closed 0] } := rfl
  have hsays : Says (bytesOf "1.2|status") ⟨bytesOf "1.2", bytesOf "status"⟩ :=
    parseRequest_eq_some_iff.1 (by decide)
  rcases hall printing _ _ (run_of_play hplay) 0 _ _ rfl rfl hsays with hnone | ⟨ctx, -, hevents⟩
  · cases hnone
  · exact absurd (List.cons_prefix_cons.1 hevents).1 nofun

end Answers

section Service

variable {i : ℕ}

/-- A spared daemon survives a call. -/
theorem Call.alive (hp : p.dump.Strict) (h : Call p ctx s t) (hspared : Spared s (.server ctx))
    (hs : s.alive = true) : t.alive = true := by
  cases h with
  | throw hphase hresp =>
    have hquotable := hspared.1 _ (by rw [hphase]; rfl)
    rw [← respond_isSome_iff hp, hresp] at hquotable
    exact absurd hquotable nofun
  | kill hphase hconnection hclosed =>
    have hopen := hspared.2 _ (by rw [hphase]; rfl) _ hconnection
    exact absurd (hclosed.symm.trans hopen) nofun
  | _ => exact hs

theorem alive_step (hp : p.dump.Strict) (h : s.step p l = some t) (hspared : Spared s l)
    (hs : s.alive = true) : t.alive = true := by
  rcases step_cases h with ⟨ctx, rfl, -, hcall⟩ | ⟨request, -, rfl⟩ | ⟨-, i, f, -, rfl⟩
  · exact hcall.alive hp hspared hs
  · exact hs
  · exact hs

/-- The calls left for the client in service, and until the next `accept4`. -/
def Phase.callsLeft : Phase → ℕ
  | waiting => 1
  | accepting => 0
  | reading _ => 4
  | dispatching _ _ => 3
  | writing _ _ => 2
  | closing _ => 1

/-- The calls left until client `i` has been served: five for each client up to it in the backlog. -/
def callsUntil (i : ℕ) (s : ControlState) : ℕ :=
  s.phase.callsLeft + if s.phase.client? = some i then 0 else 5 * (s.backlog.idxOf i + 1)

theorem callsUntil_pos (i : ℕ) (s : ControlState) : 0 < callsUntil i s := by
  unfold callsUntil
  cases s.phase with
  | accepting =>
    simp only [Phase.callsLeft, Phase.client?, reduceCtorEq, if_false]
    omega
  | _ => exact Nat.add_pos_left (Nat.succ_pos _) _

theorem callsUntil_le (hi : s.phase.client? = some i ∨ i ∈ s.backlog) :
    callsUntil i s ≤ 5 * (s.backlog.length + 1) := by
  have hserving : s.phase.callsLeft ≤ 4 := by cases s.phase <;> simp [Phase.callsLeft]
  have hidle : s.phase.client? = none → s.phase.callsLeft ≤ 1 := by
    cases s.phase <;> simp [Phase.client?, Phase.callsLeft]
  unfold callsUntil
  split_ifs with hclient
  · omega
  · have hidx : s.backlog.idxOf i < s.backlog.length :=
      List.idxOf_lt_length_of_mem (hi.resolve_left hclient)
    omega

theorem callsUntil_lt (hclient : t.phase.client? = s.phase.client?) (hbacklog : t.backlog = s.backlog)
    (hleft : t.phase.callsLeft < s.phase.callsLeft) : callsUntil i t + 1 ≤ callsUntil i s := by
  unfold callsUntil
  rw [hclient, hbacklog]
  omega

/-- A call brings every client closer that has not been served. -/
theorem Call.closer (h : Call p ctx s t) (hl : Ledger s) (halive : t.alive = true)
    (hi : s.phase.client? = some i ∨ i ∈ s.backlog) :
    i ∈ t.served ∨ callsUntil i t + 1 ≤ callsUntil i s := by
  have hpending : s.phase.client? = none → s.backlog ≠ [] := by
    intro hnone hnil
    rw [hnone, hnil] at hi
    exact absurd hi (by simp)
  cases h with
  | idle hphase hbacklog | leave hphase hbacklog =>
    exact absurd hbacklog (hpending (by rw [hphase]; rfl))
  | lost hclient hconnection =>
    have hlt := hl.mem_iff.2 (Or.inr (Or.inl hclient))
    exact absurd (List.getElem?_eq_none_iff.1 hconnection) (by omega)
  | throw | kill => exact absurd halive nofun
  | @accept j backlog hphase hbacklog =>
    right
    simp only [callsUntil, hphase, hbacklog, Phase.callsLeft, Phase.client?, Option.some.injEq,
      reduceCtorEq, if_false]
    by_cases hj : j = i
    · rw [if_pos hj]
      omega
    · rw [if_neg hj, List.idxOf_cons_ne backlog hj]
      omega
  | wake hphase | readNothing hphase | read hphase | dispatch hphase | write hphase =>
    right
    apply callsUntil_lt
    · rw [hphase]
      rfl
    · rfl
    · simp [hphase, Phase.callsLeft]
  | @close j hphase =>
    by_cases hj : j = i
    · left
      simp [ControlState.served, hj, ControlEvent.closed?]
    · right
      simp only [callsUntil, hphase, Phase.callsLeft, Phase.client?, Option.some.injEq, reduceCtorEq,
        if_false, hj]
      omega

/-- A client that has been served stays so. -/
theorem served_step (h : s.step p l = some t) (hi : i ∈ s.served) : i ∈ t.served := by
  rcases step_cases h with ⟨ctx, -, -, hcall⟩ | ⟨request, -, rfl⟩ | ⟨-, j, f, -, rfl⟩
  · obtain ⟨events, hevents, -⟩ := hcall.events
    rw [ControlState.served, hevents, List.filterMap_append]
    exact List.mem_append_left _ hi
  · exact hi
  · exact hi

theorem connections_step (h : s.step p l = some t) : s.connections.length ≤ t.connections.length := by
  rcases step_cases h with ⟨ctx, -, -, hcall⟩ | ⟨request, -, rfl⟩ | ⟨-, j, f, -, rfl⟩
  · rw [hcall.connections_length]
  · simp
  · simp [ControlState.onConnection]

theorem closer_step (h : s.step p l = some t) (hl : Ledger s) (halive : t.alive = true)
    (hi : i < s.connections.length) : i ∈ t.served ∨
      callsUntil i t + (if l.IsServer then 1 else 0) ≤ callsUntil i s := by
  rcases hl.mem_iff.1 hi with hserved | hpending
  · exact Or.inl (served_step h hserved)
  · rcases step_cases h with ⟨ctx, rfl, -, hcall⟩ | ⟨request, rfl, rfl⟩ | ⟨hworld, j, f, -, rfl⟩
    · exact hcall.closer hl halive hpending
    · right
      simp only [callsUntil]
      rcases hpending with hclient | hwaiting
      · rw [if_pos hclient, if_pos hclient]
        exact Nat.le_refl _
      · rw [List.idxOf_append_of_mem hwaiting]
        exact Nat.le_refl _
    · right
      rw [hworld]
      exact Nat.le_refl _

/-- As long as each response can be serialised and is written to a client that is still there, the daemon
lives and serves the clients in the order in which they connect; and each client has been served, once the
epoll thread has made five calls for every client that was waiting, and five for the one in service. -/
theorem servesAll (hp : p.dump.Strict) {labels : List ControlLabel}
    (hrun : Run (ControlState.step p) Spared {} labels s) :
    Serves p s ∧ ∀ {later t}, Run (ControlState.step p) Spared s later t →
      5 * (s.backlog.length + 1) ≤ later.countP ControlLabel.IsServer →
      ∀ i < s.connections.length, i ∈ t.served := by
  have hstep : ∀ {s t : ControlState} {l : ControlLabel}, Ledger s ∧ s.alive = true → Spared s l →
      s.step p l = some t → Ledger t ∧ t.alive = true := by
    intro s t l hs hspared h
    exact ⟨hs.1.step h, alive_step hp h hspared hs.2⟩
  obtain ⟨hledger, halive⟩ := hrun.keeps hstep ⟨ledger_initial, rfl⟩
  refine ⟨⟨halive, fun ctx => ?_, hledger.order⟩, ?_⟩
  · simp [ControlState.step, halive]
  · intro later t hlater hcount i hi
    have hkeep : ∀ {s t : ControlState} {l : ControlLabel},
        (Ledger s ∧ s.alive = true) ∧ i < s.connections.length → Spared s l → s.step p l = some t →
          (Ledger t ∧ t.alive = true) ∧ i < t.connections.length := by
      intro s t l hs hspared h
      exact ⟨hstep hs.1 hspared h, Nat.lt_of_lt_of_le hs.2 (connections_step h)⟩
    have hpositive : ∀ {s : ControlState},
        (Ledger s ∧ s.alive = true) ∧ i < s.connections.length → callsUntil i s = 0 → i ∈ s.served := by
      intro s _ hzero
      exact absurd hzero (Nat.ne_of_gt (callsUntil_pos i s))
    have hcloser : ∀ {s t : ControlState} {l : ControlLabel},
        (Ledger s ∧ s.alive = true) ∧ i < s.connections.length → Spared s l → s.step p l = some t →
          i ∈ t.served ∨ callsUntil i t + (if l.IsServer then 1 else 0) ≤ callsUntil i s := by
      intro s t l hs hspared h
      exact closer_step h hs.1.1 (hstep hs.1 hspared h).2 hs.2
    have hserves : ∀ {s t : ControlState} {l : ControlLabel}, i ∈ s.served → Spared s l →
        s.step p l = some t → i ∈ t.served := fun hs _ h => served_step h hs
    rcases hledger.mem_iff.1 hi with hserved | hpending
    · exact hlater.keeps (I := fun s => i ∈ s.served) hserves hserved
    · exact hlater.reaches (G := fun s => i ∈ s.served) (r := callsUntil i) hkeep hserves hpositive hcloser
        ⟨⟨hledger, halive⟩, hi⟩ (Nat.le_trans (callsUntil_le hpending) hcount)

/-- A client that connects, then its request and ten calls of the epoll thread. -/
theorem servesAll_version : ∃ s t,
    play (ControlState.step printing) Spared [.connect (bytesOf "1.2|version\n")] {} = some s ∧
    play (ControlState.step printing) Spared
      (.write 0 12 :: .arrive 0 12 :: List.replicate 10 (.server {})) s = some t ∧
    Serves printing s ∧ 0 ∈ t.served := by
  let s : ControlState := {
    connections := [{ request := bytesOf "1.2|version\n", unsent := bytesOf "1.2|version\n" }]
    backlog := [0] }
  have hplay : play (ControlState.step printing) Spared [.connect (bytesOf "1.2|version\n")] {} =
      some s := rfl
  have hlater : (play (ControlState.step printing) Spared
      (.write 0 12 :: .arrive 0 12 :: List.replicate 10 (.server {})) s).isSome = true := by decide
  obtain ⟨t, ht⟩ := Option.isSome_iff_exists.1 hlater
  obtain ⟨hserves, hall⟩ := servesAll printing_strict (run_of_play hplay)
  exact ⟨s, t, hplay, ht, hserves, hall (run_of_play ht) (by decide) 0 (by decide)⟩

/-- A client that closes before its answer is written ends the daemon. -/
theorem sigpipe_kills : ¬ ∀ (p : Platform), p.dump.Strict → ∀ (labels : List ControlLabel)
    (s : ControlState), Run (ControlState.step p) anyStep {} labels s → Serves p s := by
  intro hall
  have hplay : (play (ControlState.step printing) anyStep
      [.connect (bytesOf "1.2|version"), .write 0 11, .arrive 0 11, .server {}, .server {}, .server {},
        .server {}, .closeClient 0, .server {}] {}).map ControlState.alive = some false := by decide
  obtain ⟨s, hs, hdead⟩ := Option.map_eq_some_iff.1 hplay
  have halive := (hall printing printing_strict _ s (run_of_play hs)).alive
  exact absurd (hdead.symm.trans halive) nofun

/-- The four calls for a client whose `handleClient` comes back with something to write. -/
theorem calls_of_handleClient {c : Connection} {bytes : Bytes} (halive : s.alive = true)
    (hphase : s.phase = .reading i) (hc : s.connections[i]? = some c) (hopen : c.client_closed = false)
    (hclient : handleClient p ctx c.available = some (some bytes)) :
    ∃ t, play (ControlState.step p) anyStep (List.replicate 4 (.server ctx)) s = some t ∧
      t.phase = .accepting ∧ t.events = s.events ++
        ControlState.dispatchEvents i (readBuffer c.available) ctx ++ [.written i bytes, .closed i] := by
  obtain ⟨connections, backlog, phase, alive, events⟩ := s
  dsimp only at halive hphase hc
  subst halive hphase
  unfold handleClient at hclient
  split_ifs at hclient with hempty
  · exact absurd (Option.some.inj hclient) nofun
  · obtain ⟨resp, hresp, hbytes⟩ := Option.map_eq_some_iff.1 hclient
    obtain rfl := Option.some.inj hbytes
    have hread : (connections.modify i Connection.read)[i]? = some c.read := by
      rw [List.getElem?_modify, hc]
      simp
    have hstill : c.read.client_closed = false := hopen
    refine ⟨{
      connections := connections.modify i Connection.read
      backlog
      phase := .accepting
      events := events ++ ControlState.dispatchEvents i (readBuffer c.available) ctx ++
        [.written i (wire resp)] ++ [.closed i] }, ?_, rfl, ?_⟩
    · simp [play, anyStep, ControlState.step, ControlState.serve, ControlState.onConnection, hc, hempty,
        hresp, hread, hstill, List.replicate]
    · simp

/-- The two calls for a client whose `handleClient` throws. -/
theorem dead_of_handleClient {c : Connection} (halive : s.alive = true) (hphase : s.phase = .reading i)
    (hc : s.connections[i]? = some c) (hclient : handleClient p ctx c.available = none) :
    ∃ t, play (ControlState.step p) anyStep (List.replicate 2 (.server ctx)) s = some t ∧
      t.alive = false := by
  obtain ⟨connections, backlog, phase, alive, events⟩ := s
  dsimp only at halive hphase hc
  subst halive hphase
  unfold handleClient at hclient
  split_ifs at hclient with hempty
  have hresp : (respond p ctx (readBuffer c.available)).response = none := Option.map_eq_none_iff.1 hclient
  refine ⟨{
    connections := connections.modify i Connection.read
    backlog
    phase := .dispatching i (readBuffer c.available)
    alive := false
    events := events ++ ControlState.dispatchEvents i (readBuffer c.available) ctx }, ?_, rfl⟩
  simp [play, anyStep, ControlState.step, ControlState.serve, ControlState.onConnection, hc, hempty,
    hresp, List.replicate]

end Service

end EdgeNetSwitch.Control
