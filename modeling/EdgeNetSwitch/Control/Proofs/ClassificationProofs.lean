import EdgeNetSwitch.Control.Classification
import EdgeNetSwitch.Control.Proofs.ControlDispatchProofs
import Mathlib.Data.List.TakeWhile

/-!
# Every request is classified

The envelope decides by the form of the version and by what is before the first `':'`. A handler fails through
`makeJsonError` only, with a code of the protocol, and the one command that publishes does not fail after it.
-/

namespace EdgeNetSwitch.Control

/-! ## The envelope -/

theorem isWellFormedVersion_iff (version : Bytes) :
    isWellFormedVersion version = true ↔ HasVersionForm version := by
  constructor
  · intro h
    match version, h with
    | [major, dot, minor], h =>
      have hdigits : ((0x30 ≤ major ∧ major ≤ 0x39) ∧ dot = 0x2E) ∧ 0x30 ≤ minor ∧ minor ≤ 0x39 := by
        simpa [isWellFormedVersion, isdigit] using h
      obtain ⟨⟨hmajor, rfl⟩, hminor⟩ := hdigits
      exact ⟨major, minor, hmajor, hminor, rfl⟩
  · rintro ⟨major, minor, hmajor, hminor, rfl⟩
    simp [isWellFormedVersion, isdigit, hmajor, hminor]

/-- Splitting at the first separator is taking what is in front of it. -/
theorem split_find (sep : UInt8) (text : Bytes) :
    (match Bytes.find [sep] text with
      | some n => (text.take n, text.drop (n + 1))
      | none => (text, [])) =
      (text.takeWhile fun c => c ≠ sep, (text.dropWhile fun c => c ≠ sep).tail) := by
  induction text with
  | nil => rfl
  | cons c text ih =>
    rw [find_char_cons]
    by_cases hc : c = sep
    · subst hc
      simp
    · have htake : ((c :: text).takeWhile fun c => c ≠ sep) = c :: text.takeWhile fun c => c ≠ sep :=
        List.takeWhile_cons_of_pos (by simpa using hc)
      have hdrop : ((c :: text).dropWhile fun c => c ≠ sep) = text.dropWhile fun c => c ≠ sep :=
        List.dropWhile_cons_of_pos (by simpa using hc)
      rw [if_neg hc, htake, hdrop]
      cases hfind : Bytes.find [sep] text with
      | none =>
        rw [hfind] at ih
        obtain ⟨hname, harg⟩ := Prod.mk.inj ih
        exact Prod.ext (congrArg (List.cons c) hname) harg
      | some n =>
        rw [hfind] at ih
        obtain ⟨hname, harg⟩ := Prod.mk.inj ih
        exact Prod.ext (congrArg (List.cons c) hname) harg

theorem splitCommand_eq (req : ControlRequest) : splitCommand req.command = (req.name, req.argument) := by
  have hcolon : bytesOf ":" = [0x3A] := by decide
  unfold splitCommand
  rw [hcolon]
  exact split_find 0x3A req.command

theorem valid_name_of_command {req : ControlRequest} (h : Utf8.valid req.command = true) :
    Utf8.valid req.name = true := by
  have hsplit : req.name ++ req.command.dropWhile (fun c => c ≠ 0x3A) = req.command :=
    List.takeWhile_append_dropWhile
  cases hrest : req.command.dropWhile (fun c => c ≠ 0x3A) with
  | nil =>
    rw [hrest, List.append_nil] at hsplit
    rw [hsplit]
    exact h
  | cons c rest =>
    have hc : c = 0x3A := by
      have hne : req.command.dropWhile (fun c => c ≠ 0x3A) ≠ [] := by
        rw [hrest]
        exact List.cons_ne_nil c rest
      have hhead : ¬ ((req.command.dropWhile fun c => c ≠ 0x3A).head hne ≠ 0x3A) := by
        simpa using List.head_dropWhile_not _ hne
      simpa only [hrest, List.head_cons, not_not] using hhead
    rw [← hsplit, hrest, hc] at h
    exact Utf8.valid_of_append_ascii h (by decide)

theorem find_eq_some_iff {name : Bytes} {command : Command} :
    Command.find name = some command ↔ command.name = name := by
  constructor
  · intro h
    simpa using List.find?_some h
  · rintro rfl
    cases command <;> decide

theorem find_eq_none_iff {name : Bytes} :
    Command.find name = none ↔ ∀ command : Command, command.name ≠ name := by
  rw [Option.eq_none_iff_forall_ne_some]
  exact forall_congr' fun command => not_congr find_eq_some_iff

/-! ## Failures -/

/-- If the response is a failure, its code is one of the protocol. -/
def Coded (response : Option ControlResponse) : Prop :=
  ∀ r, response = some r → r.success = false → r.error_code ∈ error.codes

section

variable {p : Platform} {ctx : ControlContext} {arg code msg : Bytes} {next : Option ControlResponse}

theorem makeJsonError_eq {dump : Dump} {r : ControlResponse} (h : makeJsonError dump code msg = some r) :
    r.success = false ∧ r.error_code = code := by
  obtain ⟨payload, _, hr⟩ := Option.bind_eq_some_iff.1 h
  cases hr
  exact ⟨rfl, rfl⟩

theorem makeJsonSuccess_eq {dump : Dump} {data : Json} {r : ControlResponse}
    (h : makeJsonSuccess dump data = some r) : r.success = true := by
  obtain ⟨payload, _, hr⟩ := Option.bind_eq_some_iff.1 h
  cases hr
  rfl

theorem coded_makeJsonError (h : code ∈ error.codes) : Coded (makeJsonError p.dump code msg) := by
  intro r hr _
  rw [(makeJsonError_eq hr).2]
  exact h

theorem coded_makeJsonSuccess {data : Json} : Coded (makeJsonSuccess p.dump data) := by
  intro r hr hfail
  rw [makeJsonSuccess_eq hr] at hfail
  exact absurd hfail nofun

theorem coded_text {payload : Bytes} : Coded (some { success := true, payload := payload }) := by
  intro r hr hfail
  cases hr
  exact absurd hfail nofun

theorem coded_checkArgument (h : Coded next) : Coded (checkArgument p arg next) := by
  unfold checkArgument
  split_ifs
  · exact coded_makeJsonError (by decide)
  · exact h

theorem coded_requirePart {α : Type} {part : Option α} {missing : String} {next : α → Option ControlResponse}
    (h : ∀ x, Coded (next x)) : Coded (requirePart p part missing next) := by
  cases part with
  | none => exact coded_makeJsonError (by decide)
  | some x => exact h x

theorem coded_report {data : Json} {text : Bytes} : Coded (report p arg data text) := by
  unfold report
  split_ifs
  · exact coded_makeJsonSuccess
  · exact coded_text

theorem coded_reportSnapshot {data : RuntimeStatus → Json} {text : RuntimeStatus → Bytes} :
    Coded (reportSnapshot p ctx arg data text) :=
  coded_checkArgument (coded_requirePart fun _ => coded_report)

theorem coded_handleHelp : Coded (handleHelp p arg) := by
  unfold handleHelp
  split_ifs
  · exact coded_makeJsonSuccess
  · cases Command.find arg with
    | none => exact coded_makeJsonError (by decide)
    | some command => exact coded_text
  · exact coded_text

theorem coded_sendPacketResponse : Coded (sendPacketResponse p ctx arg) := by
  unfold sendPacketResponse
  split_ifs
  · exact coded_makeJsonError (by decide)
  · exact coded_makeJsonSuccess
  · exact coded_makeJsonSuccess
  · exact coded_makeJsonSuccess
  · exact coded_makeJsonError (by decide)

theorem coded_handleShow : Coded (handleShow p ctx arg) := by
  refine coded_requirePart fun engine => ?_
  split_ifs
  · exact coded_text
  · exact coded_makeJsonError (by decide)

/-- A handler fails with a code of the protocol. -/
theorem coded_handler (command : Command) : Coded (handler p ctx arg command) := by
  cases command with
  | status | health | metrics | packetStats => exact coded_reportSnapshot
  | version => exact coded_checkArgument coded_report
  | help => exact coded_handleHelp
  | showConfig | fdStatus | transportStats =>
    exact coded_requirePart fun _ => coded_checkArgument coded_report
  | sendPacket => exact coded_sendPacketResponse
  | showTable => exact coded_handleShow

end

/-! ## What is published -/

section

variable {p : Platform} {ctx : ControlContext} {arg : Bytes} {packet : SyntheticPacket}

/-- `send-packet` publishes nothing if it fails. -/
theorem handleSendPacket_of_failed {r : ControlResponse} (h : sendPacketResponse p ctx arg = some r)
    (hfail : r.success = false) (hbus : ctx.bus = true) : handleSendPacket arg = [] := by
  have hsuccess : ∀ data, makeJsonSuccess p.dump data = some r → False := by
    intro data hr
    rw [makeJsonSuccess_eq hr] at hfail
    exact absurd hfail nofun
  unfold sendPacketResponse at h
  split_ifs at h with hoff hbroadcast hlearn htopology
  · rw [hbus] at hoff
    exact absurd hoff nofun
  · exact (hsuccess _ h).elim
  · exact (hsuccess _ h).elim
  · exact (hsuccess _ h).elim
  · unfold handleSendPacket
    rw [if_neg hbroadcast, if_neg hlearn, if_neg htopology]

/-- The addresses parse, and the payload is one that a datagram may carry. -/
def Injectable (packet : SyntheticPacket) : Prop :=
  (MacAddress.fromString packet.source_mac_str).isSome ∧
    (MacAddress.fromString packet.destination_mac_str).isSome ∧
    packet.payload ≠ [] ∧ packet.payload.length ≤ 512

instance : Decidable (Injectable packet) := inferInstanceAs (Decidable (_ ∧ _ ∧ _ ∧ _))

theorem Injectable.injects (h : Injectable packet) (now_ms : UInt64) : Injects packet now_ms := by
  obtain ⟨hsource, hdestination, hne, hlength⟩ := h
  obtain ⟨source_mac, hsource⟩ := Option.isSome_iff_exists.1 hsource
  obtain ⟨destination_mac, hdestination⟩ := Option.isSome_iff_exists.1 hdestination
  unfold Injects publishSyntheticPacket
  rw [hsource, hdestination]
  refine ⟨_, rfl, hne, hlength, ?_, rfl, rfl, rfl⟩
  show packet.payload.length % 2 ^ 32 = packet.payload.length
  omega

theorem injectable_of_mem (h : packet ∈ handleSendPacket arg) : arg ∈ modes ∧ Injectable packet := by
  unfold handleSendPacket at h
  split_ifs at h with hbroadcast hlearn htopology
  · refine ⟨by simp [modes, hbroadcast], ?_⟩
    revert packet
    decide
  · refine ⟨by simp [modes, hlearn], ?_⟩
    revert packet
    decide
  · refine ⟨by simp [modes, htopology], ?_⟩
    revert packet
    decide
  · exact absurd h List.not_mem_nil

end

/-! ## The dispatch -/

section

variable {p : Platform} {ctx : ControlContext} {req : ControlRequest}

/-- A reply that is an error with a message in UTF-8. -/
theorem refuses_of_makeJsonError {reply : Reply} {code msg : Bytes} (h : p.dump.Strict)
    (hcode : Utf8.valid code = true) (hmsg : Utf8.valid msg = true)
    (hreply : reply.response = makeJsonError p.dump code msg) : reply.Refuses code := by
  obtain ⟨r, hr⟩ := Option.isSome_iff_exists.1 ((makeJsonError_isSome_iff h hcode).2 hmsg)
  exact ⟨r, hreply.trans hr, makeJsonError_eq hr⟩

/-- In version 1.2 the name before the first `':'` decides. -/
theorem dispatchControlRequest_v12 (hversion : req.version = bytesOf "1.2") (hcommand : req.command ≠ []) :
    dispatchControlRequest p ctx req = dispatchV12 p ctx req := by
  unfold dispatchControlRequest
  rw [hversion, if_neg, if_neg (by decide), if_neg (by decide), if_pos rfl]
  rintro (hnil | hnil)
  · exact absurd hnil (by decide)
  · exact hcommand hnil

theorem dispatchV12_of_name {command : Command} (h : command.name = req.name) :
    dispatchV12 p ctx req =
      { published := if command = .sendPacket ∧ ctx.bus then handleSendPacket req.argument else []
        response := handler p ctx req.argument command } := by
  unfold dispatchV12
  simp only [splitCommand_eq, find_eq_some_iff.2 h]

theorem dispatchV12_of_unknown (h : ∀ command : Command, command.name ≠ req.name) :
    dispatchV12 p ctx req =
      { response := makeJsonError p.dump error.unknownCommand (bytesOf "unknown command: " ++ req.name) } := by
  unfold dispatchV12
  simp only [splitCommand_eq, find_eq_none_iff.2 h]

theorem command_ne_nil {command : Command} (h : command.name = req.name) : req.command ≠ [] := by
  intro hnil
  have hname : req.name = [] := by rw [ControlRequest.name, hnil, List.takeWhile_nil]
  rw [hname] at h
  cases command <;> exact absurd h (by decide)

theorem dispatchControlRequest_of_name {command : Command} (hversion : req.version = bytesOf "1.2")
    (h : command.name = req.name) :
    dispatchControlRequest p ctx req =
      { published := if command = .sendPacket ∧ ctx.bus then handleSendPacket req.argument else []
        response := handler p ctx req.argument command } := by
  rw [dispatchControlRequest_v12 hversion (command_ne_nil h), dispatchV12_of_name h]

/-- A request is refused without an effect, or handled by the command it names. -/
theorem dispatchControlRequest_cases (p : Platform) (ctx : ControlContext) (req : ControlRequest) :
    (∃ code ∈ error.codes, ∃ msg,
      dispatchControlRequest p ctx req = { response := makeJsonError p.dump code msg }) ∨
    ∃ command : Command, req.version = bytesOf "1.2" ∧ command.name = req.name := by
  unfold dispatchControlRequest
  split_ifs with hmissing hformat hversion heq
  · exact .inl ⟨error.invalidRequest, by decide, _, rfl⟩
  · exact .inl ⟨error.invalidVersionFormat, by decide, _, rfl⟩
  · exact .inl ⟨error.unsupportedVersion, by decide, _, rfl⟩
  · by_cases hname : ∃ command : Command, command.name = req.name
    · obtain ⟨command, hname⟩ := hname
      exact .inr ⟨command, heq, hname⟩
    · exact .inl ⟨error.unknownCommand, by decide, _, dispatchV12_of_unknown (not_exists.1 hname)⟩
  · exact .inl ⟨error.unsupportedVersion, by decide, _, rfl⟩

theorem refuses_missing (h : p.dump.Strict) (hmissing : req.version = [] ∨ req.command = []) :
    (dispatchControlRequest p ctx req).Refuses error.invalidRequest := by
  unfold dispatchControlRequest
  rw [if_pos hmissing]
  exact refuses_of_makeJsonError h error.valid_invalidRequest (valid_bytesOf (by decide)) rfl

theorem refuses_malformed (h : p.dump.Strict) (hutf8 : Utf8.valid req.version = true)
    (hversion : req.version ≠ []) (hcommand : req.command ≠ []) (hform : ¬ HasVersionForm req.version) :
    (dispatchControlRequest p ctx req).Refuses error.invalidVersionFormat := by
  have hformat : (!isWellFormedVersion req.version) = true := by
    rw [← isWellFormedVersion_iff] at hform
    simpa using hform
  unfold dispatchControlRequest
  rw [if_neg (not_or.2 ⟨hversion, hcommand⟩), if_pos hformat]
  refine refuses_of_makeJsonError h error.valid_invalidVersionFormat ?_ rfl
  rw [Utf8.valid_append_of_ascii (ascii_bytesOf (by decide))]
  exact hutf8

theorem refuses_unsupported (h : p.dump.Strict) (hutf8 : Utf8.valid req.version = true)
    (hcommand : req.command ≠ []) (hform : HasVersionForm req.version) (hne : req.version ≠ bytesOf "1.2") :
    (dispatchControlRequest p ctx req).Refuses error.unsupportedVersion := by
  have hversion : req.version ≠ [] := by
    obtain ⟨major, minor, -, -, heq⟩ := hform
    rw [heq]
    exact List.cons_ne_nil _ _
  have hformat : ¬ (!isWellFormedVersion req.version) = true := by
    rw [← isWellFormedVersion_iff] at hform
    simpa using hform
  have hunsupported : (!isValidProtocolVersion req.version) = true := by
    simpa [isValidProtocolVersion] using hne
  unfold dispatchControlRequest
  rw [if_neg (not_or.2 ⟨hversion, hcommand⟩), if_neg hformat, if_pos hunsupported]
  refine refuses_of_makeJsonError h error.valid_unsupportedVersion ?_ rfl
  rw [Utf8.valid_append_of_ascii (ascii_bytesOf (by decide))]
  exact hutf8

theorem refuses_unknown (h : p.dump.Strict) (hutf8 : Utf8.valid req.command = true)
    (hcommand : req.command ≠ []) (hversion : req.version = bytesOf "1.2")
    (hname : ∀ command : Command, command.name ≠ req.name) :
    (dispatchControlRequest p ctx req).Refuses error.unknownCommand := by
  rw [dispatchControlRequest_v12 hversion hcommand, dispatchV12_of_unknown hname]
  refine refuses_of_makeJsonError h error.valid_unknownCommand ?_ rfl
  rw [Utf8.valid_append_of_ascii (ascii_bytesOf (by decide))]
  exact valid_name_of_command hutf8

theorem dispatchControlRequest_failed {r : ControlResponse}
    (hr : (dispatchControlRequest p ctx req).response = some r) (hfail : r.success = false) :
    (dispatchControlRequest p ctx req).published = [] ∧ r.error_code ∈ error.codes := by
  rcases dispatchControlRequest_cases p ctx req with ⟨code, hcode, msg, heq⟩ | ⟨command, hversion, hname⟩
  · rw [heq] at hr ⊢
    refine ⟨rfl, ?_⟩
    rw [(makeJsonError_eq hr).2]
    exact hcode
  · rw [dispatchControlRequest_of_name hversion hname] at hr ⊢
    refine ⟨?_, coded_handler command r hr hfail⟩
    show (if command = .sendPacket ∧ ctx.bus then handleSendPacket req.argument else []) = []
    split_ifs with hsend
    · obtain ⟨rfl, hbus⟩ := hsend
      exact handleSendPacket_of_failed hr hfail hbus
    · rfl

theorem dispatchControlRequest_injected {packet : SyntheticPacket}
    (h : packet ∈ (dispatchControlRequest p ctx req).published) :
    req.version = bytesOf "1.2" ∧ req.name = bytesOf "send-packet" ∧ req.argument ∈ modes ∧
      ∀ now_ms, Injects packet now_ms := by
  rcases dispatchControlRequest_cases p ctx req with ⟨code, _, msg, heq⟩ | ⟨command, hversion, hname⟩
  · rw [heq] at h
    exact absurd h List.not_mem_nil
  · rw [dispatchControlRequest_of_name hversion hname] at h
    have hpublished : packet ∈
        (if command = .sendPacket ∧ ctx.bus then handleSendPacket req.argument else []) := h
    split_ifs at hpublished with hsend
    · obtain ⟨hmode, hinjectable⟩ := injectable_of_mem hpublished
      refine ⟨hversion, ?_, hmode, hinjectable.injects⟩
      rw [← hname, hsend.1]
      rfl
    · exact absurd hpublished List.not_mem_nil

end

/-- Every request whose version and command are UTF-8 gets the reply of its class. -/
theorem classifies (p : Platform) (h : p.dump.Strict) (ctx : ControlContext) (req : ControlRequest)
    (hversion : Utf8.valid req.version = true) (hcommand : Utf8.valid req.command = true) :
    Classifies p ctx req (dispatchControlRequest p ctx req) where
  missing := refuses_missing h
  malformed := refuses_malformed h hversion
  unsupported := refuses_unsupported h hversion
  unknown := refuses_unknown h hcommand
  handled command heq hname := by rw [dispatchControlRequest_of_name heq hname]
  failed r := dispatchControlRequest_failed
  injected packet := dispatchControlRequest_injected

/-- The argument goes on after a second `':'`, and so names no mode. -/
theorem classifies_send_packet :
    Classifies printing { bus := true } ⟨bytesOf "1.2", bytesOf "send-packet:learn:"⟩
      (dispatchControlRequest printing { bus := true } ⟨bytesOf "1.2", bytesOf "send-packet:learn:"⟩) :=
  classifies printing printing_strict { bus := true } ⟨bytesOf "1.2", bytesOf "send-packet:learn:"⟩ (by decide)
    (by decide)

end EdgeNetSwitch.Control
