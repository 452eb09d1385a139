import EdgeNetSwitch.Control.ControlService
import EdgeNetSwitch.Json.Lookup

/-!
# Which requests the control path answers

`json::dump` throws at what is not UTF-8, and the responses quote what the client sends. One lemma for
each layer of the dispatch says when it returns, up to `handleClient` as a whole.
-/

namespace EdgeNetSwitch.Control

theorem find_char_cons (sep c : UInt8) (text : Bytes) : Bytes.find [sep] (c :: text) =
    if c = sep then some 0 else (Bytes.find [sep] text).map (· + 1) := by
  rw [Bytes.find]
  by_cases hc : c = sep
  · simp [hc]
  · simp [hc, Ne.symm hc]

/-- The bytes of a literal, without going through its encoding. -/
theorem ascii_bytesOf {l : List Char} (h : Utf8.ascii (l.map fun c => c.toNat.toUInt8) = true) :
    Utf8.ascii (bytesOf (String.ofList l)) = true := by
  rw [bytesOf, String.toList_ofList]
  exact h

theorem valid_bytesOf {l : List Char} (h : Utf8.ascii (l.map fun c => c.toNat.toUInt8) = true) :
    Utf8.valid (bytesOf (String.ofList l)) = true := Utf8.valid_of_ascii (ascii_bytesOf h)

namespace error

theorem valid_invalidRequest : Utf8.valid invalidRequest = true := valid_bytesOf (by decide)

theorem valid_invalidVersionFormat : Utf8.valid invalidVersionFormat = true := valid_bytesOf (by decide)

theorem valid_unsupportedVersion : Utf8.valid unsupportedVersion = true := valid_bytesOf (by decide)

theorem valid_unknownCommand : Utf8.valid unknownCommand = true := valid_bytesOf (by decide)

theorem valid_internalError : Utf8.valid internalError = true := valid_bytesOf (by decide)

end error

section

variable {dump : Dump} {fields : List (String × Json)} {data : Json} {code msg : Bytes}

/-- A field of an object whose keys are different. -/
theorem field?_jsonObject {key : String} (h : (fields.map fun field => bytesOf field.1).Nodup)
    (hmem : (key, data) ∈ fields) : (jsonObject fields).field? (bytesOf key) = some data := by
  apply Json.field?_ofFields_of_mem
  · rw [List.map_map]
    exact h
  · exact List.mem_map_of_mem (f := fun field : String × Json => (bytesOf field.1, field.2)) hmem

/-- An object whose keys and values are UTF-8 is. -/
theorem utf8_jsonObject (h : ∀ field ∈ fields, Utf8.valid (bytesOf field.1) = true ∧
    field.2.utf8 = true) : (jsonObject fields).utf8 = true := by
  apply Json.utf8_ofFields
  intro field hfield
  obtain ⟨field', hmem, rfl⟩ := List.mem_map.1 hfield
  exact h field' hmem

theorem utf8_field {l : List Char} (hkey : Utf8.ascii (l.map fun c => c.toNat.toUInt8) = true)
    (hdata : data.utf8 = true)
    (hfields : ∀ field ∈ fields, Utf8.valid (bytesOf field.1) = true ∧ field.2.utf8 = true) :
    ∀ field ∈ (String.ofList l, data) :: fields,
      Utf8.valid (bytesOf field.1) = true ∧ field.2.utf8 = true :=
  List.forall_mem_cons.2 ⟨⟨valid_bytesOf hkey, hdata⟩, hfields⟩

theorem utf8_noField (field : String × Json) (h : field ∈ []) :
    Utf8.valid (bytesOf field.1) = true ∧ field.2.utf8 = true := absurd h List.not_mem_nil

/-- An object with different keys is UTF-8 exactly if its values are. -/
theorem utf8_jsonObject_eq (hnodup : (fields.map fun field => bytesOf field.1).Nodup)
    (hkeys : ∀ key ∈ fields.map Prod.fst, Utf8.valid (bytesOf key) = true) :
    (jsonObject fields).utf8 = fields.all fun field => field.2.utf8 := by
  have hnodup' : ((fields.map fun field => (bytesOf field.1, field.2)).map Prod.fst).Nodup := by
    rw [List.map_map]
    exact hnodup
  rw [jsonObject, Json.utf8_ofFields_eq hnodup']
  clear hnodup hnodup'
  induction fields with
  | nil => rfl
  | cons field fields ih =>
    obtain ⟨hkey, hrest⟩ := List.forall_mem_cons.1 hkeys
    rw [List.map_cons, Json.utf8Fields, ih hrest, List.all_cons, hkey, Bool.true_and]

theorem utf8_jsonObject_pair {l l' : List Char} {x y : Json}
    (hne : bytesOf (String.ofList l) ≠ bytesOf (String.ofList l'))
    (hkeys : Utf8.ascii ((l ++ l').map fun c => c.toNat.toUInt8) = true) :
    (jsonObject [(String.ofList l, x), (String.ofList l', y)]).utf8 = (x.utf8 && y.utf8) := by
  have hboth : Utf8.ascii (l.map fun c => c.toNat.toUInt8) = true ∧
      Utf8.ascii (l'.map fun c => c.toNat.toUInt8) = true := by
    simpa [Utf8.ascii] using hkeys
  rw [utf8_jsonObject_eq (by simpa using hne) (by simp [valid_bytesOf hboth.1, valid_bytesOf hboth.2])]
  simp

theorem makeJsonSuccess_isSome_iff (h : dump.Strict) :
    (makeJsonSuccess dump data).isSome = true ↔ data.utf8 = true := by
  have hobject : (jsonObject [("status", jsonText "ok"), ("data", data)]).utf8 = data.utf8 := by
    rw [utf8_jsonObject_pair (by decide) (by decide)]
    have htext : (jsonText "ok").utf8 = true := valid_bytesOf (by decide)
    rw [htext, Bool.true_and]
  rw [← hobject, ← h, makeJsonSuccess]
  cases dump (jsonObject [("status", jsonText "ok"), ("data", data)]) <;> simp

/-- An error can be reported exactly if its message is UTF-8. -/
theorem makeJsonError_isSome_iff (h : dump.Strict) (hcode : Utf8.valid code = true) :
    (makeJsonError dump code msg).isSome = true ↔ Utf8.valid msg = true := by
  have hobject : (jsonObject [("status", jsonText "error"),
      ("error", jsonObject [("code", .string code), ("message", .string msg)])]).utf8 =
      Utf8.valid msg := by
    rw [utf8_jsonObject_pair (by decide) (by decide),
      utf8_jsonObject_pair (by decide) (by decide)]
    have htext : (jsonText "error").utf8 = true := valid_bytesOf (by decide)
    simp [Json.utf8, htext, hcode]
  rw [← hobject, ← h, makeJsonError]
  cases dump (jsonObject [("status", jsonText "error"),
      ("error", jsonObject [("code", .string code), ("message", .string msg)])]) <;> simp

/-- An error that quotes something after a literal. -/
theorem makeJsonError_quoting_isSome_iff {l : List Char} {quoted : Bytes} (h : dump.Strict)
    (hcode : Utf8.valid code = true) (hl : Utf8.ascii (l.map fun c => c.toNat.toUInt8) = true) :
    (makeJsonError dump code (bytesOf (String.ofList l) ++ quoted)).isSome = true ↔
      Utf8.valid quoted = true := by
  rw [makeJsonError_isSome_iff h hcode, Utf8.valid_append_of_ascii (ascii_bytesOf hl)]

end

section

variable {p : Platform} {ctx : ControlContext} {arg : Bytes} {next : Option ControlResponse}

theorem checkArgument_isSome_iff (h : p.dump.Strict) :
    (checkArgument p arg next).isSome = true ↔
      Utf8.valid arg = true ∧ (arg = [] ∨ arg = json → next.isSome = true) := by
  unfold checkArgument
  split_ifs with harg
  · refine (makeJsonError_quoting_isSome_iff h error.valid_invalidRequest (by decide)).trans ?_
    exact ⟨fun hvalid => ⟨hvalid, fun hor => absurd hor (by tauto)⟩, fun hvalid => hvalid.1⟩
  · have hvalid : arg = [] ∨ arg = json := by tauto
    refine ⟨fun hnext => ⟨?_, fun _ => hnext⟩, fun hnext => hnext.2 hvalid⟩
    rcases hvalid with rfl | rfl <;> decide

theorem requirePart_isSome_iff {α : Type} {part : Option α} {missing : String}
    {next : α → Option ControlResponse} (h : p.dump.Strict)
    (hmissing : Utf8.valid (bytesOf missing) = true) :
    (requirePart p part missing next).isSome = true ↔ ∀ x ∈ part, (next x).isSome = true := by
  cases part with
  | none => simp [requirePart, makeJsonError_isSome_iff h error.valid_internalError, hmissing]
  | some x => simp [requirePart]

theorem report_isSome_iff {data : Json} {text : Bytes} (h : p.dump.Strict) :
    (report p arg data text).isSome = true ↔ (arg = json → data.utf8 = true) := by
  unfold report
  split_ifs with harg
  · rw [makeJsonSuccess_isSome_iff h]
    exact ⟨fun hdata _ => hdata, fun hdata => hdata harg⟩
  · exact iff_of_true rfl fun hjson => absurd hjson harg

/-- A command that reports on something in UTF-8 quotes its argument only. -/
theorem checkArgument_report {data : Json} {text : Bytes} (h : p.dump.Strict)
    (hdata : data.utf8 = true) :
    (checkArgument p arg (report p arg data text)).isSome = true ↔ Utf8.valid arg = true := by
  rw [checkArgument_isSome_iff h]
  exact and_iff_left fun _ => (report_isSome_iff h).2 fun _ => hdata

theorem reportSnapshot_isSome_iff {data : RuntimeStatus → Json} {text : RuntimeStatus → Bytes}
    (h : p.dump.Strict) (hdata : ∀ snap, (data snap).utf8 = true) :
    (reportSnapshot p ctx arg data text).isSome = true ↔ Utf8.valid arg = true := by
  rw [reportSnapshot, checkArgument_isSome_iff h]
  apply and_iff_left
  intro _
  refine (requirePart_isSome_iff h (valid_bytesOf (by decide))).2 ?_
  exact fun snap _ => (report_isSome_iff h).2 fun _ => hdata snap

/-- A command that needs a part of the context quotes its argument only if the part is there. -/
theorem requirePart_report {α : Type} {part : Option α} {missing : String} {data : α → Json}
    {text : α → Bytes} (h : p.dump.Strict) (hmissing : Utf8.valid (bytesOf missing) = true)
    (hdata : ∀ x, (data x).utf8 = true) :
    (requirePart p part missing fun x => checkArgument p arg (report p arg (data x) (text x))).isSome =
      true ↔ (part.isSome = true → Utf8.valid arg = true) := by
  rw [requirePart_isSome_iff h hmissing]
  cases part with
  | none => simp
  | some x => simpa using checkArgument_report h (hdata x)

end

section

theorem valid_stateToString (s : RuntimeState) : Utf8.valid (stateToString s) = true := by
  cases s <;> exact valid_bytesOf (by decide)

theorem valid_dropReasonToString (r : PacketDropReason) : Utf8.valid (dropReasonToString r) = true := by
  cases r <;> exact valid_bytesOf (by decide)

theorem valid_fdStateToString (s : FdState) : Utf8.valid (fdStateToString s) = true := by
  cases s <;> exact valid_bytesOf (by decide)

theorem valid_fdTypeToString (t : FdType) : Utf8.valid (fdTypeToString t) = true := by
  cases t <;> exact valid_bytesOf (by decide)

theorem valid_name (command : Command) : Utf8.valid command.name = true := by
  cases command <;> exact valid_bytesOf (by decide)

theorem valid_description (command : Command) : Utf8.valid command.description = true := by
  cases command <;> exact valid_bytesOf (by decide)

theorem valid_fields (command : Command) : ∀ field ∈ command.fields, Utf8.valid field = true := by
  cases command
  all_goals
    repeat refine List.forall_mem_cons.2 ⟨valid_bytesOf (by decide), ?_⟩
    exact fun _ h => absurd h List.not_mem_nil

theorem utf8_statusJson (snap : RuntimeStatus) :
    (jsonObject [
      ("state", .string (stateToString snap.state)),
      ("uptime_ms", .unsigned snap.metrics.uptime_ms.toNat),
      ("tick_count", .unsigned snap.metrics.tick_count.toNat),
      ("snapshot_version", .unsigned snap.snapshot_version.toNat),
      ("snapshot_timestamp_ms", .unsigned snap.snapshot_timestamp_ms.toNat)]).utf8 = true := by
  apply utf8_jsonObject
  refine utf8_field (by decide) (valid_stateToString snap.state) ?_
  iterate 4 refine utf8_field (by decide) rfl ?_
  exact utf8_noField

theorem utf8_versionJson :
    (jsonObject [("version", jsonText "1.2.0"), ("protocol", jsonText "1.2"),
      ("build", jsonText "debug")]).utf8 = true := by
  apply utf8_jsonObject
  iterate 3 refine utf8_field (by decide) (valid_bytesOf (by decide)) ?_
  exact utf8_noField

theorem utf8_healthJson (snap : RuntimeStatus) :
    (jsonObject [
      ("alive", .boolean snap.health.is_alive),
      ("silence_ms", .unsigned snap.health.silence_duration_ms.toNat),
      ("last_heartbeat_ms", .unsigned snap.health.last_heartbeat_ms.toNat)]).utf8 = true := by
  apply utf8_jsonObject
  iterate 3 refine utf8_field (by decide) rfl ?_
  exact utf8_noField

theorem utf8_metricsJson (snap : RuntimeStatus) :
    (jsonObject [
      ("uptime_ms", .unsigned snap.metrics.uptime_ms.toNat),
      ("tick_count", .unsigned snap.metrics.tick_count.toNat)]).utf8 = true :=
  utf8_jsonObject_pair (by decide) (by decide)

theorem utf8_transportJson (counters : TransportCounters) :
    (jsonObject [
      ("tx_packets", .unsigned counters.tx_packets.toNat),
      ("tx_bytes", .unsigned counters.tx_bytes.toNat),
      ("tx_failed", .unsigned counters.tx_failed.toNat),
      ("backend_unavailable", .unsigned counters.backend_unavailable.toNat),
      ("port_down", .unsigned counters.port_down.toNat),
      ("invalid_packet", .unsigned counters.invalid_packet.toNat)]).utf8 = true := by
  apply utf8_jsonObject
  iterate 6 refine utf8_field (by decide) rfl ?_
  exact utf8_noField

theorem utf8_packetStatsJson (order : IterationOrder PacketDropReason) (m : PacketMetrics) :
    (packetStatsJson order m).utf8 = true := by
  have hdrops : (Json.ofFields ((drops order m).map fun drop =>
      (dropReasonToString drop.1, .unsigned drop.2.toNat))).utf8 = true := by
    apply Json.utf8_ofFields
    intro field hfield
    obtain ⟨drop, _, rfl⟩ := List.mem_map.1 hfield
    exact ⟨valid_dropReasonToString drop.1, rfl⟩
  apply utf8_jsonObject
  iterate 5 refine utf8_field (by decide) rfl ?_
  refine utf8_field (by decide) hdrops ?_
  iterate 11 refine utf8_field (by decide) rfl ?_
  exact utf8_noField

theorem utf8_helpEntry (command : Command) :
    Utf8.valid (helpEntry command).1 = true ∧ (helpEntry command).2.utf8 = true := by
  refine ⟨valid_name command, ?_⟩
  have harray : Json.utf8 (.array (command.fields.map .string)) = true := by
    apply Json.utf8_array
    intro item hitem
    obtain ⟨field, hfield, rfl⟩ := List.mem_map.1 hitem
    exact valid_fields command field hfield
  rw [helpEntry, utf8_jsonObject_pair (by decide) (by decide), harray, Bool.and_true]
  exact valid_description command

theorem utf8_fdStatusJson (records : List FdRecord) :
    (jsonObject [("fds", .array (records.map fun record => jsonObject [
      ("fd", .integer record.fd),
      ("state", .string (fdStateToString record.state)),
      ("type", .string (fdTypeToString record.fd_type))]))]).utf8 = true := by
  have harray : Json.utf8 (.array (records.map fun record => jsonObject [
      ("fd", .integer record.fd),
      ("state", .string (fdStateToString record.state)),
      ("type", .string (fdTypeToString record.fd_type))])) = true := by
    apply Json.utf8_array
    intro item hitem
    obtain ⟨record, _, rfl⟩ := List.mem_map.1 hitem
    apply utf8_jsonObject
    refine utf8_field (by decide) rfl ?_
    refine utf8_field (by decide) (valid_fdStateToString record.state) ?_
    exact utf8_field (by decide) (valid_fdTypeToString record.fd_type) utf8_noField
  exact utf8_jsonObject (utf8_field (by decide) harray utf8_noField)

/-- The configuration is the one thing besides the request that is quoted. -/
theorem utf8_configJson (cfg : Core.Config) :
    (jsonObject [
      ("log", jsonObject [("level", .string cfg.log.level), ("file", .string cfg.log.file)]),
      ("daemon", jsonObject [("tick_ms", .unsigned cfg.daemon.tick_ms.toNat)]),
      ("udp", jsonObject [("enabled", .boolean cfg.udp.enabled), ("port", .integer cfg.udp.port)]),
      ("rate", jsonObject [
        ("alpha", .float cfg.rate.alpha),
        ("window_ms", .unsigned cfg.rate.window_ms.toNat)])]).utf8 = quotableConfig cfg := by
  have hlog : (jsonObject [("level", .string cfg.log.level), ("file", .string cfg.log.file)]).utf8 =
      quotableConfig cfg := utf8_jsonObject_pair (by decide) (by decide)
  have hdaemon : (jsonObject [("tick_ms", .unsigned cfg.daemon.tick_ms.toNat)]).utf8 = true := by
    exact utf8_jsonObject (utf8_field (by decide) rfl utf8_noField)
  have hudp : (jsonObject [("enabled", .boolean cfg.udp.enabled),
      ("port", .integer cfg.udp.port)]).utf8 = true :=
    utf8_jsonObject_pair (by decide) (by decide)
  have hrate : (jsonObject [("alpha", .float cfg.rate.alpha),
      ("window_ms", .unsigned cfg.rate.window_ms.toNat)]).utf8 = true :=
    utf8_jsonObject_pair (by decide) (by decide)
  rw [utf8_jsonObject_eq (by simp only [List.map_cons, List.map_nil]; decide)
    (by simp only [List.map_cons, List.map_nil]; decide)]
  simp [hlog, hdaemon, hudp, hrate]

end

section

variable {p : Platform} {ctx : ControlContext} {arg : Bytes}

theorem handleHelp_isSome_iff (h : p.dump.Strict) :
    (handleHelp p arg).isSome = true ↔ Utf8.valid arg = true := by
  unfold handleHelp
  split_ifs with hjson hne
  · have hcommands : (Json.ofFields (p.commands.items.map helpEntry)).utf8 = true := by
      apply Json.utf8_ofFields
      intro field hfield
      obtain ⟨command, _, rfl⟩ := List.mem_map.1 hfield
      exact utf8_helpEntry command
    have hobject : (jsonObject [("commands", .ofFields (p.commands.items.map helpEntry))]).utf8 = true := by
      exact utf8_jsonObject (utf8_field (by decide) hcommands utf8_noField)
    rw [makeJsonSuccess_isSome_iff h, hobject, hjson]
    decide
  · cases hfind : Command.find arg with
    | none => exact makeJsonError_quoting_isSome_iff h error.valid_unknownCommand (by decide)
    | some command =>
      have hname : command.name = arg := by simpa using List.find?_some hfind
      rw [← hname]
      simpa using valid_name command
  · have hnil : arg = [] := by tauto
    subst hnil
    exact iff_of_true rfl rfl

theorem sendPacketResponse_isSome_iff (h : p.dump.Strict) :
    (sendPacketResponse p ctx arg).isSome = true ↔ (ctx.bus = true → Utf8.valid arg = true) := by
  unfold sendPacketResponse
  split_ifs with hbus hbroadcast hlearn htopology
  · have hoff : ctx.bus = false := by simpa using hbus
    rw [makeJsonError_isSome_iff h error.valid_internalError, hoff]
    exact iff_of_true (valid_bytesOf (by decide)) nofun
  · subst hbroadcast
    refine iff_of_true ((makeJsonSuccess_isSome_iff h).2 (utf8_jsonObject ?_)) fun _ =>
      valid_bytesOf (by decide)
    iterate 2 refine utf8_field (by decide) (valid_bytesOf (by decide)) ?_
    exact utf8_field (by decide) rfl utf8_noField
  · subst hlearn
    refine iff_of_true ((makeJsonSuccess_isSome_iff h).2 (utf8_jsonObject ?_)) fun _ =>
      valid_bytesOf (by decide)
    exact utf8_field (by decide) (valid_bytesOf (by decide)) utf8_noField
  · subst htopology
    refine iff_of_true ((makeJsonSuccess_isSome_iff h).2 (utf8_jsonObject ?_)) fun _ =>
      valid_bytesOf (by decide)
    refine utf8_field (by decide) (valid_bytesOf (by decide)) ?_
    iterate 2 refine utf8_field (by decide) rfl ?_
    exact utf8_noField
  · have hon : ctx.bus = true := by simpa using hbus
    refine (makeJsonError_quoting_isSome_iff h error.valid_invalidRequest (by decide)).trans ?_
    simp [hon]

theorem handleShow_isSome_iff (h : p.dump.Strict) :
    (handleShow p ctx arg).isSome = true ↔
      (ctx.forwarding_engine.isSome = true → Utf8.valid arg = true) := by
  unfold handleShow
  refine (requirePart_isSome_iff h (valid_bytesOf (by decide))).trans ?_
  cases ctx.forwarding_engine with
  | none => simp
  | some engine =>
    simp only [Option.mem_some_iff, forall_eq', Option.isSome_some, forall_const]
    split_ifs with harg
    · subst harg
      exact iff_of_true rfl (by decide)
    · exact makeJsonError_quoting_isSome_iff h error.valid_invalidRequest (by decide)

theorem handleConfig_isSome_iff (h : p.dump.Strict) :
    (handleConfig p ctx arg).isSome = true ↔ Command.showConfig.Quotable ctx arg := by
  unfold handleConfig
  refine (requirePart_isSome_iff h (valid_bytesOf (by decide))).trans ?_
  unfold Command.Quotable Command.available
  cases ctx.config with
  | none => simp
  | some cfg =>
    simp only [Option.mem_some_iff, forall_eq', Option.isSome_some, forall_const]
    rw [checkArgument_isSome_iff h, report_isSome_iff h, utf8_configJson]
    constructor
    · rintro ⟨hvalid, hreport⟩
      exact ⟨hvalid, fun hjson => hreport (Or.inr hjson) hjson⟩
    · rintro ⟨hvalid, hconfig⟩
      exact ⟨hvalid, fun _ hjson => hconfig hjson⟩

/-- A handler returns exactly if what its command quotes is UTF-8. -/
theorem handler_isSome_iff (h : p.dump.Strict) (command : Command) :
    (handler p ctx arg command).isSome = true ↔ command.Quotable ctx arg := by
  have hargument : command ≠ .showConfig → ((command.available ctx = true → Utf8.valid arg = true) ↔
      command.Quotable ctx arg) := by
    intro hne
    exact imp_congr_right fun _ => (and_iff_left fun heq => absurd heq hne).symm
  have halways : command.available ctx = true → command ≠ .showConfig →
      (Utf8.valid arg = true ↔ command.Quotable ctx arg) := by
    intro havailable hne
    rw [← hargument hne]
    exact ⟨fun hvalid _ => hvalid, fun hvalid => hvalid havailable⟩
  cases command with
  | status => exact (reportSnapshot_isSome_iff h utf8_statusJson).trans (halways rfl (by decide))
  | health => exact (reportSnapshot_isSome_iff h utf8_healthJson).trans (halways rfl (by decide))
  | metrics => exact (reportSnapshot_isSome_iff h utf8_metricsJson).trans (halways rfl (by decide))
  | version => exact (checkArgument_report h utf8_versionJson).trans (halways rfl (by decide))
  | help => exact (handleHelp_isSome_iff h).trans (halways rfl (by decide))
  | packetStats =>
    exact (reportSnapshot_isSome_iff h fun snap => utf8_packetStatsJson _ _).trans
      (halways rfl (by decide))
  | showConfig => exact handleConfig_isSome_iff h
  | sendPacket => exact (sendPacketResponse_isSome_iff h).trans (hargument (by decide))
  | showTable => exact (handleShow_isSome_iff h).trans (hargument (by decide))
  | fdStatus =>
    exact (requirePart_report h (valid_bytesOf (by decide)) utf8_fdStatusJson).trans (hargument (by decide))
  | transportStats =>
    exact (requirePart_report h (valid_bytesOf (by decide)) utf8_transportJson).trans (hargument (by decide))

theorem dispatchV12_isSome_iff {req : ControlRequest} (h : p.dump.Strict) :
    (dispatchV12 p ctx req).response.isSome = true ↔
      Utf8.valid (splitCommand req.command).1 = true ∧
        ∀ command ∈ Command.find (splitCommand req.command).1,
          command.Quotable ctx (splitCommand req.command).2 := by
  unfold dispatchV12
  cases hfind : Command.find (splitCommand req.command).1 with
  | none =>
    simp only [hfind]
    refine (makeJsonError_quoting_isSome_iff h error.valid_unknownCommand (by decide)).trans ?_
    simp
  | some command =>
    have hname : command.name = (splitCommand req.command).1 := by simpa using List.find?_some hfind
    simp only [hfind, Option.mem_some_iff, forall_eq', handler_isSome_iff h]
    rw [← hname]
    exact (and_iff_right (valid_name command)).symm

/-- The response to a request in another version quotes the version only. -/
theorem quotable_of_refused {req : ControlRequest} (hpresent : ¬ (req.version = [] ∨ req.command = []))
    (hne : req.version ≠ bytesOf "1.2") : req.Quotable ctx ↔ Utf8.valid req.version = true := by
  obtain ⟨hversion, hcommand⟩ := not_or.1 hpresent
  constructor
  · intro hquotable
    exact (hquotable hversion hcommand).1
  · intro hvalid _ _
    exact ⟨hvalid, fun heq => absurd heq hne⟩

/-- A request is answered exactly if what the response quotes is UTF-8. -/
theorem dispatchControlRequest_isSome_iff {req : ControlRequest} (h : p.dump.Strict) :
    (dispatchControlRequest p ctx req).response.isSome = true ↔ req.Quotable ctx := by
  unfold dispatchControlRequest
  split_ifs with hempty hformat hversion heq
  · rw [makeJsonError_isSome_iff h error.valid_invalidRequest]
    refine iff_of_true (valid_bytesOf (by decide)) fun hversion hcommand => ?_
    exact absurd hempty (by tauto)
  · have hne : req.version ≠ bytesOf "1.2" := by
      intro heq
      rw [heq] at hformat
      exact absurd hformat (by decide)
    rw [quotable_of_refused hempty hne]
    exact makeJsonError_quoting_isSome_iff h error.valid_invalidVersionFormat (by decide)
  · have hne : req.version ≠ bytesOf "1.2" := by simpa [isValidProtocolVersion] using hversion
    rw [quotable_of_refused hempty hne]
    exact makeJsonError_quoting_isSome_iff h error.valid_unsupportedVersion (by decide)
  · have hvalid : Utf8.valid req.version = true := by
      rw [heq]
      decide
    rw [dispatchV12_isSome_iff h]
    constructor
    · intro hquotable _ _
      exact ⟨hvalid, fun _ => hquotable⟩
    · intro hquotable
      exact (hquotable (by tauto) (by tauto)).2 heq
  · exact absurd (by simpa [isValidProtocolVersion] using hversion) heq

theorem respond_isSome_iff {cmd : Bytes} (h : p.dump.Strict) :
    (respond p ctx cmd).response.isSome = true ↔ Quotable ctx cmd := by
  unfold respond Quotable
  cases parseRequest cmd with
  | none =>
    rw [makeJsonError_isSome_iff h error.valid_invalidRequest]
    exact iff_of_true (valid_bytesOf (by decide)) nofun
  | some req =>
    rw [dispatchControlRequest_isSome_iff h]
    simp

/-- `handleClient` comes back from what a client has sent, with a response if there is anything to respond
to, exactly if what the response quotes is UTF-8. -/
theorem returns_iff_quotable (h : p.dump.Strict) (ctx : ControlContext) (received : Bytes) :
    (handleClient p ctx received).isSome = true ↔ Quotable ctx (readBuffer received) := by
  unfold handleClient
  split_ifs with hempty
  · rw [hempty]
    exact iff_of_true rfl nofun
  · rw [Option.isSome_map, respond_isSome_iff h]

end

/-- A printer with two columns for each level, and commands listed in the order of the table. -/
def printing : Platform where
  dump := Json.dump to_string_double
  commands := { items := Command.all, nodup := by decide, complete := fun command => by cases command <;> decide }

theorem printing_strict : printing.dump.Strict := Json.dump_isSome to_string_double

theorem returns_version :
    (handleClient printing {} (bytesOf "1.2|version:json\n")).isSome = true :=
  (returns_iff_quotable printing_strict {} (bytesOf "1.2|version:json\n")).2 (by decide)

/-- The byte `0xFF` for a command ends the daemon. -/
theorem not_quotable_command :
    ¬ ∀ p : Platform, p.dump.Strict → ∀ ctx received, (handleClient p ctx received).isSome = true := by
  intro hall
  have hreturns := hall printing printing_strict {} [0x31, 0x2E, 0x32, 0x7C, 0xFF]
  exact absurd hreturns (by decide)

end EdgeNetSwitch.Control
