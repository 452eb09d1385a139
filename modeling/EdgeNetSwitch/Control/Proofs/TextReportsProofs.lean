import EdgeNetSwitch.Control.Proofs.ClassificationProofs
import EdgeNetSwitch.Control.Proofs.PacketStatsReportProofs
import EdgeNetSwitch.Control.TextReports
import EdgeNetSwitch.Core.Proofs.ConfigLoaderProofs
import EdgeNetSwitch.Switching.Proofs.MacTextProofs

/-!
# Proofs: reading reports back

A report is a list of keys and values, of which the text has a line for each and the JSON form a field.
-/

namespace EdgeNetSwitch.Control

open Bytes

variable {p : Platform} {ctx : ControlContext} {cfg : Core.Config} {command : Command}

/-! ## Numbers -/

theorem readNumber_entry {key : String} (hne : bytesOf key ≠ []) (h : (0x3D : UInt8) ∉ bytesOf key) (n : ℕ) :
    readNumber key (entry key (to_string n)) = some n := by
  rw [readNumber, readCount_entry hne h, Option.bind_some]
  exact if_pos rfl

/-- A number under a key is the key, the separator and digits. -/
theorem readNumber_eq_some {key : String} {text : Bytes} {n : ℕ} (h : readNumber key text = some n) :
    ∃ digits : Bytes, digits.all isdigit = true ∧ text = bytesOf key ++ 0x3D :: digits := by
  obtain ⟨e, he, hkey⟩ := Option.bind_eq_some_iff.1 h
  obtain ⟨e', he', hdigits⟩ := Option.bind_eq_some_iff.1 he
  split_ifs at hdigits hkey with h₁ h₂
  obtain rfl := Option.some.inj hdigits
  refine ⟨e'.2, h₁.2.2, ?_⟩
  rw [Lines.eq_of_keyValue? he']
  rw [show e'.1 = bytesOf key from h₂]

/-! ## Requests -/

theorem name_plain (command : Command) : command.plain.name = command.name := by
  cases command <;> decide

theorem argument_plain (command : Command) : command.plain.argument = [] := by
  cases command <;> decide

theorem name_inJson (command : Command) : command.inJson.name = command.name := by
  cases command <;> decide

theorem argument_inJson (command : Command) : command.inJson.argument = json := by
  cases command <;> decide

theorem response_plain (p : Platform) (ctx : ControlContext) (command : Command) :
    (dispatchControlRequest p ctx command.plain).response = handler p ctx [] command := by
  rw [dispatchControlRequest_of_name rfl (name_plain command).symm, argument_plain]

theorem response_inJson (p : Platform) (ctx : ControlContext) (command : Command) :
    (dispatchControlRequest p ctx command.inJson).response = handler p ctx json command := by
  rw [dispatchControlRequest_of_name rfl (name_inJson command).symm, argument_inJson]

/-! ## Lists of values -/

/-- The text with a line for each value. -/
def valuesText (values : List (String × Json)) : Bytes :=
  List.intercalate newline (values.map fun v => entry v.1 (scalarText v.2))

theorem valuesText_singleton (v : String × Json) : valuesText [v] = entry v.1 (scalarText v.2) :=
  List.intercalate_singleton

theorem valuesText_cons_cons (v w : String × Json) (values : List (String × Json)) :
    valuesText (v :: w :: values) = line v.1 (scalarText v.2) ++ valuesText (w :: values) :=
  List.intercalate_cons_cons

/-- The keys are different, and none of them ends a line or is cut at a separator. -/
def KeysFit (keys : List String) : Prop :=
  (keys.map bytesOf).Nodup ∧ ∀ key ∈ keys, (0x3D : UInt8) ∉ bytesOf key ∧ (0x0A : UInt8) ∉ bytesOf key

instance (keys : List String) : Decidable (KeysFit keys) := inferInstanceAs (Decidable (_ ∧ ∀ key ∈ keys, _))

/-- A value that holds no fields and does not end a line. -/
structure Fits (v : Json) : Prop where
  leaves : ∀ path, v.leaves path = [(path, v)]
  line : (0x0A : UInt8) ∉ scalarText v

/-- The values make a report. -/
structure Listable (values : List (String × Json)) : Prop where
  keys : KeysFit (values.map Prod.fst)
  values : ∀ v ∈ values, Fits v.2

namespace Listable

variable {values : List (String × Json)} {data : Json}

theorem lines_valuesText (hl : Listable values) :
    Lines.lines 0x0A (valuesText values) = values.map fun v => entry v.1 (scalarText v.2) := by
  have hnewline : newline = [0x0A] := by decide
  rw [valuesText, hnewline]
  apply Lines.lines_intercalate
  · rw [List.forall_mem_map]
    intro v hv
    rw [entry_eq, List.mem_append, List.mem_cons]
    rintro (hkey | heq | hvalue)
    · exact (hl.keys.2 v.1 (List.mem_map_of_mem hv)).2 hkey
    · exact absurd heq (by decide)
    · exact (hl.values v hv).line hvalue
  · intro hlast
    obtain ⟨v, -, hnil⟩ := List.mem_map.1 (List.mem_of_getLast? hlast)
    rw [entry_eq] at hnil
    exact List.append_ne_nil_of_right_ne_nil _ (List.cons_ne_nil _ _) hnil

theorem keyValue?_entry (hl : Listable values) {v : String × Json} (hv : v ∈ values) :
    Lines.keyValue? 0x3D (entry v.1 (scalarText v.2)) = some (bytesOf v.1, scalarText v.2) := by
  rw [entry_eq, Lines.keyValue?_append (hl.keys.2 v.1 (List.mem_map_of_mem hv)).1]

theorem entries_valuesText (hl : Listable values) :
    Lines.entries 0x0A 0x3D (valuesText values) = values.map fun v => (bytesOf v.1, scalarText v.2) := by
  rw [Lines.entries, hl.lines_valuesText, List.filterMap_map, ← List.filterMap_eq_map]
  exact List.filterMap_congr fun v hv => hl.keyValue?_entry hv

/-- A document with these leaves tells the same as the text. -/
theorem tellsSame_of_leaves (hl : Listable values)
    (h : (data.leaves []).Perm (values.map fun v => (bytesOf v.1, v.2))) : TellsSame (valuesText values) data := by
  refine ⟨?_, ?_, ?_⟩
  · rw [hl.lines_valuesText, List.forall_mem_map]
    intro v hv
    rw [hl.keyValue?_entry hv]
    rfl
  · rw [hl.entries_valuesText, List.map_map]
    have hnodup := hl.keys.1
    rw [List.map_map] at hnodup
    exact hnodup
  · rw [hl.entries_valuesText]
    have hmap := h.map fun leaf => (leaf.1, scalarText leaf.2)
    rw [List.map_map] at hmap
    exact hmap.symm

/-- The leaves of an object whose fields are such values. -/
theorem leaves_jsonObject (hl : Listable values) (path : Bytes) :
    ((jsonObject values).leaves path).Perm (values.map fun v => (Json.dotted path (bytesOf v.1), v.2)) := by
  have hnodup : ((values.map fun v => (bytesOf v.1, v.2)).map Prod.fst).Nodup := by
    have hkeys' := hl.keys.1
    rw [List.map_map] at hkeys' ⊢
    exact hkeys'
  have heq : ((values.map fun v => (bytesOf v.1, v.2)).flatMap fun field =>
      Json.leaves (Json.dotted path field.1) field.2) =
        values.map fun v => (Json.dotted path (bytesOf v.1), v.2) := by
    rw [List.flatMap_map, List.map_eq_flatMap]
    exact List.flatMap_congr fun v hv => (hl.values v hv).leaves _
  rw [← heq]
  exact Json.leaves_ofFields hnodup path

/-- The object with these fields tells the same as the text. -/
theorem tellsSame_jsonObject (hl : Listable values) :
    TellsSame (valuesText values) (jsonObject values) :=
  hl.tellsSame_of_leaves (hl.leaves_jsonObject [])

end Listable

/-! ## Values that fit -/

theorem newline_not_mem_to_string (n : ℕ) : (0x0A : UInt8) ∉ to_string n := not_mem_to_string (by decide) n

theorem newline_not_mem_to_string_int (n : ℤ) : (0x0A : UInt8) ∉ to_string_int n := by
  unfold to_string_int
  split_ifs
  · rw [List.mem_append]
    rintro (hsign | hdigits)
    · exact absurd hsign (by decide)
    · exact newline_not_mem_to_string _ hdigits
  · exact newline_not_mem_to_string _

theorem newline_not_mem_to_string_double (x : ℚ) : (0x0A : UInt8) ∉ to_string_double x := by
  have hdigits := newline_not_mem_to_string
  have hzeros : ∀ n, (0x0A : UInt8) ∉ List.replicate n (0x30 : UInt8) := by
    intro n hmem
    exact absurd (List.eq_of_mem_replicate hmem) (by decide)
  have hsign : (0x0A : UInt8) ∉ (if x < 0 then bytesOf "-" else []) := by
    split_ifs <;> decide
  have hdot : (0x0A : UInt8) ∉ bytesOf "." := by decide
  unfold to_string_double
  simp only [List.mem_append, not_or]
  exact ⟨⟨⟨⟨hsign, hdigits _⟩, hdot⟩, hzeros _⟩, hdigits _⟩

theorem fits_unsigned (n : ℕ) : Fits (.unsigned n) where
  leaves path := by rw [Json.leaves]; exact nofun
  line := newline_not_mem_to_string n

theorem fits_integer (n : ℤ) : Fits (.integer n) where
  leaves path := by rw [Json.leaves]; exact nofun
  line := newline_not_mem_to_string_int n

theorem fits_float (x : ℚ) : Fits (.float x) where
  leaves path := by rw [Json.leaves]; exact nofun
  line := newline_not_mem_to_string_double x

theorem fits_boolean (b : Bool) : Fits (.boolean b) where
  leaves path := by rw [Json.leaves]; exact nofun
  line := by cases b <;> decide

theorem fits_string {s : Bytes} (h : (0x0A : UInt8) ∉ s) : Fits (.string s) where
  leaves path := by rw [Json.leaves]; exact nofun
  line := h

theorem newline_not_mem_stateToString (state : RuntimeState) : (0x0A : UInt8) ∉ stateToString state := by
  cases state <;> decide

/-! ## The reports -/

/-- A text form that succeeds tells the same as the JSON form. -/
def FormsAgree (p : Platform) (ctx : ControlContext) (command : Command) : Prop :=
  ∀ resp, handler p ctx [] command = some resp → resp.success = true →
    ∃ data, handler p ctx json command = makeJsonSuccess p.dump data ∧ TellsSame resp.payload data

theorem formsAgree_of_report {data : Json} {text : Bytes} (hplain : handler p ctx [] command = report p [] data text)
    (hjson : handler p ctx json command = report p json data text) (h : TellsSame text data) :
    FormsAgree p ctx command := by
  intro resp hresp _
  have hempty : ¬ ([] : Bytes) = json := by decide
  rw [hplain, report, if_neg hempty] at hresp
  cases hresp
  refine ⟨data, ?_, h⟩
  rw [hjson, report, if_pos rfl]

theorem formsAgree_of_error {code msg : Bytes} (h : handler p ctx [] command = makeJsonError p.dump code msg) :
    FormsAgree p ctx command := by
  intro resp hresp hok
  rw [h] at hresp
  rw [(makeJsonError_eq hresp).1] at hok
  cases hok

theorem checkArgument_nil (p : Platform) (next : Option ControlResponse) : checkArgument p [] next = next :=
  if_neg fun h => h.1 rfl

theorem checkArgument_json (p : Platform) (next : Option ControlResponse) : checkArgument p json next = next :=
  if_neg fun h => h.2 rfl

theorem formsAgree_of_snapshot {data : RuntimeStatus → Json} {text : RuntimeStatus → Bytes}
    (h : ∀ arg, handler p ctx arg command = reportSnapshot p ctx arg data text)
    (hsame : ∀ snap, TellsSame (text snap) (data snap)) : FormsAgree p ctx command := by
  have hplain := h []
  have hjson := h json
  rw [reportSnapshot, checkArgument_nil] at hplain
  rw [reportSnapshot, checkArgument_json] at hjson
  cases hsnap : loadSnapshot ctx with
  | none =>
    rw [hsnap] at hplain
    exact formsAgree_of_error hplain
  | some snap =>
    rw [hsnap] at hplain hjson
    exact formsAgree_of_report hplain hjson (hsame snap)

theorem formsAgree_of_part {α : Type} {part : Option α} {missing : String} {data : α → Json} {text : α → Bytes}
    (h : ∀ arg, handler p ctx arg command = requirePart p part missing fun x =>
      checkArgument p arg <| report p arg (data x) (text x))
    (hsame : ∀ x ∈ part, TellsSame (text x) (data x)) : FormsAgree p ctx command := by
  have hplain := h []
  have hjson := h json
  cases part with
  | none => exact formsAgree_of_error hplain
  | some x =>
    rw [requirePart, checkArgument_nil] at hplain
    rw [requirePart, checkArgument_json] at hjson
    exact formsAgree_of_report hplain hjson (hsame x rfl)

/-- The values of a report, in the order of its lines. -/
def statusValues (snap : RuntimeStatus) : List (String × Json) := [
  ("state", .string (stateToString snap.state)),
  ("uptime_ms", .unsigned snap.metrics.uptime_ms.toNat),
  ("tick_count", .unsigned snap.metrics.tick_count.toNat),
  ("snapshot_version", .unsigned snap.snapshot_version.toNat),
  ("snapshot_timestamp_ms", .unsigned snap.snapshot_timestamp_ms.toNat)]

def healthValues (snap : RuntimeStatus) : List (String × Json) := [
  ("alive", .boolean snap.health.is_alive),
  ("silence_ms", .unsigned snap.health.silence_duration_ms.toNat),
  ("last_heartbeat_ms", .unsigned snap.health.last_heartbeat_ms.toNat)]

def metricsValues (snap : RuntimeStatus) : List (String × Json) := [
  ("uptime_ms", .unsigned snap.metrics.uptime_ms.toNat),
  ("tick_count", .unsigned snap.metrics.tick_count.toNat)]

def versionValues : List (String × Json) := [
  ("version", jsonText "1.2.0"), ("protocol", jsonText "1.2"), ("build", jsonText "debug")]

def transportValues (counters : TransportCounters) : List (String × Json) := [
  ("tx_packets", .unsigned counters.tx_packets.toNat),
  ("tx_bytes", .unsigned counters.tx_bytes.toNat),
  ("tx_failed", .unsigned counters.tx_failed.toNat),
  ("backend_unavailable", .unsigned counters.backend_unavailable.toNat),
  ("port_down", .unsigned counters.port_down.toNat),
  ("invalid_packet", .unsigned counters.invalid_packet.toNat)]

def configValues (cfg : Core.Config) : List (String × Json) := [
  ("log.level", .string cfg.log.level),
  ("log.file", .string cfg.log.file),
  ("daemon.tick_ms", .unsigned cfg.daemon.tick_ms.toNat),
  ("udp.enabled", .boolean cfg.udp.enabled),
  ("udp.port", .integer cfg.udp.port),
  ("rate.alpha", .float cfg.rate.alpha),
  ("rate.window_ms", .unsigned cfg.rate.window_ms.toNat)]

theorem listable_status (snap : RuntimeStatus) : Listable (statusValues snap) where
  keys := by
    show KeysFit ["state", "uptime_ms", "tick_count", "snapshot_version", "snapshot_timestamp_ms"]
    decide
  values := by
    simp only [statusValues, List.forall_mem_cons]
    exact ⟨fits_string (newline_not_mem_stateToString _), fits_unsigned _, fits_unsigned _, fits_unsigned _,
      fits_unsigned _, List.forall_mem_nil _⟩

theorem listable_health (snap : RuntimeStatus) : Listable (healthValues snap) where
  keys := by
    show KeysFit ["alive", "silence_ms", "last_heartbeat_ms"]
    decide
  values := by
    simp only [healthValues, List.forall_mem_cons]
    exact ⟨fits_boolean _, fits_unsigned _, fits_unsigned _, List.forall_mem_nil _⟩

theorem listable_metrics (snap : RuntimeStatus) : Listable (metricsValues snap) where
  keys := by
    show KeysFit ["uptime_ms", "tick_count"]
    decide
  values := by
    simp only [metricsValues, List.forall_mem_cons]
    exact ⟨fits_unsigned _, fits_unsigned _, List.forall_mem_nil _⟩

theorem listable_version : Listable versionValues where
  keys := by
    show KeysFit ["version", "protocol", "build"]
    decide
  values := by
    simp only [versionValues, List.forall_mem_cons]
    refine ⟨fits_string ?_, fits_string ?_, fits_string ?_, List.forall_mem_nil _⟩
    all_goals decide

theorem listable_transport (counters : TransportCounters) : Listable (transportValues counters) where
  keys := by
    show KeysFit ["tx_packets", "tx_bytes", "tx_failed", "backend_unavailable", "port_down", "invalid_packet"]
    decide
  values := by
    simp only [transportValues, List.forall_mem_cons]
    exact ⟨fits_unsigned _, fits_unsigned _, fits_unsigned _, fits_unsigned _, fits_unsigned _,
      fits_unsigned _, List.forall_mem_nil _⟩

theorem listable_config (h : SingleLine cfg) : Listable (configValues cfg) where
  keys := by
    show KeysFit ["log.level", "log.file", "daemon.tick_ms", "udp.enabled", "udp.port", "rate.alpha",
      "rate.window_ms"]
    decide
  values := by
    simp only [configValues, List.forall_mem_cons]
    exact ⟨fits_string h.1, fits_string h.2, fits_unsigned _, fits_boolean _, fits_integer _, fits_float _,
      fits_unsigned _, List.forall_mem_nil _⟩

/-! ## The parts of the configuration -/

def logValues (cfg : Core.Config) : List (String × Json) :=
  [("level", .string cfg.log.level), ("file", .string cfg.log.file)]

def daemonValues (cfg : Core.Config) : List (String × Json) := [("tick_ms", .unsigned cfg.daemon.tick_ms.toNat)]

def udpValues (cfg : Core.Config) : List (String × Json) :=
  [("enabled", .boolean cfg.udp.enabled), ("port", .integer cfg.udp.port)]

def rateValues (cfg : Core.Config) : List (String × Json) :=
  [("alpha", .float cfg.rate.alpha), ("window_ms", .unsigned cfg.rate.window_ms.toNat)]

/-- The objects of the configuration. -/
def configParts (cfg : Core.Config) : List (String × Json) :=
  [("log", jsonObject (logValues cfg)), ("daemon", jsonObject (daemonValues cfg)),
    ("udp", jsonObject (udpValues cfg)), ("rate", jsonObject (rateValues cfg))]

theorem listable_log (h : SingleLine cfg) : Listable (logValues cfg) where
  keys := by
    show KeysFit ["level", "file"]
    decide
  values := by
    simp only [logValues, List.forall_mem_cons]
    exact ⟨fits_string h.1, fits_string h.2, List.forall_mem_nil _⟩

theorem listable_daemon (cfg : Core.Config) : Listable (daemonValues cfg) where
  keys := by
    show KeysFit ["tick_ms"]
    decide
  values := by
    simp only [daemonValues, List.forall_mem_cons]
    exact ⟨fits_unsigned _, List.forall_mem_nil _⟩

theorem listable_udp (cfg : Core.Config) : Listable (udpValues cfg) where
  keys := by
    show KeysFit ["enabled", "port"]
    decide
  values := by
    simp only [udpValues, List.forall_mem_cons]
    exact ⟨fits_boolean _, fits_integer _, List.forall_mem_nil _⟩

theorem listable_rate (cfg : Core.Config) : Listable (rateValues cfg) where
  keys := by
    show KeysFit ["alpha", "window_ms"]
    decide
  values := by
    simp only [rateValues, List.forall_mem_cons]
    exact ⟨fits_float _, fits_unsigned _, List.forall_mem_nil _⟩

/-- The values of a part, under its name. -/
def underPart (part : String) (values : List (String × Json)) : List (Bytes × Json) :=
  values.map fun v => (Json.dotted (bytesOf part) (bytesOf v.1), v.2)

theorem configValues_eq (cfg : Core.Config) : (configValues cfg).map (fun v => (bytesOf v.1, v.2)) =
    underPart "log" (logValues cfg) ++ (underPart "daemon" (daemonValues cfg) ++
      (underPart "udp" (udpValues cfg) ++ underPart "rate" (rateValues cfg))) := by
  have hlevel : bytesOf "log.level" = Json.dotted (bytesOf "log") (bytesOf "level") := by decide
  have hfile : bytesOf "log.file" = Json.dotted (bytesOf "log") (bytesOf "file") := by decide
  have htick : bytesOf "daemon.tick_ms" = Json.dotted (bytesOf "daemon") (bytesOf "tick_ms") := by decide
  have henabled : bytesOf "udp.enabled" = Json.dotted (bytesOf "udp") (bytesOf "enabled") := by decide
  have hport : bytesOf "udp.port" = Json.dotted (bytesOf "udp") (bytesOf "port") := by decide
  have halpha : bytesOf "rate.alpha" = Json.dotted (bytesOf "rate") (bytesOf "alpha") := by decide
  have hwindow : bytesOf "rate.window_ms" = Json.dotted (bytesOf "rate") (bytesOf "window_ms") := by decide
  simp only [configValues, underPart, logValues, daemonValues, udpValues, rateValues, List.map_cons,
    List.map_nil, List.cons_append, List.nil_append, hlevel, hfile, htick, henabled, hport, halpha, hwindow]

/-- The leaves of the configuration are its values, each under the name of its part and its own. -/
theorem leaves_configJson (h : SingleLine cfg) :
    ((configJson cfg).leaves []).Perm ((configValues cfg).map fun v => (bytesOf v.1, v.2)) := by
  have hnodup : (((configParts cfg).map fun part => (bytesOf part.1, part.2)).map Prod.fst).Nodup := by
    simp only [configParts, List.map_cons, List.map_nil]
    decide
  have hparts := Json.leaves_ofFields hnodup []
  have hlog := (listable_log h).leaves_jsonObject (bytesOf "log")
  have hdaemon := (listable_daemon cfg).leaves_jsonObject (bytesOf "daemon")
  have hudp := (listable_udp cfg).leaves_jsonObject (bytesOf "udp")
  have hrate := (listable_rate cfg).leaves_jsonObject (bytesOf "rate")
  rw [configValues_eq]
  refine hparts.trans ?_
  simp only [configParts, List.map_cons, List.map_nil, List.flatMap_cons, List.flatMap_nil, List.append_nil,
    Json.dotted_nil]
  exact hlog.append (hdaemon.append (hudp.append hrate))

/-! ## The handlers -/

theorem handleStatus_eq (arg : Bytes) : handler p ctx arg .status = reportSnapshot p ctx arg
    (fun snap => jsonObject (statusValues snap)) fun snap => valuesText (statusValues snap) := by
  show handleStatus p ctx arg = _
  unfold handleStatus
  simp only [statusValues, valuesText_cons_cons, valuesText_singleton, scalarText, count, List.append_assoc]

theorem handleHealth_eq (arg : Bytes) : handler p ctx arg .health = reportSnapshot p ctx arg
    (fun snap => jsonObject (healthValues snap)) fun snap => valuesText (healthValues snap) := by
  show handleHealth p ctx arg = _
  unfold handleHealth
  simp only [healthValues, valuesText_cons_cons, valuesText_singleton, scalarText, count, List.append_assoc]

theorem handleMetrics_eq (arg : Bytes) : handler p ctx arg .metrics = reportSnapshot p ctx arg
    (fun snap => jsonObject (metricsValues snap)) fun snap => valuesText (metricsValues snap) := by
  show handleMetrics p ctx arg = _
  unfold handleMetrics
  simp only [metricsValues, valuesText_cons_cons, valuesText_singleton, scalarText, count]

theorem handleVersion_eq (arg : Bytes) : handler p ctx arg .version =
    checkArgument p arg (report p arg (jsonObject versionValues) (valuesText versionValues)) := by
  show handleVersion p arg = _
  unfold handleVersion
  simp only [versionValues, valuesText_cons_cons, valuesText_singleton, scalarText, jsonText, List.append_assoc]

theorem handleTransportStats_eq (arg : Bytes) : handler p ctx arg .transportStats =
    requirePart p ctx.transport_manager "transport manager unavailable" fun counters =>
      checkArgument p arg <| report p arg (jsonObject (transportValues counters))
        (valuesText (transportValues counters)) := by
  show handleTransportStats p ctx arg = _
  unfold handleTransportStats
  simp only [transportValues, valuesText_cons_cons, valuesText_singleton, scalarText, count, List.append_assoc]

theorem handleConfig_eq (arg : Bytes) : handler p ctx arg .showConfig =
    requirePart p ctx.config "config is not available" fun cfg =>
      checkArgument p arg <| report p arg (configJson cfg) (valuesText (configValues cfg)) := by
  show handleConfig p ctx arg = _
  unfold handleConfig
  simp only [configValues, configJson, valuesText_cons_cons, valuesText_singleton, scalarText, List.append_assoc]

theorem formsAgree_version : FormsAgree p ctx .version :=
  formsAgree_of_report ((handleVersion_eq []).trans (checkArgument_nil p _))
    ((handleVersion_eq json).trans (checkArgument_json p _)) listable_version.tellsSame_jsonObject

theorem formsAgree_showConfig (h : ∀ cfg ∈ ctx.config, SingleLine cfg) : FormsAgree p ctx .showConfig := by
  apply formsAgree_of_part handleConfig_eq
  intro cfg hcfg
  exact (listable_config (h cfg hcfg)).tellsSame_of_leaves (leaves_configJson (h cfg hcfg))

/-- The JSON form of a report quotes nothing but the configuration. -/
theorem quotable_json (h : command = .showConfig → ∀ cfg ∈ ctx.config, quotableConfig cfg = true) :
    command.Quotable ctx json := by
  intro _
  refine ⟨by decide, ?_⟩
  intro hcommand _
  exact h hcommand

/-- What a report says in its text form, its JSON form says too, and nothing else. -/
theorem text_tells_json (p : Platform) (hdump : p.dump.Strict) (ctx : ControlContext) (command : Command)
    (hcommand : command ∈ Command.valueReports)
    (hlines : command = .showConfig → ∀ cfg ∈ ctx.config, SingleLine cfg)
    (hutf8 : command = .showConfig → ∀ cfg ∈ ctx.config, quotableConfig cfg = true) (resp : ControlResponse)
    (hresp : (dispatchControlRequest p ctx command.plain).response = some resp) (hok : resp.success = true) :
    ∃ data payload,
      (dispatchControlRequest p ctx command.inJson).response = some { success := true, payload } ∧
      p.dump (jsonObject [("status", jsonText "ok"), ("data", data)]) = some payload ∧
      TellsSame resp.payload data := by
  have hagree : FormsAgree p ctx command := by
    cases command with
    | status => exact formsAgree_of_snapshot handleStatus_eq fun snap => (listable_status snap).tellsSame_jsonObject
    | health => exact formsAgree_of_snapshot handleHealth_eq fun snap => (listable_health snap).tellsSame_jsonObject
    | metrics =>
      exact formsAgree_of_snapshot handleMetrics_eq fun snap => (listable_metrics snap).tellsSame_jsonObject
    | version => exact formsAgree_version
    | showConfig => exact formsAgree_showConfig (hlines rfl)
    | transportStats =>
      exact formsAgree_of_part handleTransportStats_eq fun counters _ =>
        (listable_transport counters).tellsSame_jsonObject
    | help | packetStats | sendPacket | showTable | fdStatus => exact absurd hcommand (by decide)
  rw [response_plain] at hresp
  rw [response_inJson]
  obtain ⟨data, hjson, hsame⟩ := hagree resp hresp hok
  have hanswered := (handler_isSome_iff hdump command).2 (quotable_json hutf8)
  obtain ⟨answer, hanswer⟩ := Option.isSome_iff_exists.1 hanswered
  obtain ⟨payload, hpayload, hsuccess⟩ := Option.bind_eq_some_iff.1 (hjson.symm.trans hanswer)
  refine ⟨data, payload, ?_, hpayload, hsame⟩
  rw [hanswer, ← hsuccess]
  rfl

/-- A configuration. -/
def configured : Core.Config := { log := { level := bytesOf "info", file := bytesOf "daemon.log" } }

def configuredText : Bytes :=
  bytesOf ("log.level=info\nlog.file=daemon.log\ndaemon.tick_ms=100\nudp.enabled=false\n" ++
    "udp.port=9000\nrate.alpha=0.200000\nrate.window_ms=1000")

theorem text_tells_json_config : ∃ data payload,
    (dispatchControlRequest printing { config := some configured } Command.showConfig.inJson).response =
      some { success := true, payload } ∧
    printing.dump (jsonObject [("status", jsonText "ok"), ("data", data)]) = some payload ∧
    TellsSame configuredText data := by
  have hlines : ∀ cfg ∈ some configured, SingleLine cfg := by
    intro cfg hcfg
    cases hcfg
    constructor <;> decide
  have hutf8 : ∀ cfg ∈ some configured, quotableConfig cfg = true := by
    intro cfg hcfg
    cases hcfg
    decide
  have hresp : (dispatchControlRequest printing { config := some configured }
      Command.showConfig.plain).response = some { success := true, payload := configuredText } := by
    rw [response_plain, handleConfig_eq]
    decide +kernel
  obtain ⟨data, payload, hjson, hdump, hsame⟩ := text_tells_json printing printing_strict
    { config := some configured } .showConfig (by decide) (fun _ => hlines) (fun _ => hutf8)
    { success := true, payload := configuredText } hresp rfl
  dsimp only at hsame
  exact ⟨data, payload, hjson, hdump, hsame⟩

end EdgeNetSwitch.Control
