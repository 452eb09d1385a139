import EdgeNetSwitch.Control.Proofs.ControlClientProofs
import EdgeNetSwitch.Control.Proofs.TextReportsProofs

/-!
# Proofs: the configuration as a document

What `show-config:json` prints is a document with all the fields a configuration is loaded from, and so is what
a parser makes of it; the conversions keep its numbers.
-/

namespace EdgeNetSwitch.Control

open EdgeNetSwitch.Core EdgeNetSwitch.Core.ConfigLoader

variable {c : Json.Casts} {j v data : Json} {cfg : Core.Config} {n : ℤ}

/-! ## Conversions -/

theorem wrapInt_range (n : ℤ) : -2 ^ 31 ≤ Json.wrapInt n ∧ Json.wrapInt n < 2 ^ 31 := by
  have hlow : -((2 ^ 32 : ℕ) : ℤ) / 2 ≤ n.bmod (2 ^ 32) := by
    have := Int.le_bmod (x := n) (m := 2 ^ 32) (by decide)
    omega
  have hhigh := Int.bmod_lt (x := n) (m := 2 ^ 32) (by decide)
  unfold Json.wrapInt
  constructor <;> omega

/-- What is converted to an `int` fits in one. -/
theorem getInt_range (h : c.getInt v = some n) : -2 ^ 31 ≤ n ∧ n < 2 ^ 31 := by
  cases v with
  | boolean b =>
    have heq : (if b then 1 else 0) = n := Option.some.inj h
    split_ifs at heq <;> omega
  | unsigned m | integer m =>
    have heq : Json.wrapInt m = n := Option.some.inj h
    rw [← heq]
    exact wrapInt_range _
  | float x =>
    rw [Json.getInt_float] at h
    split_ifs at h with hrange
    · rw [← Option.some.inj h]
      exact hrange
    · rw [← Option.some.inj h]
      exact wrapInt_range _
  | null | string s | array items | object fields => cases h

theorem ofInt_toNat32 (x : UInt32) : UInt32.ofInt x.toNat = x := by
  rw [← UInt32.toNat_inj]
  have hlt := x.toNat_lt
  show (((x.toNat : ℤ) % 2 ^ 32).toNat % 2 ^ 32 : ℕ) = x.toNat
  omega

theorem ofInt_toNat64 (x : UInt64) : UInt64.ofInt x.toNat = x := by
  rw [← UInt64.toNat_inj]
  have hlt := x.toNat_lt
  show (((x.toNat : ℤ) % 2 ^ 64).toNat % 2 ^ 64 : ℕ) = x.toNat
  omega

/-! ## The document -/

theorem item?_of_alike (h : j.Alike data) {part key : String} (hitem : item? j part key = some v) :
    ∃ w, item? data part key = some w ∧ v.Alike w := by
  obtain ⟨values, hvalues, hfield⟩ := Option.bind_eq_some_iff.1 hitem
  obtain ⟨values', hvalues', halike⟩ := h.field?_eq_some hvalues
  obtain ⟨w, hw, hvw⟩ := halike.field?_eq_some hfield
  exact ⟨w, Option.bind_eq_some_iff.2 ⟨values', hvalues', hw⟩, hvw⟩

/-- A field of the document that its conversion takes, as a parser reads it. -/
theorem value_shown {α : Type} {get : Json → Option α} {default x : α} {part key : String}
    (h : (configJson cfg).Alike data) (hitem : item? (configJson cfg) part key = some v)
    (hget : ∀ w, v.Alike w → get w = some x) : value get key default (objectOrEmpty data part) = .ok x := by
  obtain ⟨w, hw, hvw⟩ := item?_of_alike h hitem
  exact value_eq_ok_iff.2 (.inr ⟨w, hw, hget w hvw⟩)

theorem item?_configJson {part key : String} {values : List (String × Json)}
    (hpart : (part, jsonObject values) ∈ configParts cfg) (h : (values.map fun value => bytesOf value.1).Nodup)
    (hmem : (key, v) ∈ values) : item? (configJson cfg) part key = some v := by
  have hparts : ((configParts cfg).map fun part => bytesOf part.1).Nodup := by
    simp only [configParts, List.map_cons, List.map_nil]
    decide
  have hfield : (configJson cfg).field? (bytesOf part) = some (jsonObject values) := field?_jsonObject hparts hpart
  rw [item?, hfield]
  exact field?_jsonObject h hmem

theorem item?_log {key : String} (hmem : (key, v) ∈ logValues cfg) :
    item? (configJson cfg) "log" key = some v := by
  refine item?_configJson (by simp [configParts]) ?_ hmem
  simp only [logValues, List.map_cons, List.map_nil]
  decide

theorem item?_daemon {key : String} (hmem : (key, v) ∈ daemonValues cfg) :
    item? (configJson cfg) "daemon" key = some v := by
  refine item?_configJson (by simp [configParts]) ?_ hmem
  exact List.nodup_singleton _

theorem item?_udp {key : String} (hmem : (key, v) ∈ udpValues cfg) :
    item? (configJson cfg) "udp" key = some v := by
  refine item?_configJson (by simp [configParts]) ?_ hmem
  simp only [udpValues, List.map_cons, List.map_nil]
  decide

theorem item?_rate {key : String} (hmem : (key, v) ∈ rateValues cfg) :
    item? (configJson cfg) "rate" key = some v := by
  refine item?_configJson (by simp [configParts]) ?_ hmem
  simp only [rateValues, List.map_cons, List.map_nil]
  decide

/-! ## Loading it -/

theorem getString_alike (s : Bytes) (w : Json) (h : (Json.string s).Alike w) : Json.getString w = some s := by
  rw [h.string_eq]
  rfl

theorem getBool_alike (b : Bool) (w : Json) (h : (Json.boolean b).Alike w) : Json.getBool w = some b := by
  rw [h.boolean_eq]
  rfl

theorem getDouble_alike (x : ℚ) (w : Json) (h : (Json.float x).Alike w) : c.getDouble w = some x := by
  rw [h.float_eq]
  rfl

/-- An integer is taken whatever the parser holds it as. -/
theorem getInt_alike (hv : v.whole? = some n) (hfloat : v.isFloat = false) (w : Json) (h : v.Alike w) :
    c.getInt w = some (Json.wrapInt n) := by
  obtain ⟨hw, hinteger⟩ := h.whole?_eq hv hfloat
  exact Json.getInt_of_not_float hw hinteger

theorem getUint64_alike (x : UInt64) (w : Json) (h : (Json.unsigned x.toNat).Alike w) : c.getUint64 w = some x := by
  have hlt := x.toNat_lt
  obtain ⟨hw, -⟩ := h.whole?_eq rfl rfl
  rw [Json.getUint64_eq hw (by omega) (by omega), ofInt_toNat64]

/-- What was loaded and is shown is loaded as it was. -/
theorem fromJson_shown (h : fromJson c j = .ok cfg) (hdata : (configJson cfg).Alike data) :
    fromJson c data = .ok cfg := by
  obtain ⟨-, -, -, -, -, -, hport, -, -, hpos, hle, hne⟩ := fromJson_eq_ok_iff.1 h
  have hrange : -2 ^ 31 ≤ cfg.udp.port ∧ cfg.udp.port < 2 ^ 31 := by
    rcases value_eq_ok_iff.1 hport with ⟨-, hdefault⟩ | ⟨v, -, hget⟩
    · omega
    · exact getInt_range hget
  have hwrap := Json.wrapInt_eq hrange.1 hrange.2
  refine fromJson_eq_ok_iff.2 ⟨Json.wrapInt cfg.daemon.tick_ms.toNat, ?_, ?_, ?_, ?_, ?_, ?_, ?_, ?_, hpos, hle, hne⟩
  · exact value_shown hdata (item?_log (by simp [logValues])) (getString_alike cfg.log.level)
  · exact value_shown hdata (item?_log (by simp [logValues])) (getString_alike cfg.log.file)
  · refine value_shown hdata (item?_daemon (v := .unsigned cfg.daemon.tick_ms.toNat) (by simp [daemonValues])) ?_
    exact getInt_alike rfl rfl
  · rw [ofInt_wrapInt, ofInt_toNat32]
  · exact value_shown hdata (item?_udp (by simp [udpValues])) (getBool_alike cfg.udp.enabled)
  · refine value_shown hdata (item?_udp (v := .integer cfg.udp.port) (by simp [udpValues])) ?_
    intro w hw
    rw [getInt_alike rfl rfl w hw, hwrap]
  · exact value_shown hdata (item?_rate (by simp [rateValues])) (getDouble_alike cfg.rate.alpha)
  · exact value_shown hdata (item?_rate (by simp [rateValues])) (getUint64_alike cfg.rate.window_ms)

/-- The strings of a configuration are the default ones or those of its document. -/
theorem quotableConfig_of_fromJson (hutf8 : j.utf8 = true) (h : fromJson c j = .ok cfg) :
    quotableConfig cfg = true := by
  have hstring : ∀ {key : String} {default s : Bytes}, Utf8.valid default = true →
      value Json.getString key default (objectOrEmpty j "log") = .ok s → Utf8.valid s = true := by
    intro key default s hdefault hvalue
    rcases value_eq_ok_iff.1 hvalue with ⟨-, rfl⟩ | ⟨v, hitem, hget⟩
    · exact hdefault
    obtain ⟨values, hvalues, hfield⟩ := Option.bind_eq_some_iff.1 hitem
    have hv := Json.utf8_of_field? (Json.utf8_of_field? hutf8 hvalues) hfield
    cases v with
    | string s' =>
      cases hget
      exact hv
    | null | boolean | unsigned | integer | float | array | object => cases hget
  obtain ⟨-, hlevel, hfile, -⟩ := fromJson_eq_ok_iff.1 h
  rw [quotableConfig, hstring (by decide) hlevel, hstring (by decide) hfile]
  rfl

theorem showConfig_json (p : Platform) (ctx : ControlContext) (cfg : Core.Config) :
    (dispatchControlRequest p { ctx with config := some cfg } Command.showConfig.inJson).response =
      makeJsonSuccess p.dump (configJson cfg) := by
  rw [response_inJson, handleConfig_eq, requirePart, checkArgument_json, report, if_pos rfl]

/-- The daemon shows the configuration it has loaded in a form that it would load again. -/
theorem config_shown_as_loaded {p : Platform} {parse : Parse} (hlib : ReadsBack p.dump parse) (c : Json.Casts)
    (ctx : ControlContext) (j : Json) (hutf8 : j.utf8 = true) (cfg : Core.Config) (h : fromJson c j = .ok cfg) :
    ShownAsLoaded p parse c
      (dispatchControlRequest p { ctx with config := some cfg } Command.showConfig.inJson).response cfg := by
  rw [showConfig_json]
  refine ⟨?_, ?_⟩
  · intro hdump
    refine (makeJsonSuccess_isSome_iff hdump).2 ?_
    exact (utf8_configJson cfg).trans (quotableConfig_of_fromJson hutf8 h)
  · intro resp hresp
    obtain ⟨payload, hpayload, hsuccess⟩ := Option.bind_eq_some_iff.1 hresp
    cases hsuccess
    obtain ⟨answer, hparse, halike⟩ := hlib.dumped _ _ hpayload
    have hfield : (jsonObject [("status", jsonText "ok"), ("data", configJson cfg)]).field? (bytesOf "data") =
        some (configJson cfg) := field?_jsonObject (by simp only [List.map]; decide) (by simp)
    obtain ⟨data, hdata, hshown⟩ := halike.field?_eq_some hfield
    exact ⟨rfl, answer, data, hparse, hdata, fromJson_shown h hshown⟩

/-- The configuration of a document without fields. -/
def defaults : Core.Config := { log := { level := bytesOf "info", file := bytesOf "edgenetswitch.log" } }

/-- The answer that shows it. -/
def shown : Json := jsonObject [("status", jsonText "ok"), ("data", configJson defaults)]

/-- The text of a `double` as the JSON library prints this one. -/
def shownText : Bytes := Json.print (fun _ => bytesOf "0.2") 0 shown

def showing : Platform := { printing with dump := dumpOnly shown shownText }

theorem config_shown_as_loaded_default :
    (dispatchControlRequest showing { config := some defaults } Command.showConfig.inJson).response =
      some { success := true, payload := shownText } ∧
    ShownAsLoaded showing (parseOnly shown shownText) blind
      (dispatchControlRequest showing { config := some defaults } Command.showConfig.inJson).response defaults := by
  have hdump : showing.dump shown = some shownText := if_pos rfl
  have hresponse : makeJsonSuccess showing.dump (configJson defaults) =
      some { success := true, payload := shownText } := Option.bind_eq_some_iff.2 ⟨shownText, hdump, rfl⟩
  have hloaded : fromJson blind (.object []) = .ok defaults := by
    refine fromJson_eq_ok_iff.2 ⟨100, rfl, rfl, rfl, rfl, rfl, rfl, rfl, rfl, ?_, ?_, by decide⟩
    · show (0 : ℚ) < 3602879701896397 / 2 ^ 54
      norm_num
    · show (3602879701896397 / 2 ^ 54 : ℚ) ≤ 1
      norm_num
  refine ⟨(showConfig_json showing {} defaults).trans hresponse, ?_⟩
  exact config_shown_as_loaded (readsBack_only (by decide)) blind {} (.object []) rfl defaults hloaded

end EdgeNetSwitch.Control
