import EdgeNetSwitch.Core.ConfigLoader

/-!
# Numbers of the configuration

What a configuration holds is what the conversions make of the document (`fromJson_eq_ok_iff`). They keep a
whole number that fits and change every other, and only `alpha` and a window of zero are checked after them: so
the numbers are taken as written or refused exactly for the documents that have integers in range, or
something that no conversion takes.
-/

namespace EdgeNetSwitch.Core

open ConfigLoader

variable {c : Json.Casts} {j v : Json} {cfg : Config} {part key : String} {n : ℤ}

/-! ## Reading a field -/

theorem bind_eq_ok_iff {ε α β : Type} {x : Except ε α} {f : α → Except ε β} {b : β} :
    x >>= f = .ok b ↔ ∃ a, x = .ok a ∧ f a = .ok b := by
  cases x with
  | error e => exact iff_of_false nofun fun h => by obtain ⟨a, ha, -⟩ := h; cases ha
  | ok a =>
    constructor
    · intro h
      exact ⟨a, rfl, h⟩
    · rintro ⟨a', ha, h⟩
      cases ha
      exact h

theorem field?_objectOrEmpty (j : Json) (part key : String) :
    (objectOrEmpty j part).field? (bytesOf key) = item? j part key := by
  unfold objectOrEmpty item?
  cases j.field? (bytesOf part) with
  | none => rfl
  | some v => cases v <;> rfl

theorem value_eq_ok_iff {α : Type} {get : Json → Option α} {default x : α} :
    value get key default (objectOrEmpty j part) = .ok x ↔
      (item? j part key = none ∧ x = default) ∨ ∃ v, item? j part key = some v ∧ get v = some x := by
  unfold value
  rw [field?_objectOrEmpty]
  cases item? j part key with
  | none =>
    constructor
    · intro h
      cases h
      exact .inl ⟨rfl, rfl⟩
    · rintro (⟨-, rfl⟩ | ⟨v, hv, -⟩)
      · rfl
      · cases hv
  | some v =>
    cases hget : get v with
    | none => simp [hget]
    | some y => simp [hget, eq_comm]

theorem get_of_value {α : Type} {get : Json → Option α} {default x : α}
    (h : value get key default (objectOrEmpty j part) = .ok x) (hv : item? j part key = some v) :
    get v = some x := by
  rcases value_eq_ok_iff.1 h with ⟨hnone, -⟩ | ⟨v', hv', hget⟩
  · rw [hv] at hnone
    cases hnone
  · rw [hv] at hv'
    cases hv'
    exact hget

/-- The checks accept a configuration with a positive window and an `alpha` in its range. -/
theorem check_eq_ok_iff {cfg' : Config}
    (halpha : value c.getDouble "alpha" (3602879701896397 / 2 ^ 54) (objectOrEmpty j "rate") =
      .ok cfg.rate.alpha) :
    check (objectOrEmpty j "rate") cfg = .ok cfg' ↔
      cfg = cfg' ∧ 0 < cfg.rate.alpha ∧ cfg.rate.alpha ≤ 1 ∧ cfg.rate.window_ms ≠ 0 := by
  have hnumber : ¬ ((objectOrEmpty j "rate").field? (bytesOf "alpha")).any (fun alpha => !alpha.isNumber) =
      true := by
    rw [field?_objectOrEmpty]
    rcases value_eq_ok_iff.1 halpha with ⟨hnone, -⟩ | ⟨v, hv, hget⟩
    · rw [hnone]
      exact nofun
    · rw [hv, Option.any_some, Json.isNumber_of_getDouble hget]
      exact nofun
  unfold check
  split_ifs with hrange hwindow
  · refine iff_of_false nofun fun h => ?_
    rcases hrange with hle | hlt
    · exact absurd h.2.1 (not_lt.2 hle)
    · exact absurd h.2.2.1 (not_le.2 hlt)
  · exact iff_of_false nofun fun h => h.2.2.2 hwindow
  · rw [Except.ok.injEq]
    obtain ⟨hpos, hle⟩ := not_or.1 hrange
    exact ⟨fun h => ⟨h, not_le.1 hpos, not_lt.1 hle, hwindow⟩, fun h => h.1⟩

/-- What is in a configuration. -/
theorem fromJson_eq_ok_iff : fromJson c j = .ok cfg ↔ ∃ tick_ms : ℤ,
    value Json.getString "level" (bytesOf "info") (objectOrEmpty j "log") = .ok cfg.log.level ∧
    value Json.getString "file" (bytesOf "edgenetswitch.log") (objectOrEmpty j "log") = .ok cfg.log.file ∧
    value c.getInt "tick_ms" 100 (objectOrEmpty j "daemon") = .ok tick_ms ∧
    cfg.daemon.tick_ms = UInt32.ofInt tick_ms ∧
    value Json.getBool "enabled" false (objectOrEmpty j "udp") = .ok cfg.udp.enabled ∧
    value c.getInt "port" 9000 (objectOrEmpty j "udp") = .ok cfg.udp.port ∧
    value c.getDouble "alpha" (3602879701896397 / 2 ^ 54) (objectOrEmpty j "rate") = .ok cfg.rate.alpha ∧
    value c.getUint64 "window_ms" 1000 (objectOrEmpty j "rate") = .ok cfg.rate.window_ms ∧
    0 < cfg.rate.alpha ∧ cfg.rate.alpha ≤ 1 ∧ cfg.rate.window_ms ≠ 0 := by
  unfold fromJson
  simp only [bind_eq_ok_iff]
  constructor
  · rintro ⟨level, hlevel, file, hfile, tick_ms, htick, enabled, henabled, port, hport, alpha, halpha,
      window_ms, hwindow, hcheck⟩
    obtain ⟨rfl, hpos, hle, hne⟩ := (check_eq_ok_iff halpha).1 hcheck
    exact ⟨tick_ms, hlevel, hfile, htick, rfl, henabled, hport, halpha, hwindow, hpos, hle, hne⟩
  · rintro ⟨tick_ms, hlevel, hfile, htick, heq, henabled, hport, halpha, hwindow, hpos, hle, hne⟩
    refine ⟨_, hlevel, _, hfile, _, htick, _, henabled, _, hport, _, halpha, _, hwindow, ?_⟩
    rw [← heq]
    exact (check_eq_ok_iff halpha).2 ⟨rfl, hpos, hle, hne⟩

/-! ## Documents that are refused -/

/-- A field that its conversion does not take. -/
theorem value_ne_ok {α : Type} {get : Json → Option α} {default x : α} {p : Json → Bool}
    (h : Has j part key p) (hp : ∀ v, p v = true → get v = none) :
    value get key default (objectOrEmpty j part) ≠ .ok x := by
  intro hvalue
  obtain ⟨v, hv, hpv⟩ := h
  have hget := get_of_value hvalue hv
  rw [hp v hpv] at hget
  cases hget

theorem fromJson_of_refused (h : Refused j) : fromJson c j ≠ .ok cfg := by
  intro hload
  obtain ⟨tick_ms, hlevel, hfile, htick, -, henabled, hport, halpha, hwindow, hpos, hle, hne⟩ :=
    fromJson_eq_ok_iff.1 hload
  rcases h with h | h | h | h | h | ⟨v, hv, hunit⟩ | ⟨v, hv, hvanishes⟩
  · exact value_ne_ok h (fun v => Json.getString_eq_none_iff.2) hlevel
  · exact value_ne_ok h (fun v => Json.getString_eq_none_iff.2) hfile
  · exact value_ne_ok h (fun v => Json.getInt_eq_none_iff.2) htick
  · exact value_ne_ok h (fun v => Json.getBool_eq_none_iff.2) henabled
  · exact value_ne_ok h (fun v => Json.getInt_eq_none_iff.2) hport
  · rcases Json.getDouble_of_not_inUnit (by simpa using hunit) (get_of_value halpha hv) with hle' | hlt
    · exact absurd hpos (not_lt.2 hle')
    · exact absurd hle (not_le.2 hlt)
  · exact hne (Json.getUint64_of_vanishes hvanishes (get_of_value hwindow hv))

/-! ## Documents that are taken -/

theorem toNat_ofInt32 (h : 0 ≤ n) (hlt : n < 2 ^ 32) : ((UInt32.ofInt n).toNat : ℤ) = n := by
  show (((n % 2 ^ 32).toNat % 2 ^ 32 : ℕ) : ℤ) = n
  omega

theorem toNat_ofInt64 (h : 0 ≤ n) (hlt : n < 2 ^ 64) : ((UInt64.ofInt n).toNat : ℤ) = n := by
  show (((n % 2 ^ 64).toNat % 2 ^ 64 : ℕ) : ℤ) = n
  omega

theorem toNat_boundPort (h : 0 ≤ n) (hle : n ≤ 65535) : ((boundPort n).toNat : ℤ) = n := by
  show (((n % 2 ^ 16).toNat % 2 ^ 16 : ℕ) : ℤ) = n
  omega

example : boundPort 70000 = 4464 := by decide

/-- An `int` that has wrapped gives the same 32 bits. -/
theorem ofInt_wrapInt (n : ℤ) : UInt32.ofInt (Json.wrapInt n) = UInt32.ofInt n := by
  have hmod : Json.wrapInt n % 2 ^ 32 = n % 2 ^ 32 := Int.bmod_emod
  unfold UInt32.ofInt
  rw [hmod]

/-- A field in its range is taken as it is written. -/
theorem asWritten_of_value {α : Type} {get : Json → Option α} {default x : α} {P : Json → Prop}
    (toInt : α → ℤ) (hvalue : value get key default (objectOrEmpty j part) = .ok x) (h : Only j part key P)
    (hget : ∀ v y, P v → get v = some y → v.whole? = some (toInt y)) :
    AsWritten (toInt default) (item? j part key) (toInt x) := by
  rcases value_eq_ok_iff.1 hvalue with ⟨hnone, rfl⟩ | ⟨v, hv, hx⟩
  · rw [hnone]
    rfl
  · rw [hv]
    exact hget v x (h v hv) hx

/-- Through an `int` to 32 unsigned bits. -/
theorem whole?_of_tick {y : ℤ} (h : v.Within 0 (if v.isFloat then 2 ^ 31 - 1 else 2 ^ 32 - 1))
    (hy : c.getInt v = some y) : v.whole? = some ((UInt32.ofInt y).toNat : ℤ) := by
  obtain ⟨n, hn, hlow, hhigh⟩ := h
  cases hfloat : v.isFloat with
  | true =>
    rw [hfloat, if_pos rfl] at hhigh
    rw [Json.getInt_eq hn (by omega) (by omega)] at hy
    cases hy
    rw [hn, toNat_ofInt32 hlow (by omega)]
  | false =>
    rw [hfloat, if_neg nofun] at hhigh
    rw [Json.getInt_of_not_float hn hfloat] at hy
    cases hy
    rw [hn, ofInt_wrapInt, toNat_ofInt32 hlow (by omega)]

theorem whole?_of_port {y : ℤ} (h : v.Within 0 65535) (hy : c.getInt v = some y) : v.whole? = some y := by
  obtain ⟨n, hn, hlow, hhigh⟩ := h
  rw [Json.getInt_eq hn (by omega) (by omega)] at hy
  cases hy
  exact hn

theorem whole?_of_window {y : UInt64} (h : v.Within 1 (2 ^ 64 - 1)) (hy : c.getUint64 v = some y) :
    v.whole? = some (y.toNat : ℤ) := by
  obtain ⟨n, hn, hlow, hhigh⟩ := h
  rw [Json.getUint64_eq hn (by omega) (by omega)] at hy
  cases hy
  rw [hn, toNat_ofInt64 (by omega) (by omega)]

theorem range_of_asWritten {low high default : ℤ} (h : AsWritten default (item? j part key) n)
    (honly : Only j part key (Json.Within low high)) (hdefault : low ≤ default ∧ default ≤ high) :
    low ≤ n ∧ n ≤ high := by
  cases hitem : item? j part key with
  | none =>
    rw [hitem] at h
    cases h
    exact hdefault
  | some v =>
    rw [hitem] at h
    obtain ⟨m, hm, hlow, hhigh⟩ := honly v hitem
    have heq : v.whole? = some n := h
    rw [hm] at heq
    cases heq
    exact ⟨hlow, hhigh⟩

/-- With its integers in range a document is taken as it is written. -/
theorem takenAsWritten_of_inRange (h : InRange j) (hload : fromJson c j = .ok cfg) :
    TakenAsWritten j cfg := by
  obtain ⟨tick_ms, -, -, htick, heq, -, hport, -, hwindow, hpos, hle, hne⟩ := fromJson_eq_ok_iff.1 hload
  have hportWritten : AsWritten 9000 (item? j "udp" "port") cfg.udp.port :=
    asWritten_of_value (fun y => y) hport h.port fun v y => whole?_of_port
  obtain ⟨hlow, hhigh⟩ := range_of_asWritten hportWritten h.port (by omega)
  refine ⟨?_, hportWritten, ?_, ⟨hlow, hhigh⟩, toNat_boundPort hlow hhigh, UInt64.pos_iff_ne_zero.2 hne,
    hpos, hle⟩
  · rw [heq]
    exact asWritten_of_value (fun y => ((UInt32.ofInt y).toNat : ℤ)) htick h.tick_ms fun v y => whole?_of_tick
  · exact asWritten_of_value (fun y => (y.toNat : ℤ)) hwindow h.window_ms fun v y => whole?_of_window

/-! ## Documents that are changed -/

/-- Conversions that give 0, or 1 for 64 bits, where the language lets them give anything. -/
def blind : Json.Casts where
  toDouble n := n
  toDouble_eq _ _ := rfl
  toDouble_mono h := Int.cast_le.2 h
  toInt _ := 0
  toUint64 _ := 1

theorem exists_value {α : Type} {get : Json → Option α} {p : Json → Bool} {Q : α → Prop} (default : α)
    (h : ¬ Has j part key p) (hdefault : Q default) (hget : ∀ v, p v = false → ∃ y, get v = some y ∧ Q y) :
    ∃ x, value get key default (objectOrEmpty j part) = .ok x ∧ Q x := by
  cases hitem : item? j part key with
  | none => exact ⟨default, value_eq_ok_iff.2 (.inl ⟨hitem, rfl⟩), hdefault⟩
  | some v =>
    have hpv : p v = false := by
      by_contra htrue
      exact h ⟨v, hitem, by simpa using htrue⟩
    obtain ⟨y, hy, hQ⟩ := hget v hpv
    exact ⟨y, value_eq_ok_iff.2 (.inr ⟨v, hitem, hy⟩), hQ⟩

theorem exists_value_of_taken {α : Type} {get : Json → Option α} {p : Json → Bool} (default : α)
    (h : ¬ Has j part key p) (hget : ∀ v, get v = none → p v = true) :
    ∃ x, value get key default (objectOrEmpty j part) = .ok x := by
  have htaken : ∀ v, p v = false → ∃ y, get v = some y ∧ True := by
    intro v hv
    have hne : get v ≠ none := by
      intro hnone
      rw [hget v hnone] at hv
      cases hv
    obtain ⟨y, hy⟩ := Option.ne_none_iff_exists'.1 hne
    exact ⟨y, hy, trivial⟩
  obtain ⟨x, hx, -⟩ := exists_value default h trivial htaken
  exact ⟨x, hx⟩

/-- A document with nothing to refuse is loaded. -/
theorem exists_fromJson (hc : ∀ x, c.toUint64 x ≠ 0) (h : ¬ Refused j) : ∃ cfg, fromJson c j = .ok cfg := by
  unfold Refused at h
  push Not at h
  obtain ⟨hlevel, hfile, htick, henabled, hport, halpha, hwindow⟩ := h
  have hunit : ∀ v : Json, (!v.inUnit) = false → ∃ x, c.getDouble v = some x ∧ 0 < x ∧ x ≤ 1 := by
    intro v hv
    exact Json.getDouble_of_inUnit (by simpa using hv)
  obtain ⟨level, hlevel'⟩ :=
    exists_value_of_taken (bytesOf "info") hlevel fun v => Json.getString_eq_none_iff.1
  obtain ⟨file, hfile'⟩ :=
    exists_value_of_taken (bytesOf "edgenetswitch.log") hfile fun v => Json.getString_eq_none_iff.1
  have hint : ∀ v, c.getInt v = none → (!v.isNumber && !v.isBoolean) = true :=
    fun v => Json.getInt_eq_none_iff.1
  obtain ⟨tick_ms, htick'⟩ := exists_value_of_taken 100 htick hint
  obtain ⟨enabled, henabled'⟩ := exists_value_of_taken false henabled fun v => Json.getBool_eq_none_iff.1
  obtain ⟨port, hport'⟩ := exists_value_of_taken 9000 hport hint
  obtain ⟨alpha, halpha', hpos, hle⟩ :=
    exists_value (Q := fun x : ℚ => 0 < x ∧ x ≤ 1) (3602879701896397 / 2 ^ 54) halpha
      (by constructor <;> norm_num) hunit
  obtain ⟨window_ms, hwindow', hne⟩ :=
    exists_value (Q := fun w : UInt64 => w ≠ 0) 1000 hwindow (by decide) fun v hv =>
      Json.getUint64_of_not_vanishes hv hc
  exact ⟨⟨⟨level, file⟩, ⟨UInt32.ofInt tick_ms⟩, ⟨enabled, port⟩, ⟨alpha, window_ms⟩⟩, fromJson_eq_ok_iff.2
    ⟨tick_ms, hlevel', hfile', htick', rfl, henabled', hport', halpha', hwindow', hpos, hle, hne⟩⟩

/-- A `tick_ms` that the blind conversions take as it is written is in range: a `double` beyond an `int` would
have become 0. -/
theorem within_of_tick {y : ℤ} (hy : blind.getInt v = some y)
    (h : v.whole? = some ((UInt32.ofInt y).toNat : ℤ)) :
    v.Within 0 (if v.isFloat then 2 ^ 31 - 1 else 2 ^ 32 - 1) := by
  have hlt : (UInt32.ofInt y).toNat < 2 ^ 32 := UInt32.toNat_lt _
  refine ⟨_, h, by omega, ?_⟩
  split_ifs with hfloat
  · by_contra hlarge
    obtain ⟨x, rfl⟩ : ∃ x, v = .float x := by
      cases v <;> first | exact ⟨_, rfl⟩ | cases hfloat
    have hx := Json.whole?_float.1 h
    rw [Json.getInt_float, hx, Json.truncate_intCast, if_neg (by omega)] at hy
    have hzero : y = 0 := (Option.some.inj hy).symm
    rw [hzero] at hlarge
    exact hlarge (by decide)
  · omega

theorem only_of_asWritten {default x : ℤ} {P : Json → Prop} (h : AsWritten default (item? j part key) x)
    (hP : ∀ v, v.whole? = some x → P v) : Only j part key P := by
  intro v hv
  rw [hv] at h
  exact hP v h

/-- What the blind conversions take as it is written is in range. -/
theorem inRange_of_takenAsWritten (hload : fromJson blind j = .ok cfg) (h : TakenAsWritten j cfg) :
    InRange j := by
  obtain ⟨tick_ms, -, -, htick, heq, -⟩ := fromJson_eq_ok_iff.1 hload
  refine ⟨?_, only_of_asWritten h.port fun v hv => ⟨_, hv, h.port_range⟩,
    only_of_asWritten h.window_ms fun v hv => ⟨_, hv, ?_, ?_⟩⟩
  · intro v hv
    have hwritten := h.tick_ms
    rw [hv, heq] at hwritten
    exact within_of_tick (get_of_value htick hv) hwritten
  · have hpos : 0 < cfg.rate.window_ms.toNat := UInt64.lt_iff_toNat_lt.1 h.window_pos
    omega
  · have hlt : cfg.rate.window_ms.toNat < 2 ^ 64 := UInt64.toNat_lt _
    omega

/-! ## The file -/

theorem loadFromFile_of_readDocument {files : Files} {path : Bytes} (h : readDocument files path = .ok j) :
    loadFromFile c files path = fromJson c j := by
  unfold loadFromFile
  rw [h]
  rfl

/-- The root directory, where every file can be opened and holds the document. -/
def holding (j : Json) : Files where
  current_path := .ok []
  contents _ := some []
  parse _ := .ok j

theorem readDocument_holding (j : Json) (path : Bytes) : readDocument (holding j) path = .ok j := by
  unfold readDocument candidates
  split_ifs <;> rfl

/-- Loading takes the numbers of a document as they are written, whatever the language lets the conversions
make of a `double` that is too large, exactly if the document is refused or has its integers in range. -/
theorem takesAsWritten_iff (j : Json) :
    (∀ (c : Json.Casts) (files : Files) (path : Bytes) (cfg : Config), readDocument files path = .ok j →
      loadFromFile c files path = .ok cfg → TakenAsWritten j cfg) ↔ Refused j ∨ InRange j := by
  constructor
  · intro h
    by_cases hrefused : Refused j
    · exact .inl hrefused
    · right
      have hblind : ∀ x, blind.toUint64 x ≠ 0 := fun x => by
        show (1 : UInt64) ≠ 0
        decide
      obtain ⟨cfg, hcfg⟩ := exists_fromJson hblind hrefused
      have hread := readDocument_holding j []
      exact inRange_of_takenAsWritten hcfg
        (h blind (holding j) [] cfg hread ((loadFromFile_of_readDocument hread).trans hcfg))
  · rintro h c files path cfg hread hload
    rw [loadFromFile_of_readDocument hread] at hload
    rcases h with hrefused | hrange
    · exact absurd hload (fromJson_of_refused hrefused)
    · exact takenAsWritten_of_inRange hrange hload

/-- A window of -5 milliseconds. -/
def negativeWindow : Json := .object [(bytesOf "rate", .object [(bytesOf "window_ms", .integer (-5))])]

/-- It becomes one of `2 ^ 64 - 5`, which is more than zero. -/
theorem window_wraps : ¬ ∀ (c : Json.Casts) (files : Files) (path : Bytes) (j : Json) (cfg : Config),
    readDocument files path = .ok j → loadFromFile c files path = .ok cfg → TakenAsWritten j cfg := by
  intro hall
  have hload : loadFromFile blind (holding negativeWindow) [] = .ok
      { log := { level := bytesOf "info", file := bytesOf "edgenetswitch.log" }
        rate := { window_ms := 18446744073709551611 } } := by
    rw [loadFromFile_of_readDocument (readDocument_holding negativeWindow [])]
    refine fromJson_eq_ok_iff.2 ⟨100, rfl, rfl, rfl, rfl, rfl, rfl, rfl, rfl, ?_, ?_, by decide⟩
    · show (0 : ℚ) < 3602879701896397 / 2 ^ 54
      norm_num
    · show (3602879701896397 / 2 ^ 54 : ℚ) ≤ 1
      norm_num
  have htaken := hall blind (holding negativeWindow) [] negativeWindow _
    (readDocument_holding negativeWindow []) hload
  have hwindow : (some (-5) : Option ℤ) = some 18446744073709551611 := htaken.window_ms
  exact absurd hwindow (by decide)

end EdgeNetSwitch.Core
