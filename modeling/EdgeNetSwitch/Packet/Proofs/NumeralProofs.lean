import EdgeNetSwitch.Control.ControlProtocol
import EdgeNetSwitch.Packet.PacketFormat
import Mathlib.Tactic.Ring

/-!
# Proofs: what `std::stoull` reads

A text in which it finds digits falls into white space, a sign, digits and the rest in one way only, so that
`stoull` is a function of the sign and of the digits.
-/

namespace EdgeNetSwitch

namespace Bytes

variable {text space sign digits rest space' sign' digits' rest' : Bytes} {n : UInt64}

theorem isspace_of_isdigit {c : UInt8} (h : isdigit c = true) : isspace c = false := by
  simp only [isdigit, Bool.and_eq_true, decide_eq_true_eq, UInt8.le_iff_toNat_le] at h
  have hlow : 0x30 ≤ c.toNat := h.1
  have hspace : c ≠ 0x20 := by
    rintro rfl
    exact absurd hlow (by decide)
  have hcontrol : ¬ c ≤ 0x0D := by
    intro hle
    have hle : c.toNat ≤ 0x0D := UInt8.le_iff_toNat_le.1 hle
    omega
  simp [isspace, hspace, hcontrol]

theorem dropWhile_of_head {p : UInt8 → Bool} {l : Bytes} (h : ∀ c ∈ l.head?, p c = false) :
    l.dropWhile p = l := by
  cases l with
  | nil => rfl
  | cons c l => rw [List.dropWhile_cons_of_neg (by simp [h c rfl])]

theorem takeWhile_of_head {p : UInt8 → Bool} {l : Bytes} (h : ∀ c ∈ l.head?, p c = false) :
    l.takeWhile p = [] := by
  cases l with
  | nil => rfl
  | cons c l => rw [List.takeWhile_cons_of_neg (by simp [h c rfl])]

theorem stoull_of_digits (text : Bytes) : stoull text =
    if leadingDigits text = [] then none
    else if digitsValue (leadingDigits text) ≥ 2 ^ 64 then none
    else if (text.dropWhile isspace).head? = some 0x2D then
      some (0 - UInt64.ofNat (digitsValue (leadingDigits text)))
    else some (UInt64.ofNat (digitsValue (leadingDigits text))) := rfl

namespace Numeral

theorem head_digits (h : Numeral text space sign digits rest) :
    ∃ c more, digits ++ rest = c :: more ∧ isdigit c = true := by
  cases hdigits : digits with
  | nil => exact absurd hdigits h.nonempty
  | cons c more => exact ⟨c, more ++ rest, rfl, h.digits c (by simp [hdigits])⟩

theorem dropWhile_eq (h : Numeral text space sign digits rest) :
    text.dropWhile isspace = sign ++ (digits ++ rest) := by
  rw [h.text_eq, List.dropWhile_append_of_pos h.space]
  apply dropWhile_of_head
  obtain ⟨d, more, heq, hd⟩ := h.head_digits
  rw [heq]
  intro c hc
  rcases h.sign with rfl | rfl | rfl
  · cases hc
    exact isspace_of_isdigit hd
  · cases hc
    decide
  · cases hc
    decide

theorem unsigned_eq (h : Numeral text space sign digits rest) :
    (let s := text.dropWhile isspace
      if s.head? = some 0x2D ∨ s.head? = some 0x2B then s.tail else s) = digits ++ rest := by
  obtain ⟨d, more, heq, hd⟩ := h.head_digits
  simp only [h.dropWhile_eq, heq]
  rcases h.sign with rfl | rfl | rfl
  · have hne : ¬ (d = 0x2D ∨ d = 0x2B) := by
      rintro (rfl | rfl)
      · exact absurd hd (by decide)
      · exact absurd hd (by decide)
    simpa using hne
  · simp
  · simp

theorem leadingDigits_eq (h : Numeral text space sign digits rest) : leadingDigits text = digits := by
  rw [leadingDigits, h.unsigned_eq, List.takeWhile_append_of_pos h.digits, takeWhile_of_head h.stop,
    List.append_nil]

theorem negative_iff (h : Numeral text space sign digits rest) :
    (text.dropWhile isspace).head? = some 0x2D ↔ sign = [0x2D] := by
  obtain ⟨d, more, heq, hd⟩ := h.head_digits
  rw [h.dropWhile_eq, heq]
  rcases h.sign with rfl | rfl | rfl
  · have hne : d ≠ 0x2D := by
      rintro rfl
      exact absurd hd (by decide)
    simpa using hne
  · simp
  · simp

/-- What `std::stoull` makes of the parts. -/
theorem stoull_eq (h : Numeral text space sign digits rest) :
    stoull text = if 2 ^ 64 ≤ digitsValue digits then none
      else if sign = [0x2D] then some (0 - UInt64.ofNat (digitsValue digits))
      else some (UInt64.ofNat (digitsValue digits)) := by
  rw [stoull_of_digits, h.leadingDigits_eq, if_neg h.nonempty]
  simp only [h.negative_iff, ge_iff_le]

/-- There is one way to divide a text. -/
theorem unique (h : Numeral text space sign digits rest)
    (h' : Numeral text space' sign' digits' rest') : sign = sign' ∧ digits = digits' ∧ rest = rest' := by
  have hdigits : digits = digits' := h.leadingDigits_eq.symm.trans h'.leadingDigits_eq
  have hrest := h.unsigned_eq.symm.trans h'.unsigned_eq
  have heq := h.dropWhile_eq.symm.trans h'.dropWhile_eq
  rw [hrest] at heq
  rw [hdigits] at hrest
  exact ⟨List.append_cancel_right heq, hdigits, List.append_cancel_left hrest⟩

end Numeral

/-- If there are digits to read, the text can be divided. -/
theorem exists_numeral (h : leadingDigits text ≠ []) :
    ∃ space sign rest, Numeral text space sign (leadingDigits text) rest := by
  have hspace : ∀ c ∈ text.takeWhile isspace, isspace c = true := fun c hc => List.mem_takeWhile_imp hc
  have hdigits : ∀ c ∈ leadingDigits text, isdigit c = true := fun c hc => List.mem_takeWhile_imp hc
  have hstop : ∀ s : Bytes, ∀ c ∈ (s.dropWhile isdigit).head?, isdigit c = false := by
    intro s c hc
    have hnot := List.head?_dropWhile_not isdigit s
    rw [Option.mem_def.1 hc] at hnot
    simpa using hnot
  have hsplit : ∀ s : Bytes, text.dropWhile isspace = s → text = text.takeWhile isspace ++ s := by
    intro s hs
    rw [← hs, List.takeWhile_append_dropWhile]
  cases hs : text.dropWhile isspace with
  | nil => simp [leadingDigits, hs] at h
  | cons c s =>
    by_cases hsign : c = 0x2D ∨ c = 0x2B
    · have hlead : leadingDigits text = s.takeWhile isdigit := by
        simp [leadingDigits, hs, hsign]
      refine ⟨text.takeWhile isspace, [c], s.dropWhile isdigit, ?_, hspace, ?_, h, hdigits, hstop s⟩
      · rw [hlead, List.takeWhile_append_dropWhile, List.singleton_append]
        exact hsplit _ hs
      · rcases hsign with rfl | rfl
        · exact Or.inr (Or.inl rfl)
        · exact Or.inr (Or.inr rfl)
    · have hlead : leadingDigits text = (c :: s).takeWhile isdigit := by
        simp [leadingDigits, hs, hsign]
      refine ⟨text.takeWhile isspace, [], (c :: s).dropWhile isdigit, ?_, hspace, Or.inl rfl, h, hdigits,
        hstop _⟩
      rw [hlead, List.takeWhile_append_dropWhile, List.nil_append]
      exact hsplit _ hs

theorem stoull_of_no_digits (h : leadingDigits text = []) : stoull text = none := if_pos h

/-- `std::stoull` accepts what has digits with a value in range, whatever comes after them. -/
theorem stoull_isSome_iff : (stoull text).isSome = true ↔
    ∃ space sign digits rest, Numeral text space sign digits rest ∧ digitsValue digits < 2 ^ 64 := by
  constructor
  · intro h
    by_cases hdigits : leadingDigits text = []
    · rw [stoull_of_no_digits hdigits] at h
      cases h
    · obtain ⟨space, sign, rest, hnum⟩ := exists_numeral hdigits
      refine ⟨space, sign, _, rest, hnum, ?_⟩
      by_contra hge
      rw [hnum.stoull_eq, if_pos (Nat.le_of_not_lt hge)] at h
      cases h
  · rintro ⟨space, sign, digits, rest, hnum, hlt⟩
    rw [hnum.stoull_eq, if_neg (Nat.not_le_of_lt hlt)]
    split_ifs <;> rfl

/-! ## Texts without a sign and with white space only after the digits -/

theorem trim_split (text : Bytes) : ∃ before behind, text = before ++ (trim text ++ behind) ∧
    (∀ c ∈ before, isspace c = true) ∧ ∀ c ∈ behind, isspace c = true := by
  refine ⟨text.takeWhile isspace, ((text.dropWhile isspace).reverse.takeWhile isspace).reverse, ?_,
    fun c hc => List.mem_takeWhile_imp hc, fun c hc => List.mem_takeWhile_imp (List.mem_reverse.1 hc)⟩
  rw [trim, List.rdropWhile, ← List.reverse_append, List.takeWhile_append_dropWhile, List.reverse_reverse,
    List.takeWhile_append_dropWhile]

/-- Where the trimmed text is numeric, it is what `std::stoull` reads. -/
theorem Decimal64.numeral (h : Decimal64 (trim text)) :
    ∃ space rest, Numeral text space [] (trim text) rest ∧ ∀ c ∈ rest, isspace c = true := by
  obtain ⟨before, behind, heq, hbefore, hbehind⟩ := trim_split text
  refine ⟨before, behind, ⟨heq, hbefore, Or.inl rfl, h.nonempty, h.digits, fun c hc => ?_⟩, hbehind⟩
  by_contra hdigit
  have hspace := hbehind c (List.mem_of_mem_head? hc)
  rw [isspace_of_isdigit (by simpa using hdigit)] at hspace
  cases hspace

theorem Numeral.trim_eq (h : Numeral text space [] digits rest) (hrest : ∀ c ∈ rest, isspace c = true) :
    trim text = digits := by
  have hlast : digits.reverse.dropWhile isspace = digits.reverse := by
    apply dropWhile_of_head
    intro c hc
    exact isspace_of_isdigit (h.digits c (List.mem_reverse.1 (List.mem_of_mem_head? hc)))
  rw [trim, h.dropWhile_eq, List.nil_append, List.rdropWhile, List.reverse_append,
    List.dropWhile_append_of_pos fun c hc => hrest c (List.mem_reverse.1 hc), hlast, List.reverse_reverse]

/-- The texts on which `std::stoull` and the decimal notation differ. -/
theorem lenient_iff : Lenient text ↔ (stoull text).isSome = true ∧ ¬ Decimal64 (trim text) := by
  rw [stoull_isSome_iff]
  constructor
  · rintro ⟨space, sign, digits, rest, hnum, hlt, hmore⟩
    refine ⟨⟨space, sign, digits, rest, hnum, hlt⟩, fun hdec => ?_⟩
    obtain ⟨space', rest', hnum', hspace⟩ := hdec.numeral
    obtain ⟨rfl, -, rfl⟩ := hnum.unique hnum'
    rcases hmore with hsign | ⟨c, hc, hno⟩
    · exact hsign rfl
    · rw [hspace c hc] at hno
      cases hno
  · rintro ⟨⟨space, sign, digits, rest, hnum, hlt⟩, hdec⟩
    refine ⟨space, sign, digits, rest, hnum, hlt, ?_⟩
    by_contra hno
    simp only [not_or, not_not, not_exists, not_and] at hno
    obtain ⟨rfl, hspace⟩ := hno
    have htrim := hnum.trim_eq fun c hc => by simpa using hspace c hc
    exact hdec ⟨htrim ▸ hnum.nonempty, htrim ▸ hnum.digits, htrim ▸ hlt⟩

theorem Decimal64.stoull_eq (h : Decimal64 (trim text)) :
    stoull text = some (UInt64.ofNat (digitsValue (trim text))) := by
  obtain ⟨space, rest, hnum, -⟩ := h.numeral
  rw [hnum.stoull_eq, if_neg (by have := h.value_lt; omega), if_neg (by simp)]

/-- A decimal notation is read as its value. -/
theorem Decimal64.stoull_self (h : Decimal64 text) :
    stoull text = some (UInt64.ofNat (digitsValue text)) := by
  have hnum : Numeral text [] [] text [] := ⟨by simp, by simp, Or.inl rfl, h.nonempty, h.digits, by simp⟩
  rw [hnum.stoull_eq, if_neg (by have := h.value_lt; omega), if_neg (by simp)]

/-! ## Texts that go on -/

theorem digitsValue_append (a b : Bytes) :
    digitsValue (a ++ b) = digitsValue a * 10 ^ b.length + digitsValue b := by
  have hfold : ∀ (l : Bytes) (init : ℕ), l.foldl (fun n c => 10 * n + (c.toNat - 0x30)) init =
      init * 10 ^ l.length + digitsValue l := by
    intro l
    induction l with
    | nil => exact fun init => by simp [digitsValue]
    | cons c l ih =>
      intro init
      rw [digitsValue, List.foldl_cons, List.foldl_cons, ih, ih, List.length_cons, pow_succ]
      ring
  rw [digitsValue, List.foldl_append, hfold]
  rfl

theorem digitsValue_eq_zero_iff (h : ∀ c ∈ digits, isdigit c = true) :
    digitsValue digits = 0 ↔ ∀ c ∈ digits, c = 0x30 := by
  induction digits with
  | nil => simp [digitsValue]
  | cons c digits ih =>
    obtain ⟨hc, hdigits⟩ := List.forall_mem_cons.1 h
    have hlow : 0x30 ≤ c.toNat := by
      simp only [isdigit, Bool.and_eq_true, decide_eq_true_eq, UInt8.le_iff_toNat_le] at hc
      exact hc.1
    have hone : digitsValue [c] = c.toNat - 0x30 := by simp [digitsValue]
    have hzero : c = 0x30 ↔ c.toNat - 0x30 = 0 := by
      rw [← UInt8.toNat_inj]
      show c.toNat = 0x30 ↔ _
      omega
    rw [← List.singleton_append, digitsValue_append, hone, List.singleton_append, List.forall_mem_cons,
      ← ih hdigits, hzero, Nat.add_eq_zero_iff, Nat.mul_eq_zero]
    simp

/-- More text lengthens the digits at most. -/
theorem Numeral.append (h : Numeral text space sign digits rest) (more : Bytes) :
    ∃ extra rest', Numeral (text ++ more) space sign (digits ++ extra) rest' := by
  have hne : ∀ extra, digits ++ extra ≠ [] := fun extra hnil => h.nonempty (List.append_eq_nil_iff.1 hnil).1
  cases hrest : rest with
  | cons c rest' =>
    refine ⟨[], c :: rest' ++ more, ?_, h.space, h.sign, hne [], ?_, fun d hd => h.stop d ?_⟩
    · rw [h.text_eq, hrest]
      simp
    · rw [List.append_nil]
      exact h.digits
    · rw [hrest]
      exact hd
  | nil =>
    refine ⟨more.takeWhile isdigit, more.dropWhile isdigit, ?_, h.space, h.sign, hne _, ?_, ?_⟩
    · rw [List.append_assoc, List.takeWhile_append_dropWhile, h.text_eq, hrest]
      simp
    · intro c hc
      rcases List.mem_append.1 hc with hc | hc
      · exact h.digits c hc
      · exact List.mem_takeWhile_imp hc
    · intro c hc
      have hnot := List.head?_dropWhile_not isdigit more
      rw [Option.mem_def.1 hc] at hnot
      simpa using hnot

/-- The number stays the same if there are no more digits, or if all are zeros. -/
theorem stoull_append_iff (h : stoull text = some n) (more : Bytes) :
    stoull (text ++ more) = some n ↔ leadingDigits text = leadingDigits (text ++ more) ∨
      ∀ c ∈ leadingDigits (text ++ more), c = 0x30 := by
  obtain ⟨space, sign, digits, rest, hnum, hlt⟩ := stoull_isSome_iff.1 (by rw [h]; rfl)
  obtain ⟨extra, rest', hnum'⟩ := hnum.append more
  have hn := h
  rw [hnum.stoull_eq, if_neg (Nat.not_le_of_lt hlt)] at hn
  rw [hnum'.stoull_eq, hnum.leadingDigits_eq, hnum'.leadingDigits_eq]
  by_cases hextra : extra = []
  · rw [hextra, List.append_nil, if_neg (Nat.not_le_of_lt hlt)]
    exact iff_of_true hn (Or.inl rfl)
  · have hlonger : digits ≠ digits ++ extra := fun heq => hextra (List.self_eq_append_right.1 heq)
    rw [or_iff_right hlonger, ← digitsValue_eq_zero_iff hnum'.digits, ← hn]
    have hvalue := digitsValue_append digits extra
    have hpow : 10 ≤ 10 ^ extra.length :=
      Nat.le_self_pow (fun hlen => hextra (List.length_eq_zero_iff.1 hlen)) 10
    have hge : digitsValue digits * 10 ≤ digitsValue digits * 10 ^ extra.length :=
      Nat.mul_le_mul_left _ hpow
    constructor
    · intro heq
      by_cases hover : 2 ^ 64 ≤ digitsValue (digits ++ extra)
      · rw [if_pos hover] at heq
        split_ifs at heq
      · rw [if_neg hover] at heq
        have hofNat : UInt64.ofNat (digitsValue (digits ++ extra)) = UInt64.ofNat (digitsValue digits) := by
          split_ifs at heq with hsign
          · exact UInt64.sub_right_inj _ |>.1 (Option.some.inj heq)
          · exact Option.some.inj heq
        have hsame : digitsValue (digits ++ extra) = digitsValue digits := by
          rw [← UInt64.toNat_ofNat_of_lt' (Nat.lt_of_not_le hover), hofNat, UInt64.toNat_ofNat_of_lt' hlt]
        omega
    · intro hzero
      have hzero' : digitsValue digits = 0 := by omega
      rw [hzero, hzero', if_neg (by decide)]

/-! ## Numbers as `std::to_string` prints them -/

theorem toNat_of_isDigit {d : Char} (h : d.isDigit = true) : d.toNat.toUInt8.toNat = d.toNat := by
  have hhigh : d.toNat ≤ 0x39 := (Char.isDigit_iff_toNat.1 h).2
  exact UInt8.toNat_ofNat_of_lt' (Nat.lt_of_le_of_lt hhigh (by decide))

theorem isdigit_of_mem_to_string {m : ℕ} {c : UInt8} (h : c ∈ Control.to_string m) :
    isdigit c = true := by
  obtain ⟨d, hd, rfl⟩ := List.mem_map.1 h
  have hdigit := Nat.isDigit_of_mem_toDigits (by decide) (by decide) hd
  simp only [isdigit, Bool.and_eq_true, decide_eq_true_eq, UInt8.le_iff_toNat_le, toNat_of_isDigit hdigit]
  exact Char.isDigit_iff_toNat.1 hdigit

theorem digitsValue_to_string (m : ℕ) : digitsValue (Control.to_string m) = m := by
  have hfold : ∀ (l : List Char) (init : ℕ), (∀ d ∈ l, d.isDigit = true) →
      (l.map fun d => d.toNat.toUInt8).foldl (fun n c => 10 * n + (c.toNat - 0x30)) init =
        Nat.ofDigitChars 10 l init := by
    intro l
    induction l with
    | nil => exact fun init _ => by simp
    | cons d l ih =>
      intro init h
      obtain ⟨hd, hl⟩ := List.forall_mem_cons.1 h
      have hval : d.toNat.toUInt8.toNat = d.toNat := toNat_of_isDigit hd
      rw [List.map_cons, List.foldl_cons, Nat.ofDigitChars_cons, ih _ hl, hval]
      rfl
  rw [digitsValue, Control.to_string, hfold _ _ fun d hd => Nat.isDigit_of_mem_toDigits (by decide)
    (by decide) hd, Nat.ofDigitChars_ten_toDigits]

end Bytes

end EdgeNetSwitch
