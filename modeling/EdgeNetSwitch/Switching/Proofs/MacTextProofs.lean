import EdgeNetSwitch.Switching.MacText
import Mathlib.Data.List.Forall2

/-!
# Reading and printing MAC addresses

A digit reads as its value in either case and every value is printed in lower case, so two digits and a byte
determine each other up to case. `fromString` goes through the pairs of a text by their places: it accepts
the texts that are joined from six pairs of digits and no others.
-/

namespace EdgeNetSwitch.MacAddress

variable {text : Bytes} {m : MacAddress} {c x y byte : UInt8} {p : UInt8 × UInt8}

/-! ## Digits -/

theorem hexValue_hexDigit (h : x < 16) : hexValue (hexDigit x) = some x := by
  unfold hexDigit
  split_ifs with hten
  · have hlow : 0x30 ≤ 0x30 + x := by grind
    have hhigh : 0x30 + x ≤ 0x39 := by grind
    rw [hexValue, if_pos ⟨hlow, hhigh⟩]
    exact congrArg some (by grind)
  · have hlow : 0x61 ≤ 0x61 + (x - 10) := by grind
    have hhigh : 0x61 + (x - 10) ≤ 0x66 := by grind
    have hno : ¬ 0x61 + (x - 10) ≤ 0x39 := by grind
    rw [hexValue, if_neg fun hdigit => hno hdigit.2, if_pos ⟨hlow, hhigh⟩]
    exact congrArg some (by grind)

/-- The digit of the value that is read is the one in the text, in lower case. -/
theorem hexDigit_of_hexValue (h : hexValue c = some x) : x < 16 ∧ hexDigit x = lowerCase c := by
  unfold hexValue at h
  unfold hexDigit lowerCase
  split_ifs at h with hdigit hlower hupper
  · obtain rfl := Option.some.inj h
    have hlt : c - 0x30 < 10 := by grind
    have hno : ¬ 0x41 ≤ c := by grind
    rw [if_pos hlt, if_neg fun hletter => hno hletter.1]
    constructor <;> grind
  · obtain rfl := Option.some.inj h
    have hlt : ¬ 10 + (c - 0x61) < 10 := by grind
    have hno : ¬ c ≤ 0x5A := by grind
    rw [if_neg hlt, if_neg fun hletter => hno hletter.2]
    constructor <;> grind
  · obtain rfl := Option.some.inj h
    have hlt : ¬ 10 + (c - 0x41) < 10 := by grind
    have hletter : c ≤ 0x5A := by grind
    rw [if_neg hlt, if_pos ⟨hupper.1, hletter⟩]
    constructor <;> grind

theorem hexValue_isSome_iff : (hexValue c).isSome ↔ IsHexDigit c := by
  unfold hexValue IsHexDigit
  split_ifs <;> simp <;> grind

/-! ## Bytes -/

theorem toNat_high (byte : UInt8) : (byte >>> 4).toNat = byte.toNat / 16 := by
  rw [UInt8.toNat_shiftRight]
  exact Nat.shiftRight_eq_div_pow byte.toNat 4

theorem toNat_low (byte : UInt8) : (byte &&& 0xF).toNat = byte.toNat % 16 := by
  rw [UInt8.toNat_and]
  exact Nat.and_two_pow_sub_one_eq_mod byte.toNat 4

theorem toNat_pack (hx : x < 16) (hy : y < 16) : ((x <<< 4) ||| y).toNat = 16 * x.toNat + y.toNat := by
  have hx' : x.toNat < 16 := UInt8.lt_iff_toNat_lt.1 hx
  have hy' : y.toNat < 2 ^ 4 := UInt8.lt_iff_toNat_lt.1 hy
  have hshift : (x <<< 4).toNat = x.toNat <<< 4 := by
    have h : x.toNat <<< 4 = x.toNat * 2 ^ 4 := Nat.shiftLeft_eq x.toNat 4
    rw [UInt8.toNat_shiftLeft]
    show x.toNat <<< 4 % 256 = x.toNat <<< 4
    omega
  rw [UInt8.toNat_or, hshift, ← Nat.shiftLeft_add_eq_or_of_lt hy', Nat.shiftLeft_eq]
  omega

theorem pairByte_digits (byte : UInt8) : pairByte (digits byte) = some byte := by
  have hhigh : byte >>> 4 < 16 := by
    have h := byte.toNat_lt
    rw [UInt8.lt_iff_toNat_lt, toNat_high]
    show byte.toNat / 16 < 16
    omega
  have hlow : byte &&& 0xF < 16 := by
    rw [UInt8.lt_iff_toNat_lt, toNat_low]
    show byte.toNat % 16 < 16
    omega
  have hpack : (byte >>> 4) <<< 4 ||| (byte &&& 0xF) = byte := by
    rw [← UInt8.toNat_inj, toNat_pack hhigh hlow, toNat_high, toNat_low]
    omega
  unfold pairByte digits
  simp [hexValue_hexDigit hhigh, hexValue_hexDigit hlow, hpack]

/-- A byte that is read from a pair is printed as this pair in lower case. -/
theorem digits_of_pairByte (h : pairByte p = some byte) : digits byte = Prod.map lowerCase lowerCase p := by
  unfold pairByte at h
  simp only [Option.bind_eq_bind, Option.bind_eq_some_iff, Option.pure_def, Option.some.injEq] at h
  obtain ⟨high, hhigh, low, hlow, rfl⟩ := h
  obtain ⟨hhigh', hhighDigit⟩ := hexDigit_of_hexValue hhigh
  obtain ⟨hlow', hlowDigit⟩ := hexDigit_of_hexValue hlow
  have hlt : low.toNat < 16 := UInt8.lt_iff_toNat_lt.1 hlow'
  have hfst : ((high <<< 4) ||| low) >>> 4 = high := by
    rw [← UInt8.toNat_inj, toNat_high, toNat_pack hhigh' hlow']
    omega
  have hsnd : ((high <<< 4) ||| low) &&& 0xF = low := by
    rw [← UInt8.toNat_inj, toNat_low, toNat_pack hhigh' hlow']
    omega
  unfold digits
  rw [hfst, hsnd, hhighDigit, hlowDigit]
  rfl

theorem pairByte_isSome_iff : (pairByte p).isSome ↔ IsHexDigit p.1 ∧ IsHexDigit p.2 := by
  rw [← hexValue_isSome_iff, ← hexValue_isSome_iff]
  unfold pairByte
  cases hexValue p.1 <;> cases hexValue p.2 <;> simp

/-! ## The loop of `fromString` -/

theorem fromStringByte_eq_some_iff {index : ℕ} : fromStringByte text index = some byte ↔
    (index ≠ 5 → text[index * 3 + 2]? = some 0x3A) ∧
      ∃ p, text[index * 3]? = some p.1 ∧ text[index * 3 + 1]? = some p.2 ∧ pairByte p = some byte := by
  unfold fromStringByte
  dsimp only
  split_ifs with h
  · refine ⟨nofun, fun hread => absurd (hread.1 h.1) h.2⟩
  · have hsep : index ≠ 5 → text[index * 3 + 2]? = some 0x3A := fun hne => by
      by_contra hnot
      exact h ⟨hne, hnot⟩
    simp only [Option.bind_eq_bind, Option.bind_eq_some_iff, pairByte]
    constructor
    · rintro ⟨high, ⟨c, hc, hhigh⟩, low, ⟨d, hd, hlow⟩, hbyte⟩
      exact ⟨hsep, (c, d), hc, hd, high, hhigh, low, hlow, hbyte⟩
    · rintro ⟨-, p, hc, hd, high, hhigh, low, hlow, hbyte⟩
      exact ⟨high, ⟨p.1, hc, hhigh⟩, low, ⟨p.2, hd, hlow⟩, hbyte⟩

/-- Every round of the loop gives the byte at its place. -/
theorem fromString_eq_some_iff_rounds : fromString text = some m ↔
    text.length = 17 ∧ ∀ index < 6, fromStringByte text index = m.bytes[index]? := by
  obtain ⟨bytes, hsize⟩ := m
  unfold fromString
  split_ifs with hlength
  · exact ⟨nofun, fun h => absurd h.1 hlength⟩
  · simp only [Option.bind_eq_bind, Option.bind_eq_some_iff, Option.pure_def, Option.some.injEq, mk.injEq]
    constructor
    · rintro ⟨b0, h0, b1, h1, b2, h2, b3, h3, b4, h4, b5, h5, rfl⟩
      refine ⟨not_not.1 hlength, fun index hindex => ?_⟩
      match index, hindex with
      | 0, _ => exact h0
      | 1, _ => exact h1
      | 2, _ => exact h2
      | 3, _ => exact h3
      | 4, _ => exact h4
      | 5, _ => exact h5
    · rintro ⟨-, hrounds⟩
      obtain ⟨b0, b1, b2, b3, b4, b5, rfl⟩ :
          ∃ b0 b1 b2 b3 b4 b5, bytes = [b0, b1, b2, b3, b4, b5] := by
        match bytes, hsize with
        | [b0, b1, b2, b3, b4, b5], _ => exact ⟨b0, b1, b2, b3, b4, b5, rfl⟩
      exact ⟨b0, hrounds 0 (by omega), b1, hrounds 1 (by omega), b2, hrounds 2 (by omega),
        b3, hrounds 3 (by omega), b4, hrounds 4 (by omega), b5, hrounds 5 (by omega), rfl⟩

/-- What `fromString` accepts, and the address it gives. -/
theorem fromString_eq_some_iff : fromString text = some m ↔
    ∃ pairs, text = Pairs.join 0x3A pairs ∧
      List.Forall₂ (fun p byte => pairByte p = some byte) pairs m.bytes := by
  have hsize := m.size_eq
  rw [fromString_eq_some_iff_rounds]
  constructor
  · rintro ⟨hlength, hrounds⟩
    have hpair : ∀ index (h : index < m.bytes.length), (index ≠ 5 → text[index * 3 + 2]? = some 0x3A) ∧
        ∃ p, text[index * 3]? = some p.1 ∧ text[index * 3 + 1]? = some p.2 ∧
          pairByte p = some m.bytes[index] := by
      intro index h
      rw [← fromStringByte_eq_some_iff, hrounds index (by omega), List.getElem?_eq_getElem h]
    choose hsep p hfst hsnd hbyte using hpair
    have hplaces : (List.ofFn fun index : Fin m.bytes.length => p index index.2).length = 6 := by
      simp [hsize]
    refine ⟨List.ofFn fun index : Fin m.bytes.length => p index index.2,
      Pairs.eq_join_iff.2 ⟨by omega, ?_⟩, ?_⟩
    · intro index h
      rw [List.getElem_ofFn]
      exact ⟨hfst index _, hsnd index _, fun hlt => hsep index (by omega) (by omega)⟩
    · rw [List.forall₂_iff_get]
      refine ⟨by simp, fun index _ h => ?_⟩
      rw [List.get_ofFn]
      exact hbyte index h
  · rintro ⟨pairs, htext, hpairs⟩
    obtain ⟨hpairsSize, hget⟩ := List.forall₂_iff_get.1 hpairs
    obtain ⟨hlength, hplaces⟩ := Pairs.eq_join_iff.1 htext
    refine ⟨by omega, fun index hindex => ?_⟩
    obtain ⟨hfst, hsnd, hsep⟩ := hplaces index (by omega)
    rw [List.getElem?_eq_getElem (by omega), fromStringByte_eq_some_iff]
    exact ⟨fun hne => hsep (by omega), _, hfst, hsnd, hget index (by omega) (by omega)⟩

/-! ## The codec -/

theorem toString_eq (m : MacAddress) : m.toString = Pairs.join 0x3A (m.bytes.map digits) := by
  unfold toString Pairs.join
  rw [List.map_map]
  rfl

/-- What is printed is made of digits and colons. -/
theorem not_mem_toString (h : hexValue c = none) (hsep : c ≠ 0x3A) (m : MacAddress) : c ∉ m.toString := by
  have hdigit : ∀ x, x < 16 → c ≠ hexDigit x := by
    rintro x hx rfl
    rw [hexValue_hexDigit hx] at h
    cases h
  intro hmem
  rw [toString_eq] at hmem
  rcases Pairs.mem_join hmem with hc | ⟨p, hp, hc⟩
  · exact hsep hc
  · obtain ⟨byte, -, rfl⟩ := List.mem_map.1 hp
    have hlt := byte.toNat_lt
    rcases hc with hc | hc
    · refine hdigit (byte >>> 4) (UInt8.lt_iff_toNat_lt.2 ?_) hc
      rw [toNat_high]
      exact Nat.div_lt_of_lt_mul hlt
    · refine hdigit (byte &&& 0xF) (UInt8.lt_iff_toNat_lt.2 ?_) hc
      rw [toNat_low]
      exact Nat.mod_lt _ (by decide)

/-- What is printed is read back. -/
theorem fromString_toString (m : MacAddress) : fromString m.toString = some m := by
  rw [toString_eq, fromString_eq_some_iff]
  refine ⟨_, rfl, ?_⟩
  rw [List.forall₂_map_left_iff]
  exact List.forall₂_same.2 fun byte _ => pairByte_digits byte

theorem isSome_fromString_iff (text : Bytes) : (fromString text).isSome ↔ IsMacText text := by
  rw [Option.isSome_iff_exists]
  constructor
  · rintro ⟨m, hm⟩
    obtain ⟨pairs, htext, hpairs⟩ := fromString_eq_some_iff.1 hm
    refine ⟨pairs, hpairs.length_eq.trans m.size_eq, fun p hp => ?_, htext⟩
    obtain ⟨byte, hbyte⟩ : ∃ byte, pairByte p = some byte := by
      obtain ⟨index, hindex, rfl⟩ := List.getElem_of_mem hp
      exact ⟨_, (List.forall₂_iff_get.1 hpairs).2 index hindex (hpairs.length_eq ▸ hindex)⟩
    rw [← pairByte_isSome_iff, hbyte]
    rfl
  · rintro ⟨pairs, hlength, hdigits, htext⟩
    have hread : ∀ p ∈ pairs, pairByte p = some ((pairByte p).getD 0) := by
      intro p hp
      obtain ⟨byte, hbyte⟩ := Option.isSome_iff_exists.1 (pairByte_isSome_iff.2 (hdigits p hp))
      rw [hbyte]
      rfl
    refine ⟨⟨pairs.map fun p => (pairByte p).getD 0, by simp [hlength]⟩,
      fromString_eq_some_iff.2 ⟨pairs, htext, ?_⟩⟩
    rw [List.forall₂_map_right_iff]
    exact List.forall₂_same.2 hread

/-- An accepted text is printed back in lower case. -/
theorem toString_of_fromString (h : fromString text = some m) : m.toString = text.map lowerCase := by
  obtain ⟨pairs, rfl, hpairs⟩ := fromString_eq_some_iff.1 h
  have hdigits : pairs.map (Prod.map lowerCase lowerCase) = m.bytes.map digits := by
    rw [← List.forall₂_eq_eq_eq, List.forall₂_map_left_iff, List.forall₂_map_right_iff]
    exact hpairs.imp fun p byte hbyte => (digits_of_pairByte hbyte).symm
  rw [toString_eq, Pairs.map_join, hdigits]
  rfl

/-- The printer and the parser agree: what is printed is read back, the accepted texts are the texts of six
pairs of digits, and an accepted text names an address up to case. -/
theorem macText_codec :
    (∀ m : MacAddress, fromString m.toString = some m) ∧
    (∀ text : Bytes, (fromString text).isSome ↔ IsMacText text) ∧
    (∀ (text : Bytes) (m : MacAddress), fromString text = some m → m.toString = text.map lowerCase) ∧
    ∀ (text text' : Bytes) (m m' : MacAddress), fromString text = some m → fromString text' = some m' →
      (m = m' ↔ text.map lowerCase = text'.map lowerCase) := by
  refine ⟨fromString_toString, isSome_fromString_iff, fun text m => toString_of_fromString, ?_⟩
  intro text text' m m' hm hm'
  rw [← toString_of_fromString hm, ← toString_of_fromString hm']
  constructor
  · rintro rfl
    rfl
  · intro hprint
    have hread : some m = some m' := by
      rw [← fromString_toString m, hprint, fromString_toString m']
    exact Option.some.inj hread

example : (fromString (bytesOf "02:aB:00:00:00:0C")).map toString = some (bytesOf "02:ab:00:00:00:0c") := by
  decide

end EdgeNetSwitch.MacAddress
