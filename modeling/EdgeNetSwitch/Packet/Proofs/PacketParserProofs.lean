import EdgeNetSwitch.Packet.Proofs.NumeralProofs

/-!
# Proofs: what `parsePacket` reads

`parsePacket` reads the fields that a search for `id=` and `payload=` finds (`parsePacket_eq`). The canonical
form of a packet is read back whatever its payload is; which ids are accepted, and when the order of the fields
does not matter, depends on what else the searches and `std::stoull` can find.
-/

namespace EdgeNetSwitch

open Bytes Search

variable {data key part : Bytes}

namespace Bytes

theorem occurs_of_find {pat data : Bytes} {i : ℕ} (h : find pat data = some i) : pat <+: data.drop i := by
  induction data generalizing i with
  | nil =>
    rw [find] at h
    split_ifs at h with hpat
    cases h
    simp [hpat]
  | cons c data ih =>
    rw [find] at h
    split_ifs at h with hpat
    · cases h
      exact List.isPrefixOf_iff_prefix.1 hpat
    · obtain ⟨j, hj, rfl⟩ := Option.map_eq_some_iff.1 h
      exact ih hj

/-- The search of the source is the search of the library. -/
theorem after_eq_find (pat data : Bytes) :
    after pat data = (find pat data).map fun i => data.drop (i + pat.length) := by
  induction data with
  | nil =>
    rw [after, find]
    split_ifs with hpat <;> simp
  | cons c data ih =>
    rw [after, find, ih]
    by_cases hpat : pat <+: c :: data
    · rw [if_pos hpat, if_pos (List.isPrefixOf_iff_prefix.2 hpat), Option.map_some, Nat.zero_add]
    · rw [if_neg hpat, if_neg fun h => hpat (List.isPrefixOf_iff_prefix.1 h), Option.map_map]
      congr 1
      funext i
      show data.drop (i + pat.length) = (c :: data).drop (i + 1 + pat.length)
      rw [Nat.add_right_comm, List.drop_succ_cons]

theorem find_byte (c : UInt8) (data : Bytes) :
    find [c] data = if c ∈ data then some (data.takeWhile fun d => d ≠ c).length else none := by
  induction data with
  | nil => simp [find]
  | cons d data ih =>
    rw [find, ih]
    by_cases hd : c = d
    · subst hd
      simp
    · have hne : d ≠ c := fun h => hd h.symm
      have hpre : ¬ [c].isPrefixOf (d :: data) = true := by simp [hd]
      rw [if_neg hpre]
      by_cases hmem : c ∈ data
      · simp [hmem, hd, hne]
      · simp [hmem, hd]

end Bytes

/-- The text of a field ends at the next `';'`. -/
theorem fieldText_eq {pos : ℕ} (hsep : 0x3B ∉ key) (hkey : key <+: data.drop pos) :
    fieldText data key pos = (data.drop (pos + key.length)).takeWhile fun c => c ≠ 0x3B := by
  obtain ⟨rest, hrest⟩ := hkey
  have hdrop : data.drop (pos + key.length) = rest := by
    rw [← List.drop_drop, ← hrest, List.drop_left]
  have hmem : (0x3B : UInt8) ∈ data.drop pos ↔ 0x3B ∈ rest := by
    rw [← hrest, List.mem_append]
    exact or_iff_right hsep
  have hlen : ((data.drop pos).takeWhile fun c => c ≠ 0x3B).length =
      key.length + (rest.takeWhile fun c => c ≠ 0x3B).length := by
    rw [← hrest, List.takeWhile_append_of_pos, List.length_append]
    exact fun c hc => by simpa using fun h : c = 0x3B => hsep (h ▸ hc)
  have hbyte : bytesOf ";" = [0x3B] := rfl
  rw [fieldText, findFrom, hbyte, find_byte, hdrop]
  by_cases hrest' : (0x3B : UInt8) ∈ rest
  · rw [if_pos (hmem.2 hrest'), Option.map_some, hlen]
    show substr data (pos + key.length) _ = _
    have hsub : key.length + (rest.takeWhile fun c => c ≠ 0x3B).length + pos - (pos + key.length) =
        (rest.takeWhile fun c => c ≠ 0x3B).length := by omega
    rw [hsub, substr, hdrop]
    exact (List.prefix_iff_eq_take.1 (List.takeWhile_prefix _)).symm
  · rw [if_neg (fun h => hrest' (hmem.1 h)), Option.map_none]
    exact (takeWhile_all hrest').symm

theorem field_eq_find (hsep : 0x3B ∉ key) :
    field 0x3B key data = (find key data).map (fieldText data key) := by
  rw [field, after_eq_find, Option.map_map]
  cases h : find key data with
  | none => rfl
  | some pos => exact congrArg some (fieldText_eq hsep (occurs_of_find h)).symm

theorem idKey_ok : bytesOf "id=" ≠ [] ∧ 0x3B ∉ bytesOf "id=" := by decide

theorem payloadKey_ok : bytesOf "payload=" ≠ [] ∧ 0x3B ∉ bytesOf "payload=" := by decide

/-- `parsePacket`, with the search for a field as a whole. -/
theorem parsePacket_eq (data : Bytes) :
    parsePacket data = match (field 0x3B (bytesOf "id=") data).bind stoull with
      | none => {}
      | some id =>
        let payload := (field 0x3B (bytesOf "payload=") data).getD []
        { id, payload, payload_size := payload.length.toUInt32, valid := true } := by
  rw [field_eq_find idKey_ok.2, field_eq_find payloadKey_ok.2, parsePacket]
  split_ifs with hdata
  · subst hdata
    rfl
  · cases find (bytesOf "id=") data with
    | none => rfl
    | some idPos =>
      simp only [Option.map_some, Option.bind_some]
      split_ifs with hempty
      · rw [hempty]
        rfl
      · cases stoull (fieldText data (bytesOf "id=") idPos) with
        | none => rfl
        | some id => cases find (bytesOf "payload=") data <;> rfl

theorem id_of_valid (h : (parsePacket data).valid = true) :
    (field 0x3B (bytesOf "id=") data).bind stoull = some (parsePacket data).id := by
  rw [parsePacket_eq] at h ⊢
  cases hid : (field 0x3B (bytesOf "id=") data).bind stoull with
  | none =>
    rw [hid] at h
    cases h
  | some id => rfl

theorem payload_of_valid (h : (parsePacket data).valid = true) :
    (parsePacket data).payload = (field 0x3B (bytesOf "payload=") data).getD [] := by
  rw [parsePacket_eq] at h ⊢
  cases hid : (field 0x3B (bytesOf "id=") data).bind stoull with
  | none =>
    rw [hid] at h
    cases h
  | some id => rfl

/-- A packet is valid if the text of its id is read as a number. -/
theorem valid_of_id {id : UInt64} (h : (field 0x3B (bytesOf "id=") data).bind stoull = some id) :
    (parsePacket data).valid = true ∧ (parsePacket data).id = id := by
  rw [parsePacket_eq, h]
  exact ⟨rfl, rfl⟩

/-! ## The canonical form -/

/-- A packet in its canonical form is read back, whatever is in the payload and behind it. -/
theorem parsePacket_canonical (n : UInt64) (payload suffix : Bytes) (hpayload : 0x3B ∉ payload)
    (hsuffix : suffix = [] ∨ ∃ more, suffix = 0x3B :: more) :
    let packet := parsePacket
      (bytesOf "id=" ++ Control.to_string n.toNat ++ bytesOf ";payload=" ++ payload ++ suffix)
    packet.valid = true ∧ packet.id = n ∧ packet.payload = payload ∧
      (payload.length < 2 ^ 32 → packet.payload_size.toNat = payload.length) := by
  intro packet
  let part := bytesOf "id=" ++ Control.to_string n.toNat
  let rest := bytesOf "payload=" ++ (payload ++ suffix)
  have hdata : bytesOf "id=" ++ Control.to_string n.toNat ++ bytesOf ";payload=" ++ payload ++ suffix =
      part ++ 0x3B :: rest := by
    have hkey : bytesOf ";payload=" = 0x3B :: bytesOf "payload=" := rfl
    simp only [part, rest, hkey, List.append_assoc, List.cons_append]
  have hdigit : ∀ c ∈ part, c ∈ bytesOf "id=" ∨ isdigit c = true := fun c hc =>
    (List.mem_append.1 hc).imp_right isdigit_of_mem_to_string
  have hpart : 0x3B ∉ part := fun hc => absurd (hdigit _ hc) (by decide)
  have hid : field 0x3B (bytesOf "id=") (part ++ 0x3B :: rest) = some (Control.to_string n.toNat) := by
    rw [field_append_cons idKey_ok.1 idKey_ok.2 hpart, after_self]
    rfl
  have hnone : after (bytesOf "payload=") part = none := by
    cases h : after (bytesOf "payload=") part with
    | none => rfl
    | some tail =>
      obtain ⟨before, heq⟩ := eq_of_after h
      have hmem : 0x70 ∈ part := by
        rw [heq]
        exact List.mem_append_left _ (List.mem_append_right _ (by decide))
      exact absurd (hdigit _ hmem) (by decide)
  have htext : field 0x3B (bytesOf "payload=") (part ++ 0x3B :: rest) = some payload := by
    rw [field_append_cons payloadKey_ok.1 payloadKey_ok.2 hpart, hnone, Option.none_or, field, after_self,
      Option.map_some]
    rcases hsuffix with rfl | ⟨more, rfl⟩
    · rw [List.append_nil, takeWhile_all hpayload]
    · rw [takeWhile_sep hpayload]
  have hdecimal : Decimal64 (Control.to_string n.toNat) := by
    refine ⟨?_, fun c hc => isdigit_of_mem_to_string hc, ?_⟩
    · exact fun h => Nat.toDigits_ne_nil (List.map_eq_nil_iff.1 h)
    · rw [digitsValue_to_string]
      exact n.toNat_lt
  have hvalue : stoull (Control.to_string n.toNat) = some n := by
    rw [hdecimal.stoull_self, digitsValue_to_string, UInt64.ofNat_toNat]
  have hpacket : packet = { id := n, payload, payload_size := payload.length.toUInt32, valid := true } := by
    show parsePacket _ = _
    rw [hdata, parsePacket_eq, hid, htext, Option.bind_some, hvalue]
    rfl
  rw [hpacket]
  exact ⟨rfl, rfl, rfl, fun hlen => UInt32.toNat_ofNat_of_lt' hlen⟩

/-- A payload that holds both markers. -/
theorem parsePacket_canonical_markers :
    let packet := parsePacket (bytesOf "id=" ++ Control.to_string (7 : UInt64).toNat ++
      bytesOf ";payload=" ++ bytesOf "id=9,payload=" ++ bytesOf ";id=8")
    packet.valid = true ∧ packet.id = 7 ∧ packet.payload = bytesOf "id=9,payload=" ∧
      ((bytesOf "id=9,payload=").length < 2 ^ 32 → packet.payload_size.toNat = 13) :=
  parsePacket_canonical 7 (bytesOf "id=9,payload=") (bytesOf ";id=8") (by decide)
    (Or.inr ⟨bytesOf "id=8", rfl⟩)

/-! ## Numeric ids -/

/-- Only numeric ids are accepted unless `std::stoull` accepts more. -/
theorem acceptsNumericIds_iff (rest : Bytes) :
    AcceptsNumericIds (bytesOf "id=" ++ rest) (rest.takeWhile fun c => c ≠ 0x3B) ↔
      ¬ Lenient (rest.takeWhile fun c => c ≠ 0x3B) := by
  let text := rest.takeWhile fun c => c ≠ 0x3B
  have hfield : field 0x3B (bytesOf "id=") (bytesOf "id=" ++ rest) = some text := by
    rw [field, after_self, Option.map_some]
  have hvalid : (parsePacket (bytesOf "id=" ++ rest)).valid = true ↔ (stoull text).isSome = true := by
    constructor
    · intro h
      rw [← Option.bind_some text stoull, ← hfield, id_of_valid h]
      rfl
    · intro h
      obtain ⟨n, hn⟩ := Option.isSome_iff_exists.1 h
      exact (valid_of_id (by rw [hfield, Option.bind_some, hn])).1
  rw [lenient_iff, not_and_not_right]
  constructor
  · intro h hsome
    exact h.valid_iff.1 (hvalid.2 hsome)
  · intro h
    have hdecimal : (parsePacket (bytesOf "id=" ++ rest)).valid = true → Decimal64 (trim text) :=
      fun hval => h (hvalid.1 hval)
    refine ⟨⟨hdecimal, fun hdec => hvalid.2 (by rw [hdec.stoull_eq]; rfl)⟩, fun hval => ?_⟩
    have hdec := hdecimal hval
    have hid := id_of_valid hval
    rw [hfield, Option.bind_some, hdec.stoull_eq] at hid
    rw [← Option.some.inj hid]
    exact UInt64.toNat_ofNat_of_lt' hdec.value_lt

/-- `12abc` is accepted as 12. -/
theorem lenient_suffix : ¬ AcceptsNumericIds (bytesOf "id=12abc") (bytesOf "12abc") := by
  intro h
  have hdec := h.valid_iff.1 (by decide)
  exact absurd (hdec.digits 0x61 (by decide)) (by decide)

/-! ## The order of the fields -/

section

variable {fields order : List PacketField} {digits : Bytes}

theorem WellFormed.text_ok (h : WellFormed fields digits) {f : PacketField} (hf : f ∈ fields) :
    0x3B ∉ f.text := by
  have hkey := (h.key_ok f hf).1
  have hvalue := h.value_ok f hf
  simp [PacketField.text, hkey, hvalue]

/-- The search finds the first field that holds the key. -/
theorem WellFormed.field_eq (h : WellFormed fields digits) (hp : order.Perm fields)
    (hkey : key ≠ [] ∧ 0x3B ∉ key) :
    field 0x3B key (joinFields order) = order.findSome? fun f => after key f.text := by
  rw [joinFields, field_join hkey.1 hkey.2, List.findSome?_map]
  · rfl
  · intro part hpart
    obtain ⟨f, hf, rfl⟩ := List.mem_map.1 hpart
    exact h.text_ok (hp.mem_iff.1 hf)

theorem after_text {f : PacketField} {name : String} (h : f.key = bytesOf name)
    (hkey : key = bytesOf name ++ [0x3D]) : after key f.text = some f.value := by
  have htext : f.text = key ++ f.value := by
    rw [PacketField.text, h, hkey, List.append_assoc, List.singleton_append]
  rw [htext, after_self]

theorem payloadOf_of_not_found (hp : order.Perm fields)
    (h : order.findSome? (fun f => after (bytesOf "payload=") f.text) = none) : payloadOf fields = [] := by
  rw [payloadOf]
  cases hfind : fields.find? fun f => f.key = bytesOf "payload" with
  | none => rfl
  | some f =>
    have hf : f ∈ order := hp.mem_iff.2 (List.mem_of_find?_eq_some hfind)
    have hkey : f.key = bytesOf "payload" := by simpa using List.find?_some hfind
    have hsome : after (bytesOf "payload=") f.text = some f.value := after_text hkey rfl
    exact absurd (List.findSome?_eq_none_iff.1 h f hf) (by simp [hsome])

theorem Unambiguous.reads (h : WellFormed fields digits) (hu : Unambiguous fields digits) :
    ReadsFields fields digits := by
  intro order hp
  have hid : (field 0x3B (bytesOf "id=") (joinFields order)).bind stoull =
      some (UInt64.ofNat (digitsValue digits)) := by
    rw [h.field_eq hp idKey_ok]
    cases hfind : order.findSome? fun f => after (bytesOf "id=") f.text with
    | none =>
      have hsome : after (bytesOf "id=") (PacketField.text ⟨bytesOf "id", digits⟩) = some digits :=
        after_self (bytesOf "id=") digits
      exact absurd (List.findSome?_eq_none_iff.1 hfind _ (hp.mem_iff.2 h.id_mem)) (by simp [hsome])
    | some rest =>
      obtain ⟨f, hf, hrest⟩ := List.exists_of_findSome?_eq_some hfind
      exact (hu f (hp.mem_iff.1 hf)).1 rest hrest
  obtain ⟨hvalid, hvalue⟩ := valid_of_id hid
  refine ⟨hvalid, ?_, ?_⟩
  · rw [hvalue]
    exact UInt64.toNat_ofNat_of_lt' h.decimal.value_lt
  · rw [payload_of_valid hvalid, h.field_eq hp payloadKey_ok]
    cases hfind : order.findSome? fun f => after (bytesOf "payload=") f.text with
    | none => exact (payloadOf_of_not_found hp hfind).symm
    | some rest =>
      obtain ⟨f, hf, hrest⟩ := List.exists_of_findSome?_eq_some hfind
      exact (hu f (hp.mem_iff.1 hf)).2 rest hrest

theorem ReadsFields.unambiguous (h : WellFormed fields digits) (hr : ReadsFields fields digits) :
    Unambiguous fields digits := by
  intro f hf
  -- any field can come first
  have hp : (f :: fields.erase f).Perm fields := (List.perm_cons_erase hf).symm
  obtain ⟨hvalid, hvalue, hpayload⟩ := hr _ hp
  have hfirst : ∀ {key rest : Bytes}, (key ≠ [] ∧ 0x3B ∉ key) → after key f.text = some rest →
      field 0x3B key (joinFields (f :: fields.erase f)) = some rest := by
    intro key rest hkey hrest
    rw [h.field_eq hp hkey, List.findSome?_cons, hrest]
  constructor
  · intro rest hrest
    have hid := id_of_valid hvalid
    rw [hfirst idKey_ok hrest, Option.bind_some] at hid
    rw [hid, ← hvalue, UInt64.ofNat_toNat]
  · intro rest hrest
    rw [← hpayload, payload_of_valid hvalid, hfirst payloadKey_ok hrest]
    rfl

/-- The order of the fields does not matter exactly if no key is found where it does not belong. -/
theorem readsFields_iff (h : WellFormed fields digits) :
    ReadsFields fields digits ↔ Unambiguous fields digits :=
  ⟨ReadsFields.unambiguous h, Unambiguous.reads h⟩

end

/-- An id, a payload and a foreign field. -/
theorem readsFields_iff_foreign :
    ReadsFields [⟨bytesOf "id", bytesOf "42"⟩, ⟨bytesOf "payload", bytesOf "hello"⟩,
        ⟨bytesOf "foo", bytesOf "bar"⟩] (bytesOf "42") ↔
      Unambiguous [⟨bytesOf "id", bytesOf "42"⟩, ⟨bytesOf "payload", bytesOf "hello"⟩,
        ⟨bytesOf "foo", bytesOf "bar"⟩] (bytesOf "42") :=
  readsFields_iff ⟨by decide, by decide, by decide, by decide,
    ⟨by decide, List.all_eq_true.1 (by decide), by decide⟩⟩

/-- The key `xid` holds `id=`. -/
theorem foreign_id : ¬ ∀ fields digits, WellFormed fields digits → ReadsFields fields digits := by
  intro h
  have hwell : WellFormed [⟨bytesOf "xid", bytesOf "5"⟩, ⟨bytesOf "id", bytesOf "7"⟩] (bytesOf "7") :=
    ⟨by decide, by decide, by decide, by decide,
      ⟨by decide, List.all_eq_true.1 (by decide), by decide⟩⟩
  have hid := (h _ _ hwell _ (List.Perm.refl _)).2.1
  exact absurd hid (by decide)

end EdgeNetSwitch
