import EdgeNetSwitch.Control.Proofs.TextReportsProofs

/-!
# Proofs: the listing of the MAC table

A row is an address and two numbers under their keys, none of which holds a blank, so that it is split at the
two blanks between them.
-/

namespace EdgeNetSwitch

namespace MacTable

variable {t : MacTable} {e : MacTableEntry} {mac : MacAddress}

theorem mem_snapshot : e ∈ t.snapshot ↔ t.entries[e.mac]? = some e := by
  rw [snapshot, List.mem_map]
  constructor
  · rintro ⟨⟨m, e'⟩, hmem, rfl⟩
    rw [Std.ExtTreeMap.mem_toList_iff_getElem?_eq_some] at hmem
    rw [t.mac_eq m e' hmem]
    exact hmem
  · intro h
    exact ⟨(e.mac, e), Std.ExtTreeMap.mem_toList_iff_getElem?_eq_some.2 h, rfl⟩

theorem snapshot_ascending (t : MacTable) : t.snapshot.Pairwise fun e e' => compare e.mac e'.mac = .lt := by
  rw [snapshot, List.pairwise_map]
  refine (Std.ExtTreeMap.ordered_keys_toList (t := t.entries)).imp_of_mem ?_
  intro x y hx hy hlt
  rw [Std.ExtTreeMap.mem_toList_iff_getElem?_eq_some] at hx hy
  rw [t.mac_eq x.1 x.2 hx, t.mac_eq y.1 y.2 hy]
  exact hlt

theorem portOf_snapshot (t : MacTable) (mac : MacAddress) : Control.portOf t.snapshot mac = t.lookup mac := by
  have hfind : (t.snapshot.find? fun e => e.mac = mac) = t.entries[mac]? := by
    apply Option.ext
    intro e
    constructor
    · intro h
      have heq : e.mac = mac := by simpa using List.find?_some h
      rw [← heq]
      exact mem_snapshot.1 (List.mem_of_find?_eq_some h)
    · intro h
      have hmac := t.mac_eq mac e h
      have hmem : e ∈ t.snapshot := mem_snapshot.2 (by rw [hmac]; exact h)
      obtain ⟨e', he'⟩ := Option.isSome_iff_exists.1
        (List.find?_isSome (p := fun e : MacTableEntry => decide (e.mac = mac)).2 ⟨e, hmem, decide_eq_true hmac⟩)
      have heq : e'.mac = mac := by simpa using List.find?_some he'
      have hentry := mem_snapshot.1 (List.mem_of_find?_eq_some he')
      rw [heq, h] at hentry
      rw [he', Option.some.inj hentry]
  rw [Control.portOf, hfind]
  rfl

end MacTable

namespace Control

open Bytes

variable {p : Platform} {ctx : ControlContext}

/-! ## A row -/

/-- The row of an entry, without its line end. -/
def macRow (e : MacTableEntry) : Bytes :=
  e.mac.toString ++ 0x20 :: (entry "port" (to_string e.port_id.toNat) ++
    0x20 :: entry "last_seen" (to_string e.last_seen_tick.toNat))

theorem blank_not_mem_entry {key : String} (h : (0x20 : UInt8) ∉ bytesOf key) (n : ℕ) :
    (0x20 : UInt8) ∉ entry key (to_string n) := by
  rw [entry_eq, List.mem_append, List.mem_cons]
  rintro (hkey | heq | hvalue)
  · exact h hkey
  · exact absurd heq (by decide)
  · exact not_mem_to_string (by decide) n hvalue

theorem newline_not_mem_macRow (e : MacTableEntry) : (0x0A : UInt8) ∉ macRow e := by
  have hmac := MacAddress.not_mem_toString (c := 0x0A) (by decide) (by decide) e.mac
  have hport := newline_not_mem_entry (show (0x0A : UInt8) ∉ bytesOf "port" by decide) e.port_id.toNat
  have hseen := newline_not_mem_entry (show (0x0A : UInt8) ∉ bytesOf "last_seen" by decide) e.last_seen_tick.toNat
  have hblank : (0x0A : UInt8) ≠ 0x20 := by decide
  simp only [macRow, List.mem_append, List.mem_cons, not_or]
  exact ⟨hmac, hblank, hport, hblank, hseen⟩

theorem splitOn_macRow (e : MacTableEntry) : (macRow e).splitOn 0x20 =
    [e.mac.toString, entry "port" (to_string e.port_id.toNat),
      entry "last_seen" (to_string e.last_seen_tick.toNat)] := by
  have hmac := MacAddress.not_mem_toString (c := 0x20) (by decide) (by decide) e.mac
  have hport := blank_not_mem_entry (show (0x20 : UInt8) ∉ bytesOf "port" by decide) e.port_id.toNat
  have hseen := blank_not_mem_entry (show (0x20 : UInt8) ∉ bytesOf "last_seen" by decide) e.last_seen_tick.toNat
  rw [macRow, List.splitOn_append_cons_self_of_not_mem hmac, List.splitOn_append_cons_self_of_not_mem hport,
    List.splitOn_eq_singleton hseen]

/-- A row is read back. -/
theorem readMacEntry_macRow (e : MacTableEntry) : readMacEntry (macRow e) = some e := by
  have hport : readNumber "port" (entry "port" (to_string e.port_id.toNat)) = some e.port_id.toNat :=
    readNumber_entry (by decide) (by decide) _
  have hseen : readNumber "last_seen" (entry "last_seen" (to_string e.last_seen_tick.toNat)) =
      some e.last_seen_tick.toNat := readNumber_entry (by decide) (by decide) _
  have hport_id : e.port_id.toNat.toUInt32 = e.port_id := UInt32.ofNat_toNat
  have htick : e.last_seen_tick.toNat.toUInt64 = e.last_seen_tick := UInt64.ofNat_toNat
  unfold readMacEntry
  rw [splitOn_macRow]
  simp only [MacAddress.fromString_toString, hport, hseen, Option.bind_eq_bind, Option.bind_some, hport_id, htick]
  rfl

theorem mapM_readMacEntry (entries : List MacTableEntry) : (entries.map macRow).mapM readMacEntry = some entries := by
  induction entries with
  | nil => rfl
  | cons e entries ih =>
    rw [List.map_cons, List.mapM_cons, readMacEntry_macRow, ih]
    rfl

/-! ## The listing -/

/-- The listing of entries. -/
def macTableText (entries : List MacTableEntry) : Bytes :=
  Lines.unlines 0x0A (entry "mac_table_size" (to_string entries.length) :: entries.map macRow)

theorem readMacTable_macTableText (entries : List MacTableEntry) :
    readMacTable (macTableText entries) = some entries := by
  have hlines : Lines.lines 0x0A (macTableText entries) =
      entry "mac_table_size" (to_string entries.length) :: entries.map macRow := by
    apply Lines.lines_unlines
    rw [List.forall_mem_cons, List.forall_mem_map]
    exact ⟨newline_not_mem_entry (by decide) _, fun e _ => newline_not_mem_macRow e⟩
  have hsize : readNumber "mac_table_size" (entry "mac_table_size" (to_string entries.length)) =
      some entries.length := readNumber_entry (by decide) (by decide) _
  unfold readMacTable
  rw [hlines]
  simp only [hsize, mapM_readMacEntry, Option.bind_eq_bind, Option.bind_some, if_pos]
  rfl

theorem handleShow_macTable {engine : SwitchForwardingEngine} (h : ctx.forwarding_engine = some engine) :
    handleShow p ctx (bytesOf "mac-table") =
      some { success := true, payload := macTableText engine.mac_table.snapshot } := by
  have hnewline : newline = [0x0A] := by decide
  have hport : bytesOf " port=" = 0x20 :: bytesOf "port" ++ bytesOf "=" := by decide
  have hseen : bytesOf " last_seen=" = 0x20 :: bytesOf "last_seen" ++ bytesOf "=" := by decide
  rw [handleShow, h, requirePart, if_pos rfl]
  simp only [macTableText, Lines.unlines, List.flatMap_cons, List.flatMap_map, macRow, entry, line, hnewline, hport,
    hseen, ← List.flatMap_def, List.append_assoc, List.cons_append]

/-- The listing of the MAC table is read back as the table. -/
theorem mac_table_listed (p : Platform) (ctx : ControlContext) (engine : SwitchForwardingEngine)
    (h : ctx.forwarding_engine = some engine) :
    ∃ text, (dispatchControlRequest p ctx (request "show:mac-table")).response =
      some { success := true, payload := text } ∧ ListsTable text engine.mac_table := by
  refine ⟨macTableText engine.mac_table.snapshot, ?_, readMacTable_macTableText _,
    engine.mac_table.snapshot_ascending, engine.mac_table.portOf_snapshot⟩
  have hname : Command.showTable.name = (request "show:mac-table").name := by decide
  have hargument : (request "show:mac-table").argument = bytesOf "mac-table" := by decide
  rw [dispatchControlRequest_of_name rfl hname, hargument]
  exact handleShow_macTable h

theorem mac_table_listed_one :
    let engine : SwitchForwardingEngine := ⟨(MacTable.empty 4).learn (.station 1) 7 5, {}⟩
    ∃ text, (dispatchControlRequest printing { forwarding_engine := some engine }
      (request "show:mac-table")).response = some { success := true, payload := text } ∧
        ListsTable text engine.mac_table :=
  mac_table_listed printing _ _ rfl

end Control

end EdgeNetSwitch
