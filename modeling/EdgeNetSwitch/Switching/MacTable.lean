import EdgeNetSwitch.Switching.MacAddress

/-!
# The MAC table

`MacTable` of `src/switching/MacTable.cpp`. The `std::map` is an `ExtTreeMap`, which iterates in
ascending key order. What the private members guarantee (no more entries than the capacity, every
entry stored under its own address) is carried by the structure, so that each operation proves it
once.
-/

namespace EdgeNetSwitch

/-- `MacTableEntry`. -/
structure MacTableEntry where
  mac : MacAddress
  port_id : UInt32 := 0
  last_seen_tick : UInt64 := 0
  deriving DecidableEq

/-- The members of `MacTable`, with what every operation keeps. -/
structure MacTable where
  capacity : ℕ
  entries : Std.ExtTreeMap MacAddress MacTableEntry
  size_le : entries.size ≤ capacity
  mac_eq : ∀ (m : MacAddress) (e : MacTableEntry), entries[m]? = some e → e.mac = m

namespace MacTable

/-- The constructor: an empty table. -/
def empty (capacity : ℕ) : MacTable where
  capacity := capacity
  entries := ∅
  size_le := by simp
  mac_eq := by simp

/-- One round of the scan of `learn`: the candidate replaces the oldest entry found so far when its
tick is strictly smaller. -/
def older (oldest candidate : MacAddress × MacTableEntry) : MacAddress × MacTableEntry :=
  if candidate.2.last_seen_tick < oldest.2.last_seen_tick then candidate else oldest

/-- The scan of `learn`, which starts at `entries_.begin()`. -/
def oldest (entries : Std.ExtTreeMap MacAddress MacTableEntry) :
    Option (MacAddress × MacTableEntry) :=
  match entries.toList with
  | [] => none
  | first :: rest => some ((first :: rest).foldl older first)

/-- The eviction of `learn`: a full table gives up its oldest entry. -/
def evicted (t : MacTable) : Std.ExtTreeMap MacAddress MacTableEntry :=
  if t.entries.size ≥ t.capacity then
    match oldest t.entries with
    | some victim => t.entries.erase victim.1
    | none => t.entries
  else t.entries

/-- The entries after `MacTable::learn`. -/
def learned (t : MacTable) (mac : MacAddress) (port_id : UInt32) (tick : UInt64) :
    Std.ExtTreeMap MacAddress MacTableEntry :=
  if t.capacity = 0 then t.entries
  else
    match t.entries[mac]? with
    | some it => t.entries.insert mac { it with port_id := port_id, last_seen_tick := tick }
    | none => t.evicted.insertIfNew mac { mac, port_id, last_seen_tick := tick }

/-- `MacTable::lookup`. -/
def lookup (t : MacTable) (mac : MacAddress) : Option UInt32 :=
  t.entries[mac]?.map (·.port_id)

/-- `MacTable::snapshot`. -/
def snapshot (t : MacTable) : List MacTableEntry := t.entries.toList.map Prod.snd

/-- `MacTable::ageOut`: the loop erases every entry whose unsigned age exceeds `max_age`. -/
def ageOut (t : MacTable) (current_tick max_age : UInt64) : MacTable where
  capacity := t.capacity
  entries := t.entries.filter fun _ e => !(decide (current_tick - e.last_seen_tick > max_age))
  size_le := Std.ExtTreeMap.size_filter_le_size.trans t.size_le
  mac_eq m e h := by
    rw [Std.ExtTreeMap.getElem?_filter', Option.filter_eq_some_iff] at h
    exact t.mac_eq m e h.1

/-- `MacTable::size`. -/
def size (t : MacTable) : ℕ := t.entries.size

/-! ## The invariant of `learn` -/

theorem oldest_isSome {entries : Std.ExtTreeMap MacAddress MacTableEntry} (h : entries.size ≠ 0) :
    (oldest entries).isSome := by
  unfold oldest
  split
  · rename_i hl
    rw [← Std.ExtTreeMap.length_toList, hl] at h
    exact absurd rfl h
  · rfl

theorem foldl_older_mem (l : List (MacAddress × MacTableEntry)) (x : MacAddress × MacTableEntry) :
    l.foldl older x ∈ x :: l := by
  induction l generalizing x with
  | nil => simp
  | cons y l ih =>
    rw [List.foldl_cons]
    rcases List.mem_cons.1 (ih (older x y)) with h | h
    · rw [h]; unfold older; split_ifs <;> simp
    · exact List.mem_cons_of_mem _ (List.mem_cons_of_mem _ h)

/-- The scan finds an entry of the table. -/
theorem oldest_mem {entries : Std.ExtTreeMap MacAddress MacTableEntry}
    {v : MacAddress × MacTableEntry} (h : oldest entries = some v) : entries[v.1]? = some v.2 := by
  unfold oldest at h
  split at h
  · cases h
  · rename_i first rest hl
    cases h
    rw [← Std.ExtTreeMap.mem_toList_iff_getElem?_eq_some, hl]
    rcases List.mem_cons.1 (foldl_older_mem (first :: rest) first) with h | h
    · rw [h]; exact List.mem_cons_self
    · exact h

/-- Eviction leaves room for one more entry. -/
theorem evicted_size_lt (t : MacTable) (h0 : t.capacity ≠ 0) : t.evicted.size < t.capacity := by
  have hle := t.size_le
  unfold evicted
  split_ifs with hfull
  · have hne : t.entries.size ≠ 0 := by omega
    obtain ⟨v, hv⟩ := Option.isSome_iff_exists.1 (oldest_isSome hne)
    have hmem : v.1 ∈ t.entries := by
      rw [Std.ExtTreeMap.mem_iff_isSome_getElem?, oldest_mem hv]; rfl
    simp only [hv]
    rw [Std.ExtTreeMap.size_erase, if_pos (by simpa using hmem)]
    omega
  · omega

/-- Eviction adds and changes nothing. -/
theorem evicted_getElem? {t : MacTable} {m : MacAddress} {e : MacTableEntry}
    (h : t.evicted[m]? = some e) : t.entries[m]? = some e := by
  unfold evicted at h
  split_ifs at h
  · split at h
    · rw [Std.ExtTreeMap.getElem?_erase] at h
      split_ifs at h
      exact h
    · exact h
  · exact h

/-- `learn` keeps the table within its capacity. -/
theorem learned_size_le (t : MacTable) (mac : MacAddress) (port_id : UInt32) (tick : UInt64) :
    (t.learned mac port_id tick).size ≤ t.capacity := by
  unfold learned
  split_ifs with h0
  · exact t.size_le
  · split
    · rename_i it hit
      have hmem : mac ∈ t.entries := by
        rw [Std.ExtTreeMap.mem_iff_isSome_getElem?, hit]; rfl
      rw [Std.ExtTreeMap.size_insert, if_pos (by simpa using hmem)]
      exact t.size_le
    · have hlt := t.evicted_size_lt h0
      rw [Std.ExtTreeMap.size_insertIfNew]
      split_ifs <;> omega

/-- `learn` stores every entry under its own address. -/
theorem learned_mac_eq (t : MacTable) (mac : MacAddress) (port_id : UInt32) (tick : UInt64)
    (m : MacAddress) (e : MacTableEntry) (h : (t.learned mac port_id tick)[m]? = some e) :
    e.mac = m := by
  unfold learned at h
  split_ifs at h with h0
  · exact t.mac_eq m e h
  · split at h
    · rename_i it hit
      rw [Std.ExtTreeMap.getElem?_insert] at h
      split_ifs at h with hm
      · rw [Std.LawfulEqCmp.eq_of_compare hm] at hit
        cases h
        exact t.mac_eq m it hit
      · exact t.mac_eq m e h
    · rw [Std.ExtTreeMap.getElem?_insertIfNew] at h
      split_ifs at h with hm
      · cases h; exact Std.LawfulEqCmp.eq_of_compare hm.1
      · exact t.mac_eq m e (evicted_getElem? h)

/-- `MacTable::learn`. -/
def learn (t : MacTable) (mac : MacAddress) (port_id : UInt32) (tick : UInt64) : MacTable where
  capacity := t.capacity
  entries := t.learned mac port_id tick
  size_le := t.learned_size_le mac port_id tick
  mac_eq := t.learned_mac_eq mac port_id tick

end MacTable

end EdgeNetSwitch
