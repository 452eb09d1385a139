import EdgeNetSwitch.Switching.LruTable

/-!
# Proofs: the MAC table keeps the stations heard most recently

Each call keeps the table in step with the recency list of the stations learned (`Realises`). The
only delicate case is a `learn` that evicts: a full table holds the whole prefix of the recency list,
so that its smallest tick is the last station of the prefix.
-/

namespace EdgeNetSwitch

open Recency TableOp

namespace MacTable

variable {c n : ℕ} {l : List Seen} {t : MacTable}

/-! ## The scan for the oldest entry -/

theorem foldl_older_le (l : List (MacAddress × MacTableEntry)) (x y : MacAddress × MacTableEntry)
    (hy : y ∈ x :: l) : (l.foldl older x).2.last_seen_tick ≤ y.2.last_seen_tick := by
  induction l generalizing x y with
  | nil => rw [List.mem_singleton.1 hy]; exact UInt64.le_refl _
  | cons z l ih =>
    rw [List.foldl_cons]
    have hx : (older x z).2.last_seen_tick ≤ x.2.last_seen_tick := by
      unfold older
      split_ifs with h
      · exact UInt64.le_of_lt h
      · exact UInt64.le_refl _
    have hz : (older x z).2.last_seen_tick ≤ z.2.last_seen_tick := by
      unfold older
      split_ifs with h
      · exact UInt64.le_refl _
      · exact UInt64.not_lt.1 h
    have hhead := ih (older x z) (older x z) List.mem_cons_self
    rcases List.mem_cons.1 hy with rfl | hy
    · exact UInt64.le_trans hhead hx
    · rcases List.mem_cons.1 hy with rfl | hy
      · exact UInt64.le_trans hhead hz
      · exact ih (older x z) y (List.mem_cons_of_mem _ hy)

/-- The entry the scan finds has the smallest tick of the table. -/
theorem oldest_le {entries : Std.ExtTreeMap MacAddress MacTableEntry}
    {v : MacAddress × MacTableEntry} (hv : oldest entries = some v) {m : MacAddress}
    {e : MacTableEntry} (he : entries[m]? = some e) : v.2.last_seen_tick ≤ e.last_seen_tick := by
  rw [← Std.ExtTreeMap.mem_toList_iff_getElem?_eq_some] at he
  unfold oldest at hv
  split at hv
  · cases hv
  · rename_i first rest hl
    cases hv
    rw [hl] at he
    exact foldl_older_le (first :: rest) first (m, e) (List.mem_cons_of_mem _ he)

/-! ## Lookups after `learn` -/

theorem learned_self (h0 : t.capacity ≠ 0) (m : MacAddress) (p : UInt32) (tick : UInt64) :
    (t.learned m p tick)[m]? = some ⟨m, p, tick⟩ := by
  unfold learned
  rw [if_neg h0]
  split
  · rename_i it hit
    rw [Std.ExtTreeMap.getElem?_insert_self, ← t.mac_eq m it hit]
  · rename_i hnone
    have hev : m ∉ t.evicted := by
      rw [Std.ExtTreeMap.mem_iff_isSome_getElem?]
      intro hsome
      obtain ⟨e, he⟩ := Option.isSome_iff_exists.1 hsome
      rw [evicted_getElem? he] at hnone
      cases hnone
    rw [Std.ExtTreeMap.getElem?_insertIfNew, if_pos ⟨Std.ReflCmp.compare_self, hev⟩]

/-- A hit changes no other entry. -/
theorem learned_of_hit {m x : MacAddress} (hx : x ≠ m) (p : UInt32) (tick : UInt64)
    (hm : (t.entries[m]?).isSome) : (t.learned m p tick)[x]? = t.entries[x]? := by
  obtain ⟨it, hit⟩ := Option.isSome_iff_exists.1 hm
  unfold learned
  split_ifs
  · rfl
  · rw [hit]
    have hne : ¬ compare m x = .eq := fun h => hx (Std.LawfulEqCmp.eq_of_compare h).symm
    simp only [Std.ExtTreeMap.getElem?_insert, hne, if_false]

/-- A miss changes the other entries only by eviction. -/
theorem learned_of_miss {m x : MacAddress} (hx : x ≠ m) (p : UInt32) (tick : UInt64)
    (h0 : t.capacity ≠ 0) (hm : t.entries[m]? = none) :
    (t.learned m p tick)[x]? = t.evicted[x]? := by
  unfold learned
  rw [if_neg h0, hm]
  have hne : ¬ compare m x = .eq := fun h => hx (Std.LawfulEqCmp.eq_of_compare h).symm
  simp only [Std.ExtTreeMap.getElem?_insertIfNew, hne, false_and, if_false]

theorem evicted_of_lt (h : t.entries.size < t.capacity) : t.evicted = t.entries := by
  unfold evicted
  rw [if_neg (by omega)]

/-! ## The recency list -/

namespace Realises

/-- The table holds the fresh stations of the prefix and nothing else, so it has as many entries. -/
theorem size_eq (h : Realises c l t) :
    t.entries.size = ((l.take c).filter fun s => s.fresh).length := by
  have hnd : (((l.take c).filter fun s => s.fresh).map Seen.mac).Nodup :=
    h.nodup.sublist (List.Sublist.map _ (List.filter_sublist.trans (List.take_sublist c l)))
  have hperm : t.entries.keys.Perm (((l.take c).filter fun s => s.fresh).map Seen.mac) := by
    rw [List.perm_ext_iff_of_nodup Std.ExtTreeMap.nodup_keys hnd]
    intro m
    rw [Std.ExtTreeMap.mem_keys, Std.ExtTreeMap.mem_iff_isSome_getElem?, Option.isSome_iff_exists]
    constructor
    · rintro ⟨e, he⟩
      obtain ⟨s, hs, hf, hm, -⟩ := (h.entries m e).1 he
      exact List.mem_map.2 ⟨s, List.mem_filter.2 ⟨hs, hf⟩, hm⟩
    · intro hm
      obtain ⟨s, hs, rfl⟩ := List.mem_map.1 hm
      obtain ⟨hs, hf⟩ := List.mem_filter.1 hs
      exact ⟨s.entry, (h.entries _ _).2 ⟨s, hs, hf, rfl, rfl⟩⟩
  rw [← Std.ExtTreeMap.length_keys, hperm.length_eq, List.length_map]

/-- If the last station of the prefix is fresh, the table is full. -/
theorem full_of_last_fresh (h : Realises (n + 1) l t) {s : Seen} (hs : l[n]? = some s)
    (hf : s.fresh = true) : t.entries.size = n + 1 := by
  obtain ⟨hn, hget⟩ := List.getElem?_eq_some_iff.1 hs
  rw [h.size_eq, List.filter_eq_self.2, List.length_take, min_eq_left hn]
  intro x hx
  obtain ⟨i, hi, rfl⟩ := List.getElem_of_mem hx
  rw [List.length_take] at hi
  rw [List.getElem_take]
  by_cases hin : i = n
  · subst hin; rw [hget]; exact hf
  · have hpw := List.pairwise_iff_getElem.1 h.fresh i n (by omega) hn (by omega)
    rw [hget] at hpw
    exact hpw hf

/-- A full table holds the whole prefix. -/
theorem all_fresh_of_full (h : Realises (n + 1) l t) (hfull : t.entries.size = n + 1) :
    n < l.length ∧ ∀ s ∈ l.take (n + 1), s.fresh = true := by
  rw [h.size_eq] at hfull
  have hle := List.length_filter_le (fun s : Seen => s.fresh) (l.take (n + 1))
  have hlen : (l.take (n + 1)).length ≤ n + 1 := List.length_take_le _ _
  have hll : (l.take (n + 1)).length = n + 1 := by omega
  rw [List.length_take] at hll
  refine ⟨by omega, ?_⟩
  have hall := List.length_filter_eq_length_iff.1
    (show ((l.take (n + 1)).filter fun s => s.fresh).length = (l.take (n + 1)).length by omega)
  exact hall

/-- The station a full table gives up is the last one of the prefix. -/
theorem evicted_of_full (h : Realises (n + 1) l t) (hfull : t.entries.size = n + 1)
    (x : MacAddress) (e : MacTableEntry) :
    t.evicted[x]? = some e ↔ ∃ s ∈ l.take n, s.fresh = true ∧ s.mac = x ∧ s.entry = e := by
  obtain ⟨hn, hall⟩ := h.all_fresh_of_full hfull
  have htake : l.take (n + 1) = l.take n ++ [l[n]] := by
    rw [List.take_succ_eq_append_getElem hn]
  have hlast : l[n] ∈ l.take (n + 1) := by
    rw [htake]; exact List.mem_append_right _ (List.mem_singleton.2 rfl)
  have hlastf := hall _ hlast
  obtain ⟨v, hv⟩ := Option.isSome_iff_exists.1 (oldest_isSome (show t.entries.size ≠ 0 by omega))
  obtain ⟨s, hs, -, hsm, hse⟩ := (h.entries _ _).1 (oldest_mem hv)
  have hlt : ∀ y ∈ l.take n, l[n].tick < y.tick := by
    intro y hy
    have hpw := h.sorted.sublist (List.take_sublist (n + 1) l)
    rw [htake, List.pairwise_append] at hpw
    exact hpw.2.2 y hy l[n] (by simp)
  -- the victim has the smallest tick, and only the last station of the prefix has it
  have hvic : v.1 = l[n].mac := by
    rw [htake] at hs
    rcases List.mem_append.1 hs with hs | hs
    · have hle := oldest_le hv ((h.entries _ _).2 ⟨l[n], hlast, hlastf, rfl, rfl⟩)
      rw [← hse] at hle
      exact absurd (hlt s hs) (UInt64.not_lt.2 hle)
    · rw [List.mem_singleton] at hs
      rw [← hsm, hs]
  have hev : t.evicted = t.entries.erase l[n].mac := by
    unfold evicted
    rw [if_pos (by rw [hfull, h.capacity]), hv]
    simp only [hvic]
  have hnd : l[n].mac ∉ (l.take n).map Seen.mac := by
    have hnd := h.nodup.sublist (List.Sublist.map Seen.mac (List.take_sublist (n + 1) l))
    rw [htake, List.map_append, List.nodup_append] at hnd
    exact fun hmem => hnd.2.2 _ hmem _ (by simp) rfl
  rw [hev, Std.ExtTreeMap.getElem?_erase]
  split_ifs with hx
  · have hx' := Std.LawfulEqCmp.eq_of_compare hx
    constructor
    · intro h; cases h
    · rintro ⟨y, hy, -, rfl, -⟩
      exact absurd (List.mem_map.2 ⟨y, hy, hx'.symm⟩) hnd
  · rw [h.entries, htake]
    constructor
    · rintro ⟨y, hy, hyf, rfl, rfl⟩
      rcases List.mem_append.1 hy with hy | hy
      · exact ⟨y, hy, hyf, rfl, rfl⟩
      · rw [List.mem_singleton] at hy
        subst hy
        exact absurd Std.ReflCmp.compare_self hx
    · rintro ⟨y, hy, hr⟩
      exact ⟨y, List.mem_append_left _ hy, hr⟩

/-- The entries for the other stations after a `learn`, read off the new prefix. -/
theorem learned_other (h : Realises (n + 1) l t) (m : MacAddress) (p : UInt32) (tick : UInt64)
    {x : MacAddress} (hx : x ≠ m) (e : MacTableEntry) :
    (t.learned m p tick)[x]? = some e ↔
      ∃ s ∈ (dropKey Seen.mac m l).take n, s.fresh = true ∧ s.mac = x ∧ s.entry = e := by
  have h0 : t.capacity ≠ 0 := by rw [h.capacity]; omega
  have hle := t.size_le
  rw [h.capacity] at hle
  by_cases hpre : m ∈ (l.take (n + 1)).map Seen.mac
  · -- the station was in the prefix: the others stay, whether or not it had aged out
    have hsame : (t.learned m p tick)[x]? = t.entries[x]? := by
      by_cases hm : (t.entries[m]?).isSome
      · exact learned_of_hit hx p tick hm
      · have hnone : t.entries[m]? = none := by simpa using hm
        rw [learned_of_miss hx p tick h0 hnone, evicted_of_lt]
        rw [h.capacity]
        by_contra hge
        obtain ⟨s, hs, rfl⟩ := List.mem_map.1 hpre
        have hf := (h.all_fresh_of_full (by omega)).2 s hs
        rw [(h.entries s.mac s.entry).2 ⟨s, hs, hf, rfl, rfl⟩] at hnone
        cases hnone
    rw [hsame, h.entries, take_dropKey_of_mem h.nodup hpre]
    constructor
    · rintro ⟨s, hs, hf, rfl, rfl⟩
      exact ⟨s, mem_dropKey.2 ⟨hs, hx⟩, hf, rfl, rfl⟩
    · rintro ⟨s, hs, hr⟩
      exact ⟨s, (mem_dropKey.1 hs).1, hr⟩
  · -- the station is new to the prefix, which loses its last station
    have hnone : t.entries[m]? = none := by
      rw [Option.eq_none_iff_forall_ne_some]
      intro e' he'
      obtain ⟨s, hs, -, rfl, -⟩ := (h.entries m e').1 he'
      exact hpre (List.mem_map.2 ⟨s, hs, rfl⟩)
    have hnot : m ∉ (l.take n).map Seen.mac := fun hmem =>
      hpre (List.map_subset _ (List.take_subset_take_left l (Nat.le_succ n)) hmem)
    rw [learned_of_miss hx p tick h0 hnone, take_dropKey_of_not_mem hnot]
    by_cases hfull : t.entries.size = n + 1
    · exact h.evicted_of_full hfull x e
    · rw [evicted_of_lt (by rw [h.capacity]; omega), h.entries, List.take_add_one]
      constructor
      · rintro ⟨s, hs, hf, rfl, rfl⟩
        rcases List.mem_append.1 hs with hs | hs
        · exact ⟨s, hs, hf, rfl, rfl⟩
        · rw [Option.mem_toList] at hs
          exact absurd (h.full_of_last_fresh hs hf) hfull
      · rintro ⟨s, hs, hr⟩
        exact ⟨s, List.mem_append_left _ hs, hr⟩

/-- `learn` promotes the station. -/
theorem learn (h : Realises c l t) (m : MacAddress) (p : UInt32) {tick : UInt64}
    (ht : ∀ s ∈ l, s.tick < tick) :
    Realises c (promote Seen.mac ⟨m, p, tick, true⟩ l) (t.learn m p tick) where
  capacity := h.capacity
  nodup := nodup_promote h.nodup
  sorted := by
    rw [promote_eq, List.pairwise_cons]
    exact ⟨fun s hs => ht s (mem_dropKey.1 hs).1, h.sorted.sublist List.filter_sublist⟩
  fresh := by
    rw [promote_eq, List.pairwise_cons]
    exact ⟨fun _ _ _ => rfl, h.fresh.sublist List.filter_sublist⟩
  entries x e := by
    cases c with
    | zero =>
      have hl : t.learned m p tick = t.entries := by
        unfold learned; rw [if_pos h.capacity]
      show (t.learned m p tick)[x]? = some e ↔ _
      rw [hl, h.entries]
      simp
    | succ n =>
      show (t.learned m p tick)[x]? = some e ↔ _
      rw [promote_eq, List.take_succ_cons]
      by_cases hx : x = m
      · subst hx
        rw [learned_self (by rw [h.capacity]; omega)]
        constructor
        · intro he
          cases he
          exact ⟨_, List.mem_cons_self, rfl, rfl, rfl⟩
        · rintro ⟨s, hs, -, hsx, rfl⟩
          rcases List.mem_cons.1 hs with rfl | hs
          · rfl
          · exact absurd hsx (mem_dropKey.1 (List.mem_of_mem_take hs)).2
      · rw [h.learned_other m p tick hx e]
        constructor
        · rintro ⟨s, hs, hr⟩
          exact ⟨s, List.mem_cons_of_mem _ hs, hr⟩
        · rintro ⟨s, hs, hf, rfl, rfl⟩
          rcases List.mem_cons.1 hs with rfl | hs
          · exact absurd rfl hx
          · exact ⟨s, hs, hf, rfl, rfl⟩

/-- A sweep drops exactly the stations it makes stale. -/
theorem ageOut (h : Realises c l t) {now : UInt64} (max_age : UInt64)
    (ht : ∀ s ∈ l, s.tick ≤ now) :
    Realises c (l.map (Seen.sweep now max_age)) (t.ageOut now max_age) where
  capacity := h.capacity
  nodup := by
    have hmac : Seen.mac ∘ Seen.sweep now max_age = Seen.mac := rfl
    rw [List.map_map, hmac]
    exact h.nodup
  sorted := List.pairwise_map.2 h.sorted
  fresh := by
    rw [List.pairwise_map]
    refine (h.sorted.and h.fresh).imp ?_
    rintro s s' ⟨hlt, hf⟩ hs'
    simp only [Seen.sweep, Bool.and_eq_true, decide_eq_true_eq] at hs' ⊢
    have := UInt64.lt_iff_toNat_lt.1 hlt
    exact ⟨hf hs'.1, by omega⟩
  entries m e := by
    have hage : ∀ s ∈ l.take c, (now - s.tick > max_age) ↔
        ¬ now.toNat - s.tick.toNat ≤ max_age.toNat := by
      intro s hs
      have hle := ht s (List.mem_of_mem_take hs)
      rw [gt_iff_lt, UInt64.lt_iff_toNat_lt, UInt64.toNat_sub_of_le _ _ hle, not_le]
    show (t.entries.filter _)[m]? = some e ↔ _
    rw [Std.ExtTreeMap.getElem?_filter', Option.filter_eq_some_iff, h.entries, ← List.map_take]
    constructor
    · rintro ⟨⟨s, hs, hf, rfl, rfl⟩, hkeep⟩
      have hkeep' : ¬ now - s.tick > max_age := by simpa [Seen.entry] using hkeep
      refine ⟨s.sweep now max_age, List.mem_map.2 ⟨s, hs, rfl⟩, ?_, rfl, rfl⟩
      simp only [Seen.sweep, hf, Bool.true_and, decide_eq_true_eq]
      exact not_not.1 fun hn => hkeep' ((hage s hs).2 hn)
    · rintro ⟨s', hs', hf, rfl, rfl⟩
      obtain ⟨s, hs, rfl⟩ := List.mem_map.1 hs'
      simp only [Seen.sweep, Bool.and_eq_true, decide_eq_true_eq] at hf
      refine ⟨⟨s, hs, hf.1, rfl, rfl⟩, ?_⟩
      have hkeep : ¬ now - s.tick > max_age := fun hgt => (hage s hs).1 hgt hf.2
      simpa [Seen.entry, Seen.sweep] using hkeep

theorem empty (c : ℕ) : Realises c [] (MacTable.empty c) where
  capacity := rfl
  nodup := List.nodup_nil
  sorted := List.Pairwise.nil
  fresh := List.Pairwise.nil
  entries := by simp [MacTable.empty]

end Realises

/-! ## Runs -/

theorem run_append (c : ℕ) (ops : List TableOp) (op : TableOp) :
    run c (ops ++ [op]) = (run c ops).step op := by
  simp [run]

theorem seen_append (ops : List TableOp) (op : TableOp) :
    Seen.seen (ops ++ [op]) = Seen.step (Seen.seen ops) op := by
  simp [Seen.seen]

theorem macs_append (ops ops' : List TableOp) : macs (ops ++ ops') = macs ops ++ macs ops' :=
  List.filterMap_append

theorem ticks_append (ops ops' : List TableOp) : ticks (ops ++ ops') = ticks ops ++ ticks ops' :=
  List.filterMap_append

/-- Every station of the recency list was learned at its tick. -/
theorem tick_mem_of_mem_seen (ops : List TableOp) : ∀ s ∈ Seen.seen ops, s.tick ∈ ticks ops := by
  induction ops using List.reverseRecOn with
  | nil => intro s hs; simp [Seen.seen] at hs
  | append_singleton ops op ih =>
    intro s hs
    rw [seen_append] at hs
    rw [ticks_append, List.mem_append]
    cases op with
    | learn m p tick =>
      rcases List.mem_cons.1 hs with rfl | hs
      · exact Or.inr (by simp [ticks])
      · exact Or.inl (ih s (mem_dropKey.1 hs).1)
    | ageOut now max_age =>
      obtain ⟨s', hs', rfl⟩ := List.mem_map.1 hs
      exact Or.inl (ih s' hs')

/-- After every well-timed history the table realises the recency list. -/
theorem realises_run (c : ℕ) {ops : List TableOp} (h : WellTimed ops) :
    Realises c (Seen.seen ops) (run c ops) := by
  induction h with
  | nil => exact Realises.empty c
  | @learn ops m p tick _ ht ih =>
    rw [run_append, seen_append]
    exact ih.learn m p fun s hs => ht _ (tick_mem_of_mem_seen ops s hs)
  | @ageOut ops now max_age _ ht ih =>
    rw [run_append, seen_append]
    exact ih.ageOut max_age fun s hs => ht _ (tick_mem_of_mem_seen ops s hs)

/-! ## Reading the recency list off the history -/

theorem seen_macs (ops : List TableOp) : (Seen.seen ops).map Seen.mac = recent (macs ops) := by
  induction ops using List.reverseRecOn with
  | nil => rfl
  | append_singleton ops op ih =>
    rw [seen_append, macs_append]
    cases op with
    | learn m p tick =>
      show (promote Seen.mac _ _).map Seen.mac = recent (macs ops ++ [m])
      rw [map_promote, recent_append_singleton, ih]
    | ageOut now max_age =>
      have hmac : Seen.mac ∘ Seen.sweep now max_age = Seen.mac := rfl
      show ((Seen.seen ops).map (Seen.sweep now max_age)).map Seen.mac = recent (macs ops ++ [])
      rw [List.map_map, hmac, List.append_nil, ih]

/-- How the last `learn` of a station moves when a call is added. -/
theorem lastLearn_append {ops : List TableOp} {op : TableOp} {m : MacAddress} {p : UInt32}
    {tick : UInt64} {post : List TableOp} : LastLearn (ops ++ [op]) m p tick post ↔
      (post = [] ∧ op = .learn m p tick) ∨
        ∃ post', post = post' ++ [op] ∧ m ∉ macs [op] ∧ LastLearn ops m p tick post' := by
  constructor
  · rintro ⟨pre, heq, hm⟩
    rcases List.eq_nil_or_concat post with rfl | ⟨post', op', rfl⟩
    · obtain ⟨-, hop⟩ := List.append_inj' heq rfl
      exact Or.inl ⟨rfl, (List.cons.inj hop).1⟩
    · rw [List.concat_eq_append, ← List.cons_append, ← List.append_assoc] at heq
      obtain ⟨hops, hop⟩ := List.append_inj' heq rfl
      cases hop
      rw [List.concat_eq_append, macs_append, List.mem_append, not_or] at hm
      exact Or.inr ⟨post', by rw [List.concat_eq_append], hm.2, pre, hops, hm.1⟩
  · rintro (⟨rfl, rfl⟩ | ⟨post', rfl, hm, pre, rfl, hm'⟩)
    · exact ⟨ops, rfl, by simp [macs]⟩
    · refine ⟨pre, by simp, ?_⟩
      rw [macs_append, List.mem_append, not_or]
      exact ⟨hm', hm⟩

/-- There is only one last `learn`. -/
theorem lastLearn_unique {ops : List TableOp} {m : MacAddress} {p p' : UInt32} {tick tick' : UInt64}
    {post post' : List TableOp} (h : LastLearn ops m p tick post)
    (h' : LastLearn ops m p' tick' post') : p = p' ∧ tick = tick' ∧ post = post' := by
  induction ops using List.reverseRecOn generalizing post post' with
  | nil => obtain ⟨pre, heq, -⟩ := h; simp at heq
  | append_singleton ops op ih =>
    rcases lastLearn_append.1 h with ⟨rfl, rfl⟩ | ⟨q, rfl, hm, hq⟩
    · rcases lastLearn_append.1 h' with ⟨rfl, hop⟩ | ⟨q', rfl, hm, -⟩
      · cases hop; exact ⟨rfl, rfl, rfl⟩
      · exact absurd (by simp [macs]) hm
    · rcases lastLearn_append.1 h' with ⟨rfl, rfl⟩ | ⟨q', rfl, -, hq'⟩
      · exact absurd (by simp [macs]) hm
      · obtain ⟨h1, h2, h3⟩ := ih hq hq'
        exact ⟨h1, h2, by rw [h3]⟩

theorem notAged_append {tick : UInt64} {post : List TableOp} {op : TableOp} :
    NotAged tick (post ++ [op]) ↔ NotAged tick post ∧ NotAged tick [op] := by
  unfold NotAged
  constructor
  · intro h
    exact ⟨fun now a hm => h now a (List.mem_append_left _ hm),
      fun now a hm => h now a (List.mem_append_right _ hm)⟩
  · rintro ⟨h1, h2⟩ now a hm
    rcases List.mem_append.1 hm with hm | hm
    · exact h1 now a hm
    · exact h2 now a hm

/-- A station of the recency list records its last `learn`, and is fresh when no sweep since then
aged it out. -/
theorem lastLearn_of_mem_seen (ops : List TableOp) : ∀ s ∈ Seen.seen ops,
    ∃ post, LastLearn ops s.mac s.port_id s.tick post ∧ (s.fresh = true ↔ NotAged s.tick post) := by
  induction ops using List.reverseRecOn with
  | nil => intro s hs; simp [Seen.seen] at hs
  | append_singleton ops op ih =>
    intro s hs
    rw [seen_append] at hs
    cases op with
    | learn m p tick =>
      rcases List.mem_cons.1 hs with rfl | hs
      · exact ⟨[], lastLearn_append.2 (Or.inl ⟨rfl, rfl⟩), by simp [NotAged]⟩
      · obtain ⟨hs, hne⟩ := mem_dropKey.1 hs
        obtain ⟨post, hl, hf⟩ := ih s hs
        refine ⟨_, lastLearn_append.2 (Or.inr ⟨post, rfl, by simpa [macs] using hne, hl⟩), ?_⟩
        rw [notAged_append, hf]
        simp [NotAged]
    | ageOut now max_age =>
      obtain ⟨s', hs', rfl⟩ := List.mem_map.1 hs
      obtain ⟨post, hl, hf⟩ := ih s' hs'
      refine ⟨_, lastLearn_append.2 (Or.inr ⟨post, rfl, by simp [macs], hl⟩), ?_⟩
      rw [notAged_append]
      simp only [Seen.sweep, Bool.and_eq_true, decide_eq_true_eq, hf]
      simp [NotAged]

/-- The table holds exactly the current entries. -/
theorem run_getElem? (c : ℕ) {ops : List TableOp} (h : WellTimed ops) (m : MacAddress)
    (e : MacTableEntry) : (run c ops).entries[m]? = some e ↔ Current c ops m e := by
  rw [(realises_run c h).entries]
  unfold Current
  rw [← seen_macs, ← List.map_take]
  constructor
  · rintro ⟨s, hs, hf, rfl, rfl⟩
    obtain ⟨post, hl, hpost⟩ := lastLearn_of_mem_seen ops s (List.mem_of_mem_take hs)
    exact ⟨List.mem_map.2 ⟨s, hs, rfl⟩, rfl, post, hl, hpost.1 hf⟩
  · rintro ⟨hm, he, post, hl, hpost⟩
    obtain ⟨s, hs, rfl⟩ := List.mem_map.1 hm
    obtain ⟨post', hl', hf⟩ := lastLearn_of_mem_seen ops s (List.mem_of_mem_take hs)
    obtain ⟨h1, h2, rfl⟩ := lastLearn_unique hl hl'
    refine ⟨s, hs, hf.2 (h2 ▸ hpost), rfl, ?_⟩
    cases e
    simp only at he h1 h2
    subst he h1 h2
    rfl

/-- A station is current as soon as it is learned. -/
theorem current_of_learn {c : ℕ} (hc : 0 < c) (ops : List TableOp) (m : MacAddress) (p : UInt32)
    (tick : UInt64) : Current c (ops ++ [.learn m p tick]) m ⟨m, p, tick⟩ := by
  refine ⟨?_, rfl, [], lastLearn_append.2 (Or.inl ⟨rfl, rfl⟩), by simp [NotAged]⟩
  show m ∈ (recent (macs (ops ++ [.learn m p tick]))).take c
  rw [macs_append]
  show m ∈ (recent (macs ops ++ [m])).take c
  obtain ⟨n, rfl⟩ := Nat.exists_eq_succ_of_ne_zero (Nat.pos_iff_ne_zero.1 hc)
  rw [recent_append_singleton, promote_eq, List.take_succ_cons]
  exact List.mem_cons_self

/-- `MacTable` is a least-recently-used table with ageing. -/
theorem run_lru (c : ℕ) (ops : List TableOp) (h : WellTimed ops) :
    (∀ m e, (run c ops).entries[m]? = some e ↔ Current c ops m e) ∧ (run c ops).size ≤ c ∧
      (0 < c → ∀ pre m p tick, ops = pre ++ [.learn m p tick] →
        (run c ops).lookup m = some p) := by
  refine ⟨run_getElem? c h, ?_, ?_⟩
  · have hle := (run c ops).size_le
    rw [(realises_run c h).capacity] at hle
    exact hle
  · rintro hc pre m p tick rfl
    have he := (run_getElem? c h m ⟨m, p, tick⟩).2 (current_of_learn hc pre m p tick)
    simp [lookup, he]

/-- Three stations on a table for two, a relearn and a sweep: the station learned last is found. -/
theorem run_lru_relearn :
    (run 2 [.learn (.station 1) 1 10, .learn (.station 2) 2 20, .learn (.station 3) 3 30,
      .ageOut 40 25, .learn (.station 1) 4 50]).lookup (.station 1) = some 4 := by
  have h₁ : WellTimed [.learn (.station 1) 1 10] := .learn _ 1 .nil (by simp [ticks])
  have h₂ : WellTimed [.learn (.station 1) 1 10, .learn (.station 2) 2 20] :=
    .learn _ 2 h₁ (by simp [ticks])
  have h₃ : WellTimed [.learn (.station 1) 1 10, .learn (.station 2) 2 20,
      .learn (.station 3) 3 30] := .learn _ 3 h₂ (by simp [ticks])
  have h₄ : WellTimed [.learn (.station 1) 1 10, .learn (.station 2) 2 20,
      .learn (.station 3) 3 30, .ageOut 40 25] := .ageOut 25 h₃ (by simp [ticks])
  have h₅ : WellTimed [.learn (.station 1) 1 10, .learn (.station 2) 2 20,
      .learn (.station 3) 3 30, .ageOut 40 25, .learn (.station 1) 4 50] :=
    .learn _ 4 h₄ (by simp [ticks])
  exact (run_lru 2 _ h₅).2.2 (by decide) [.learn (.station 1) 1 10, .learn (.station 2) 2 20,
    .learn (.station 3) 3 30, .ageOut 40 25] _ _ 50 rfl

end MacTable

end EdgeNetSwitch
