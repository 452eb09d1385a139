import EdgeNetSwitch.Switching.AgingAndEviction
import EdgeNetSwitch.Switching.Proofs.SwitchForwardingEngineProofs

/-!
# Proofs: aging and eviction

The age of an entry is an unsigned difference, which is right as long as the entry is not ahead of the sweep. A
`learn` evicts one entry of a full table, and a destination that is known is flooded only if it is that one.
-/

namespace EdgeNetSwitch

namespace MacTable

variable {t t' : MacTable} {m src dst : MacAddress} {e : MacTableEntry} {p : UInt32}

/-! ## Aging -/

theorem ext_entries (hc : t.capacity = t'.capacity) (he : t.entries = t'.entries) : t = t' := by
  cases t
  cases t'
  cases hc
  cases he
  rfl

theorem ageOut_getElem? (t : MacTable) (current_tick max_age : UInt64) (m : MacAddress)
    (e : MacTableEntry) : (t.ageOut current_tick max_age).entries[m]? = some e ↔
      t.entries[m]? = some e ∧ ¬ current_tick - e.last_seen_tick > max_age := by
  show (t.entries.filter _)[m]? = some e ↔ _
  rw [Std.ExtTreeMap.getElem?_filter', Option.filter_eq_some_iff]
  simp

/-- The unsigned age, from the ticks. -/
theorem not_aged_iff (now seen max_age : UInt64) : ¬ now - seen > max_age ↔
    if seen ≤ now then now.toNat ≤ seen.toNat + max_age.toNat
    else now.toNat + 2 ^ 64 ≤ seen.toNat + max_age.toNat := by
  have hnow := now.toNat_lt
  have hseen := seen.toNat_lt
  split_ifs with hle
  · have hle' := UInt64.le_iff_toNat_le.1 hle
    rw [gt_iff_lt, UInt64.lt_iff_toNat_lt, UInt64.toNat_sub_of_le _ _ hle]
    omega
  · have hlt := UInt64.lt_iff_toNat_lt.1 (UInt64.not_le.1 hle)
    rw [gt_iff_lt, UInt64.lt_iff_toNat_lt, UInt64.toNat_sub]
    omega

theorem agesExactly_iff (t : MacTable) (current_tick max_age : UInt64) :
    AgesExactly t current_tick max_age ↔ NotAhead t current_tick max_age := by
  constructor
  · intro h m e he
    by_cases hle : e.last_seen_tick ≤ current_tick
    · exact Or.inl hle
    · have hlt := UInt64.lt_iff_toNat_lt.1 (UInt64.not_le.1 hle)
      have hkept := ((ageOut_getElem? t current_tick max_age m e).1 ((h m e).2 ⟨he, by omega⟩)).2
      rw [not_aged_iff, if_neg hle] at hkept
      exact Or.inr hkept
  · intro h m e
    rw [ageOut_getElem?, not_aged_iff]
    refine and_congr_right fun he => ?_
    rcases h m e he with hle | hfar
    · rw [if_pos hle]
    · by_cases hle : e.last_seen_tick ≤ current_tick
      · rw [if_pos hle]
      · rw [if_neg hle]
        exact iff_of_true hfar (by omega)

/-- Exact sweeps absorb earlier ones. -/
theorem AgesExactly.absorbs {t1 t2 max_age : UInt64} (hle : t1 ≤ t2) (h1 : AgesExactly t t1 max_age)
    (h2 : AgesExactly t t2 max_age) : LaterSweepSuffices t t1 t2 max_age := by
  refine ext_entries rfl (Std.ExtTreeMap.ext_getElem? fun m => Option.ext fun e => ?_)
  have hle' := UInt64.le_iff_toNat_le.1 hle
  rw [ageOut_getElem?, h1 m e, ageOut_getElem?]
  constructor
  · exact fun h => ⟨h.1.1, h.2⟩
  · intro h
    have hkept := ((h2 m e).1 ((ageOut_getElem? t t2 max_age m e).2 h)).2
    exact ⟨⟨h.1, by omega⟩, h.2⟩

/-- Sweeps are exact, and the later one suffices, exactly if no entry is ahead of them. -/
theorem ageOut_exact_iff (t : MacTable) {t1 t2 : UInt64} (hle : t1 ≤ t2) (max_age : UInt64) :
    AgesExactly t t1 max_age ∧ AgesExactly t t2 max_age ∧ LaterSweepSuffices t t1 t2 max_age ↔
      NotAhead t t1 max_age ∧ NotAhead t t2 max_age := by
  rw [← agesExactly_iff, ← agesExactly_iff]
  constructor
  · exact fun h => ⟨h.1, h.2.1⟩
  · exact fun h => ⟨h.1, h.2, h.1.absorbs hle h.2⟩

/-- A station heard at tick 90, swept at 100 and at 105. -/
theorem ageOut_exact_iff_fresh :
    let t := (MacTable.empty 4).learn (.station 1) 1 90
    AgesExactly t 100 20 ∧ AgesExactly t 105 20 ∧ LaterSweepSuffices t 100 105 20 ↔
      NotAhead t 100 20 ∧ NotAhead t 105 20 :=
  ageOut_exact_iff _ (by decide) 20

/-- A station heard at tick 101 does not survive a sweep at 100. -/
theorem swept_ahead : ¬ ∀ t current_tick max_age, AgesExactly t current_tick max_age := by
  intro h
  have hlearned : ((MacTable.empty 4).learn (.station 1) 1 101).entries[MacAddress.station 1]? =
      some ⟨.station 1, 1, 101⟩ := learned_self (by decide) _ _ _
  have hkept := (h _ 100 20 _ _).2 ⟨hlearned, by decide⟩
  exact absurd ((ageOut_getElem? _ _ _ _ _).1 hkept).2 (by decide)

/-! ## Eviction -/

/-- The first argument is given up before the second. -/
def Before (x y : MacAddress × MacTableEntry) : Prop :=
  x.2.last_seen_tick < y.2.last_seen_tick ∨
    x.2.last_seen_tick = y.2.last_seen_tick ∧ compare x.1 y.1 = .lt

theorem Before.trans {x y z : MacAddress × MacTableEntry} (h : Before x y) (h' : Before y z) :
    Before x z := by
  rcases h with hlt | ⟨heq, hcmp⟩
  · rcases h' with hlt' | ⟨heq', -⟩
    · exact Or.inl (UInt64.lt_trans hlt hlt')
    · exact Or.inl (heq' ▸ hlt)
  · rcases h' with hlt' | ⟨heq', hcmp'⟩
    · exact Or.inl (heq ▸ hlt')
    · exact Or.inr ⟨heq.trans heq', Std.TransCmp.lt_trans hcmp hcmp'⟩

theorem Before.irrefl (x : MacAddress × MacTableEntry) : ¬ Before x x := by
  rintro (hlt | ⟨-, hcmp⟩)
  · exact UInt64.lt_irrefl _ hlt
  · have heq : compare x.1 x.1 = .eq := Std.ReflCmp.compare_self
    rw [heq] at hcmp
    cases hcmp

/-- The scan finds the entry that comes before all others. -/
theorem foldl_older_before (l : List (MacAddress × MacTableEntry)) (x : MacAddress × MacTableEntry)
    (h : (x :: l).Pairwise fun a b => compare a.1 b.1 = .lt) :
    ∀ y ∈ x :: l, y = l.foldl older x ∨ Before (l.foldl older x) y := by
  induction l generalizing x with
  | nil => exact fun y hy => Or.inl (List.mem_singleton.1 hy)
  | cons z l ih =>
    obtain ⟨hx, hzl⟩ := List.pairwise_cons.1 h
    obtain ⟨hz, hl⟩ := List.pairwise_cons.1 hzl
    -- the candidate that loses comes after the one that wins, and so after the result
    have hloser : ∀ w a : MacAddress × MacTableEntry, (a = l.foldl older w ∨ Before (l.foldl older w) a) →
        ∀ b, Before a b → Before (l.foldl older w) b := by
      rintro w a (rfl | ha) b hb
      · exact hb
      · exact ha.trans hb
    rw [List.foldl_cons]
    by_cases hlt : z.2.last_seen_tick < x.2.last_seen_tick
    · have hwin : older x z = z := if_pos hlt
      rw [hwin]
      have hrest := ih z hzl
      intro y hy
      rcases List.mem_cons.1 hy with rfl | hy
      · exact Or.inr (hloser z z (hrest z List.mem_cons_self) _ (Or.inl hlt))
      · exact hrest y hy
    · have hwin : older x z = x := if_neg hlt
      rw [hwin]
      have hrest := ih x (List.pairwise_cons.2 ⟨fun a ha => hx a (List.mem_cons_of_mem _ ha), hl⟩)
      have hbefore : Before x z := by
        rcases UInt64.lt_or_eq_of_le (UInt64.not_lt.1 hlt) with hlt' | heq
        · exact Or.inl hlt'
        · exact Or.inr ⟨heq, hx z List.mem_cons_self⟩
      intro y hy
      rcases List.mem_cons.1 hy with rfl | hy
      · exact hrest _ List.mem_cons_self
      · rcases List.mem_cons.1 hy with rfl | hy
        · exact Or.inr (hloser x x (hrest x List.mem_cons_self) _ hbefore)
        · exact hrest y (List.mem_cons_of_mem _ hy)

theorem oldest_before {entries : Std.ExtTreeMap MacAddress MacTableEntry}
    {v : MacAddress × MacTableEntry} (hv : oldest entries = some v) (he : entries[m]? = some e) :
    (m, e) = v ∨ Before v (m, e) := by
  rw [← Std.ExtTreeMap.mem_toList_iff_getElem?_eq_some] at he
  have hsorted := Std.ExtTreeMap.ordered_keys_toList (t := entries)
  unfold oldest at hv
  split at hv
  · cases hv
  · rename_i first rest hl
    have hself : older first first = first := if_neg (UInt64.lt_irrefl _)
    rw [List.foldl_cons, hself] at hv
    cases hv
    rw [hl] at he hsorted
    exact foldl_older_before rest first hsorted (m, e) he

/-- A station that has an entry loses it if it is the one evicted. -/
theorem lookup_learn (hne : dst ≠ src) (hlookup : t.lookup dst = some p) (port_id : UInt32)
    (tick : UInt64) : (¬ EvictedBy t src dst → (t.learn src port_id tick).lookup dst = some p) ∧
      (EvictedBy t src dst → (t.learn src port_id tick).lookup dst = none) := by
  obtain ⟨entry, hentry, rfl⟩ := Option.map_eq_some_iff.1 hlookup
  have hcapacity : t.capacity ≠ 0 := by
    intro h0
    have hle := t.size_le
    rw [h0, Nat.le_zero, ← Std.ExtTreeMap.eq_empty_iff_size_eq_zero] at hle
    rw [hle] at hentry
    simp at hentry
  show (_ → ((t.learned src port_id tick)[dst]?).map _ = _) ∧
    (_ → ((t.learned src port_id tick)[dst]?).map _ = _)
  cases hnew : t.entries[src]? with
  | some it =>
    rw [learned_of_hit hne port_id tick (by rw [hnew]; rfl), hentry]
    refine ⟨fun _ => rfl, fun hev => ?_⟩
    rw [hev.new] at hnew
    cases hnew
  | none =>
    rw [learned_of_miss hne port_id tick hcapacity hnew]
    by_cases hfull : t.capacity ≤ t.size
    · obtain ⟨v, hv⟩ : ∃ v, oldest t.entries = some v := by
        apply Option.isSome_iff_exists.1 (oldest_isSome _)
        have hsize : t.entries.size = t.size := rfl
        omega
      have hevicted : t.evicted = t.entries.erase v.1 := by
        unfold evicted
        rw [if_pos (show t.entries.size ≥ t.capacity from hfull), hv]
      have hvictim : EvictedBy t src dst ↔ v.1 = dst := by
        constructor
        · rintro ⟨-, -, entry', hentry', hmin⟩
          obtain rfl : entry = entry' := Option.some.inj (hentry.symm.trans hentry')
          rcases hmin v.1 v.2 (oldest_mem hv) with heq | hbefore
          · exact heq
          · rcases oldest_before hv hentry with heq | hbefore'
            · rw [← heq]
            · have hbefore : Before (dst, entry) v := hbefore
              exact absurd (hbefore.trans hbefore') (Before.irrefl (dst, entry))
        · rintro rfl
          obtain rfl : entry = v.2 := Option.some.inj (hentry.symm.trans (oldest_mem hv))
          refine ⟨hfull, hnew, v.2, hentry, fun m' e' he' => ?_⟩
          rcases oldest_before hv he' with heq | hbefore
          · exact Or.inl (congrArg Prod.fst heq)
          · exact Or.inr hbefore
      rw [hvictim, hevicted, Std.ExtTreeMap.getElem?_erase]
      constructor
      · intro hneq
        have hcmp : ¬ compare v.1 dst = .eq := fun h => hneq (Std.LawfulEqCmp.eq_of_compare h)
        rw [if_neg hcmp, hentry]
        rfl
      · rintro rfl
        rw [if_pos Std.ReflCmp.compare_self]
        rfl
    · rw [evicted_of_lt (Nat.lt_of_not_le hfull), hentry]
      exact ⟨fun _ => rfl, fun hev => absurd hev.full hfull⟩

end MacTable

namespace SwitchForwardingEngine

open MacTable

/-- A known destination is not flooded, unless it is the entry that is given up for the source. -/
theorem forwards_known (e : SwitchForwardingEngine) {packet : Packet} (ingress_port : UInt32)
    (tick : UInt64) {src dst : MacAddress} {p : UInt32} (hs : packet.source_mac = some src)
    (hd : packet.destination_mac = some dst) (hunicast : dst.isBroadcast = false) (hne : dst ≠ src)
    (hlookup : e.mac_table.lookup dst = some p) (hup : e.interfaces.isUp p = true) :
    (¬ EvictedBy e.mac_table src dst →
      (e.processPacket packet ingress_port tick).1 = ⟨.forwardToPorts, [p]⟩) ∧
    (EvictedBy e.mac_table src dst → ∃ ports : List UInt32,
      (e.processPacket packet ingress_port tick).1 = ⟨.flood, ports⟩ ∧ ports.Pairwise (· < ·) ∧
        ∀ port, port ∈ ports ↔ e.interfaces.isUp port = true ∧ port ≠ ingress_port) := by
  obtain ⟨hkept, hgone⟩ := lookup_learn hne hlookup ingress_port tick
  rw [processPacket_of_some e ingress_port tick hs hd rfl, hunicast, if_neg (by decide)]
  constructor
  · intro hev
    rw [hkept hev]
    exact if_pos hup
  · intro hev
    rw [hgone hev]
    exact ⟨_, rfl, floodPorts_spec e ingress_port⟩

/-- Ports 1 to 4, of which all are up. -/
def fourPorts : InterfaceRegistry :=
  [1, 2, 3, 4].foldl (fun r id => r.addPort { id, name := [], state := .up }) {}

theorem lookup_learned {t : MacTable} (h0 : t.capacity ≠ 0) (m : MacAddress) (p : UInt32)
    (tick : UInt64) : (t.learn m p tick).lookup m = some p := by
  show ((t.learned m p tick)[m]?).map _ = _
  rw [learned_self h0]
  rfl

/-- The table has room for the source. -/
theorem forwards_known_learned :
    let e : SwitchForwardingEngine := ⟨(MacTable.empty 16).learn (.station 2) 4 5, fourPorts⟩
    (¬ EvictedBy e.mac_table (.station 1) (.station 2) →
      (e.processPacket (frame 1 2) 2 10).1 = ⟨.forwardToPorts, [4]⟩) ∧
    (EvictedBy e.mac_table (.station 1) (.station 2) → ∃ ports : List UInt32,
      (e.processPacket (frame 1 2) 2 10).1 = ⟨.flood, ports⟩ ∧ ports.Pairwise (· < ·) ∧
        ∀ port, port ∈ ports ↔ e.interfaces.isUp port = true ∧ port ≠ 2) :=
  forwards_known _ 2 10 rfl rfl (by decide) (by decide) (lookup_learned (by decide) _ _ _) (by decide)

/-- A table with room for one entry gives up the destination for the source. -/
theorem floods_known : ¬ ∀ (e : SwitchForwardingEngine) (packet : Packet) (ingress_port : UInt32)
    (tick : UInt64) (src dst : MacAddress) (p : UInt32), packet.source_mac = some src →
    packet.destination_mac = some dst → dst.isBroadcast = false → dst ≠ src →
    e.mac_table.lookup dst = some p → e.interfaces.isUp p = true →
    (e.processPacket packet ingress_port tick).1 = ⟨.forwardToPorts, [p]⟩ := by
  intro h
  have hforward := h ⟨(MacTable.empty 1).learn (.station 2) 4 5, fourPorts⟩ (frame 1 2) 2 10 (.station 1)
    (.station 2) 4 rfl rfl (by decide) (by decide) (lookup_learned (by decide) _ _ _) (by decide)
  exact absurd hforward (by decide)

end SwitchForwardingEngine

end EdgeNetSwitch
