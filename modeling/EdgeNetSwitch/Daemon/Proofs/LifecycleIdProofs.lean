import EdgeNetSwitch.Daemon.Proofs.PendingProofs
import EdgeNetSwitch.Daemon.Proofs.ProgressProofs
import Mathlib.Order.Interval.Finset.Nat

/-!
# Proofs: lifecycle ids

The generator counts up from 1 and the commands use constants, so the ids of the two producers, or of
two commands, can meet. They differ in every run if and only if the requests keep them apart
(`DistinctIds`).
-/

namespace EdgeNetSwitch

namespace Runtime

open Threads PacketProcessor

variable {c : Config Runtime Action} {subs : List Subscriber} {cfg : FailureConfig}
  {engine : Option SwitchForwardingEngine} {transport : Option TransportManager}
  {requests : List Request}

/-- Some run handles all requests and all packets. -/
theorem exists_drained (hs : Wired subs) (cfg : FailureConfig)
    (engine : Option SwitchForwardingEngine) (transport : Option TransportManager)
    (requests : List Request) : ∃ c,
    Reaches program anyStep (ingress subs cfg engine transport requests) c ∧ Drained c := by
  have hsolo := solo_of_runs hs.client (S := Runs) (J := fun _ => True)
    (t := requests.map Request.action) (fun _ ha => ha) (fun _ _ _ _ hb => hb)
    (fun _ _ _ _ _ _ _ h => h) (fun a ha => by
      obtain ⟨request, -, rfl⟩ := List.mem_map.1 ha
      cases request <;> trivial)
  obtain ⟨s₁, ⟨hs₁, -⟩, hr₁⟩ := hsolo.reaches (s := initial subs cfg engine transport)
    ⟨rfl, trivial⟩ [[.processLoop]] [] []
  obtain ⟨s₂, ⟨hs₂, hq⟩, hr₂⟩ := drain (Φ := fun q s => s.subscribers = subs ∧ s.queue = q)
    (Ψ := fun _ q s => s.subscribers = subs ∧ s.queue = q) (fun _ _ h => h.2)
    (fun _ _ _ h => ⟨h.1, rfl⟩) (solo_processPacket hs.client) [] s₁.queue s₁ ⟨hs₁, rfl⟩
  rw [List.append_nil] at hr₁
  exact ⟨_, hr₁.trans hr₂, hq, by simp⟩

/-! ## The ids of the requests -/

/-- An id tells which command chose it. -/
theorem arg_of_mem_chosenIds {arg : Bytes} {L : UInt64}
    (h : L ∈ (Request.sendPacket arg).chosenIds) :
    arg = bytesOf (if L = 999 then "broadcast" else if L < 2000 then "learn" else "topology-demo") := by
  simp only [Request.chosenIds, handleSendPacket, synthetic] at h
  split_ifs at h with hb hl ht <;>
    simp only [List.map_cons, List.map_nil, List.mem_cons, List.not_mem_nil, or_false] at h
  · rw [hb, h]
    rfl
  · rcases h with rfl | rfl <;> rw [hl] <;> rfl
  · rcases h with rfl | rfl | rfl | rfl | rfl <;> rw [ht] <;> rfl

theorem chosenIds_inj {r r' : Request} {L : UInt64} (h : L ∈ r.chosenIds) (h' : L ∈ r'.chosenIds) :
    r = r' := by
  cases r with
  | readable recv => cases h
  | sendPacket arg =>
    cases r' with
    | readable recv => cases h'
    | sendPacket arg' => rw [arg_of_mem_chosenIds h, arg_of_mem_chosenIds h']

theorem chosenIds_spec (r : Request) : r.chosenIds.Nodup ∧ ∀ L ∈ r.chosenIds, 0 < L.toNat := by
  cases r with
  | readable recv => exact ⟨List.nodup_nil, by simp [Request.chosenIds]⟩
  | sendPacket arg =>
    simp only [Request.chosenIds, handleSendPacket, synthetic]
    split_ifs <;> constructor <;> simp

/-- Commands that are not repeated choose different ids. -/
theorem nodup_chosenIds (h : ∀ arg, handleSendPacket arg ≠ [] →
    requests.count (.sendPacket arg) ≤ 1) : (requests.flatMap Request.chosenIds).Nodup := by
  rw [List.nodup_flatMap]
  refine ⟨fun r _ => (chosenIds_spec r).1, ?_⟩
  induction requests with
  | nil => exact List.Pairwise.nil
  | cons r requests ih =>
    refine List.Pairwise.cons (fun r' hr' L hL hL' => ?_) (ih fun arg harg => ?_)
    · have hrr := chosenIds_inj hL hL'
      subst hrr
      cases r with
      | readable recv => cases hL
      | sendPacket arg =>
        have hle := h arg (fun hnil => by simp [Request.chosenIds, hnil] at hL)
        rw [List.count_cons_self] at hle
        have := List.count_pos_iff.2 hr'
        omega
    · exact le_trans (List.count_le_count_cons ..) (h arg harg)

/-- The ids a generator and the commands hand out differ if and only if the requests keep them
apart. -/
theorem distinctIds_iff (hlen : requests.length < 2 ^ 64) : DistinctIds requests ↔ ∀ L,
    (generated (requests.countP Request.isDatagram)).count L +
      (requests.flatMap Request.chosenIds).count L ≤ 1 := by
  have hn : requests.countP Request.isDatagram < 2 ^ 64 :=
    lt_of_le_of_lt List.countP_le_length hlen
  constructor
  · intro h L
    have hg := List.nodup_iff_count_le_one.1 (nodup_generated hn) L
    have hc := List.nodup_iff_count_le_one.1 (nodup_chosenIds h.commands) L
    by_cases hL : L ∈ requests.flatMap Request.chosenIds
    · obtain ⟨r, hr, hLr⟩ := List.mem_flatMap.1 hL
      have hlt := h.datagrams r hr L hLr
      have hnot : L ∉ generated (requests.countP Request.isDatagram) := fun hmem => by
        have := (mem_generated hn).1 hmem
        omega
      rw [List.count_eq_zero.2 hnot]
      omega
    · rw [List.count_eq_zero.2 hL]
      omega
  · intro h
    refine ⟨fun arg harg => ?_, fun r hr L hL => ?_⟩
    · by_contra hlt
      obtain ⟨p, hp⟩ := List.exists_mem_of_ne_nil _ harg
      have hsub : ((List.replicate 2 (Request.sendPacket arg)).flatMap Request.chosenIds).Sublist
          (requests.flatMap Request.chosenIds) :=
        (List.replicate_sublist_iff.2 (by omega)).flatMap _
      have hle := hsub.count_le p.id
      have hpos : 0 < (Request.sendPacket arg).chosenIds.count p.id :=
        List.count_pos_iff.2 (List.mem_map_of_mem hp)
      have := h p.id
      simp only [List.replicate_succ, List.replicate_zero, List.flatMap_cons, List.flatMap_nil,
        List.append_nil, List.count_append] at hle
      omega
    · have hpos := List.count_pos_iff.2 (List.mem_flatMap.2 ⟨r, hr, hL⟩)
      have := h L
      have hnot : L ∉ generated (requests.countP Request.isDatagram) :=
        List.count_eq_zero.1 (by omega)
      rw [mem_generated hn] at hnot
      have := (chosenIds_spec r).2 L hL
      omega

/-- There are fewer than `2 ^ 64` of them. -/
theorem DistinctIds.length_lt (h : DistinctIds requests) (hlen : requests.length < 2 ^ 64) :
    requests.countP Request.isDatagram + (requests.flatMap Request.chosenIds).length < 2 ^ 64 := by
  have hn : requests.countP Request.isDatagram < 2 ^ 64 :=
    lt_of_le_of_lt List.countP_le_length hlen
  have hnodup : (generated (requests.countP Request.isDatagram) ++
      requests.flatMap Request.chosenIds).Nodup := by
    rw [List.nodup_iff_count_le_one]
    intro L
    rw [List.count_append]
    exact (distinctIds_iff hlen).1 h L
  have hpos : ∀ L ∈ generated (requests.countP Request.isDatagram) ++
      requests.flatMap Request.chosenIds, 0 < L.toNat := by
    intro L hL
    rcases List.mem_append.1 hL with hL | hL
    · exact ((mem_generated hn).1 hL).1
    · obtain ⟨r, -, hLr⟩ := List.mem_flatMap.1 hL
      exact (chosenIds_spec r).2 L hLr
  have hsub : ((generated (requests.countP Request.isDatagram) ++
      requests.flatMap Request.chosenIds).map UInt64.toNat).toFinset ⊆ Finset.Ico 1 (2 ^ 64) := by
    intro n hmem
    obtain ⟨L, hL, rfl⟩ := List.mem_map.1 (List.mem_toFinset.1 hmem)
    exact Finset.mem_Ico.2 ⟨hpos L hL, L.toNat_lt⟩
  have hcard := Finset.card_le_card hsub
  rw [List.toFinset_card_of_nodup (hnodup.map fun _ _ => UInt64.toNat_inj.1), List.length_map,
    List.length_append, generated, List.length_map, List.length_range, Nat.card_Ico] at hcard
  omega

/-! ## The ids in a run -/

theorem Drained.load_eq_zero (hd : Drained c) {f : Action → ℕ} (hf : f .processLoop = 0) :
    c.load f = 0 :=
  Threads.load_eq_zero fun t ht a ha => by rw [hd.2 t ht a ha, hf]

theorem Drained.not_pending (hd : Drained c) : ¬ c.Pending InDispatch := by
  rintro ⟨t, ht, a, ha, h⟩
  rw [hd.2 t ht a ha] at h
  exact h

section Accounted

variable (hc : Accounted subs requests c)

include hc

theorem Accounted.distinct_of_distinctIds (h : DistinctIds requests)
    (hlen : requests.length < 2 ^ 64) : Distinct c.shared.log := by
  refine hc.distinct fun g hg L => ?_
  have hsub : (generated g).Sublist (generated (requests.countP Request.isDatagram)) :=
    (List.range_sublist.2 hg).map _
  have := hsub.count_le L
  have := (distinctIds_iff hlen).1 h L
  omega

/-- The statistics count messages that were published. -/
theorem Accounted.duplicates (h : Distinct c.shared.log) :
    c.shared.stats.duplicate_events = 0 := by
  have hle : (c.shared.counted : Multiset StatsMessage) ≤ carried Message.stats? c.shared.log := by
    rw [Multiset.le_iff_count]
    intro m
    rw [Multiset.coe_count, Multiset.coe_count, hc.delivered.stats m]
    omega
  have hids : (((StatsMessage.terminals c.shared.counted).map Terminal.lifecycle_id :
      List UInt64) : Multiset UInt64) ≤ terminalIds c.shared.log := by
    rw [terminalIds_eq]
    exact Multiset.map_le_map (Multiset.filterMap_le_filterMap StatsMessage.terminal? hle)
  have hnodup := Multiset.nodup_of_le hids (Multiset.coe_nodup.2 h.terminal)
  have hcard := List.toFinset_card_of_nodup (Multiset.coe_nodup.1 hnodup)
  have hvalue := hc.delivered.counts.counted .duplicateEvents trivial
  have hzero : StatsMessage.expected c.shared.counted .duplicateEvents = 0 := by
    show (StatsMessage.terminals c.shared.counted).length -
      ((StatsMessage.terminals c.shared.counted).map Terminal.lifecycle_id).toFinset.card = 0
    rw [hcard, List.length_map, Nat.sub_self]
  rw [hzero] at hvalue
  exact hvalue

/-- When all is done every packet published has an outcome. -/
theorem Accounted.terminated_eq (hd : Drained c) (L : UInt64) :
    (terminated c.shared.log).count L = (rxIds c.shared.log).count L := by
  have hrx : (rxIds c.shared.log).count L = _ := hc.delivered.processor L
  have hcons := hc.conserved L
  rw [inFlight, hd.1, hd.load_eq_zero rfl] at hcons
  rw [hrx, hd.load_eq_zero rfl, hcons]
  rfl

end Accounted

/-- Packets have lifecycles of their own in every run if and only if the requests keep the ids of the
generator and of the commands apart. -/
theorem uniqueLifecycles_iff (hs : Wired subs) (hlen : requests.length < 2 ^ 64) :
    (∀ c, Reaches program anyStep (ingress subs cfg engine transport requests) c →
      UniqueLifecycles c) ↔ DistinctIds requests := by
  constructor
  · intro h
    obtain ⟨c, hr, hd⟩ := exists_drained hs cfg engine transport requests
    have hc := accounted_of_reaches hs hr
    have houtcomes := (h c hr).outcomes hd
    have hterminal : c.shared.stats.terminal_events.toNat = _ := (hc.metrics hd.not_pending).2
    -- every lifecycle has been counted, so there is one terminal message for each
    have hlen' : (terminalIds c.shared.log).length =
        (rxIds c.shared.log).length + (rejectedIds c.shared.log).length := by
      have hperm : (terminalIds c.shared.log).Perm
          (rxIds c.shared.log ++ rejectedIds c.shared.log) := by
        rw [List.perm_iff_count]
        intro L
        rw [List.count_append, (log_counts hc.within.log L).2, hc.terminated_eq hd]
      rw [hperm.length_eq, List.length_append]
    have hle := List.toFinset_card_le (terminalIds c.shared.log)
    have hmod := Nat.mod_le (terminalIds c.shared.log).toFinset.card (2 ^ 64)
    have hnodup : (terminalIds c.shared.log).Nodup :=
      Multiset.toFinset_card_eq_card_iff_nodup.1
        (show (terminalIds c.shared.log).toFinset.card = (terminalIds c.shared.log).length by omega)
    rw [distinctIds_iff hlen]
    obtain ⟨g, -, hread, hissued⟩ := hc.issued
    intro L
    have hL := hissued L
    rw [hd.load_eq_zero rfl, (log_counts hc.within.log L).1, ← hc.terminated_eq hd,
      ← (log_counts hc.within.log L).2] at hL
    rw [hd.load_eq_zero rfl, Nat.add_zero] at hread
    rw [hread, hL]
    exact List.nodup_iff_count_le_one.1 hnodup L
  · intro h c hr
    have hc := accounted_of_reaches hs hr
    have hdistinct := hc.distinct_of_distinctIds h hlen
    refine ⟨hdistinct.rx, hc.duplicates hdistinct, fun hd => ?_⟩
    have hle := hc.length_le
    have hlt := h.length_lt hlen
    have hcard := hdistinct.card
    have hempty : (rxIds c.shared.log).toFinset \ (terminalIds c.shared.log).toFinset = ∅ := by
      rw [Finset.sdiff_eq_empty_iff_subset]
      intro L hL
      rw [List.mem_toFinset] at hL ⊢
      have hpos := List.count_pos_iff.2 hL
      have hterm := (log_counts hc.within.log L).2
      rw [hc.terminated_eq hd] at hterm
      exact List.count_pos_iff.1 (by omega)
    rw [hempty, Finset.card_empty, Nat.zero_add] at hcard
    have hterminal : c.shared.stats.terminal_events.toNat = _ := (hc.metrics hd.not_pending).2
    rw [Nat.mod_eq_of_lt (by omega), hcard] at hterminal
    exact hterminal

/-- A datagram and a command that keep apart. -/
theorem uniqueLifecycles_broadcast :
    DistinctIds [.readable (.datagram (localDatagram "id=1;payload=ping")),
        .sendPacket (bytesOf "broadcast")] ∧
      ∀ c, Reaches program anyStep (ingress [.packetProcessor, .packetStats] {} none none
        [.readable (.datagram (localDatagram "id=1;payload=ping")),
          .sendPacket (bytesOf "broadcast")]) c → UniqueLifecycles c := by
  have hs : Wired [.packetProcessor, .packetStats] := ⟨by decide, by decide, by simp⟩
  have hids : DistinctIds [.readable (.datagram (localDatagram "id=1;payload=ping")),
      .sendPacket (bytesOf "broadcast")] := by
    refine ⟨fun arg _ => ?_, fun request hrequest L hL => ?_⟩
    · simp only [List.count_cons, List.count_nil]
      split_ifs <;> simp_all
    · rcases List.mem_pair.1 hrequest with rfl | rfl
      · cases hL
      · have hbroadcast : L ∈ [(999 : UInt64)] := hL
        rw [List.mem_singleton.1 hbroadcast]
        decide
  exact ⟨hids, (uniqueLifecycles_iff hs (by decide)).2 hids⟩

/-- Two `broadcast` commands use one lifecycle id. -/
theorem broadcast_twice : ∃ c,
    Reaches program anyStep (ingress [.packetProcessor, .packetStats] {} none none
      [.sendPacket (bytesOf "broadcast"), .sendPacket (bytesOf "broadcast")]) c ∧
    ¬ (rxIds c.shared.log).Nodup ∧ c.shared.stats.duplicate_events = 1 := by
  have hplay : ∃ c, play program anyStep
      ((List.replicate 14 1 ++ List.replicate 8 0).map fun i => (i, { now_ms := 5 }))
      (ingress [.packetProcessor, .packetStats] {} none none
        [.sendPacket (bytesOf "broadcast"), .sendPacket (bytesOf "broadcast")]) = some c ∧
      rxIds c.shared.log = [999, 999] ∧ c.shared.stats.duplicate_events = 1 := ⟨_, rfl, rfl, rfl⟩
  obtain ⟨c, hplay, hids, hdup⟩ := hplay
  exact ⟨c, reaches_of_play hplay, by rw [hids]; decide, hdup⟩

end Runtime

end EdgeNetSwitch
