import EdgeNetSwitch.Daemon.Proofs.IngressProofs
import Mathlib.Data.Multiset.Filter

/-!
# Proofs: lifecycles in flight

While no dispatch is in progress the statistics are those of the messages published
(`Accounted.metrics`), and the ids of what the producers published are all different
(`Accounted.distinct`), so `pending_terminal_events` is the number of lifecycles in flight exactly
as long as `UdpReceiver` has rejected nothing: a rejected datagram has a terminal message, but is no
ingress packet.
-/

namespace EdgeNetSwitch

namespace Runtime

open Threads PacketProcessor StatsMessage Terminal

variable {s s' : Runtime} {a : Action} {w : Env} {k : List Action} {c d : Config Runtime Action}
  {log : List (Source × Message)} {subs : List Subscriber} {cfg : FailureConfig}
  {engine : Option SwitchForwardingEngine} {transport : Option TransportManager}
  {requests : List Request} {φ : Config Runtime Action → Action → Prop}

/-! ## What is in the log -/

theorem rxId?_of_type {msg : Message} (h : msg.type ≠ .packetRx) : rxId? msg = none := by
  have hn : msg.packetRx? = none := by
    unfold Message.packetRx?
    split
    · contradiction
    · rfl
  rw [rxId?, hn]
  rfl

theorem rxIds_eq (log : List (Source × Message)) : rxIds log =
    ((carried Message.stats? log).filterMap StatsMessage.packetRx?).map Packet.lifecycle_id := by
  rw [carried, List.filterMap_filterMap, List.map_filterMap, rxIds]
  simp only [stats?_packetRx]

theorem terminalIds_eq (log : List (Source × Message)) : terminalIds log =
    (terminals (carried Message.stats? log)).map Terminal.lifecycle_id := by
  rw [terminals, carried, List.filterMap_filterMap, List.map_filterMap, terminalIds]
  simp only [stats?_terminal]

theorem rejectedIds_append (log : List (Source × Message)) (src : Source) (msg : Message)
    (L : UInt64) : (rejectedIds (log ++ [(src, msg)])).count L = (rejectedIds log).count L +
      match src with
      | .receiver _ => if msg.terminal?.map Terminal.lifecycle_id = some L then 1 else 0
      | _ => 0 := by
  have happ : rejectedIds (log ++ [(src, msg)]) = rejectedIds log ++
      (match src with
        | .receiver _ => msg.terminal?.map Terminal.lifecycle_id
        | _ => none).toList := by
    rw [rejectedIds, List.filterMap_append]
    congr 1
  rw [happ, List.count_append, count_toList]
  cases src <;> simp

/-- On the ingress path the producers publish the `PacketRx` messages and the rejections, and the
processor the other terminal messages. -/
theorem log_counts (h : ∀ x ∈ log, Publishes x.1 x.2) (L : UInt64) :
    (producedIds log).count L = (rxIds log).count L + (rejectedIds log).count L ∧
    (terminalIds log).count L = (terminated log).count L + (rejectedIds log).count L := by
  induction log using List.reverseRecOn with
  | nil => exact ⟨rfl, rfl⟩
  | append_singleton log x ih =>
    obtain ⟨ih₁, ih₂⟩ := ih fun y hy => h y (List.mem_append_left _ hy)
    obtain ⟨src, msg⟩ := x
    have hx : Publishes src msg := h (src, msg) (by simp)
    have hrx : (rxIds (log ++ [(src, msg)])).count L =
        (rxIds log).count L + if rxId? msg = some L then 1 else 0 :=
      carried_append rxId? _ _ _ _
    have hterm : (terminalIds (log ++ [(src, msg)])).count L = (terminalIds log).count L +
        if msg.terminal?.map Terminal.lifecycle_id = some L then 1 else 0 :=
      carried_append (fun msg => msg.terminal?.map Terminal.lifecycle_id) _ _ _ _
    rw [producedIds_append, hrx, hterm, terminated_append, rejectedIds_append]
    cases src with
    | processor =>
      obtain ⟨p, reason, t, rfl⟩ := hx
      simp [upcoming, holds, rxId?, Message.packetRx?, dropMessage]
      omega
    | worker =>
      simp [upcoming, holds, rxId?_of_type hx]
      omega
    | receiver recv =>
      rcases packetRx?_or_terminal? msg with hn | hn <;>
        simp [upcoming, holds, lifecycle?, rxId?, hn] <;> omega
    | control arg =>
      obtain ⟨p, hp, t, hmsg⟩ := hx
      obtain ⟨msg', hmsg', hrx, hn⟩ := publishSyntheticPacket_spec hp t
      cases hmsg.symm.trans hmsg'
      simp [upcoming, holds, lifecycle?, hn]
      omega
    | _ => exact hx.elim

/-! ## Ids -/

theorem mem_generated {g : ℕ} (hg : g < 2 ^ 64) {L : UInt64} :
    L ∈ generated g ↔ 0 < L.toNat ∧ L.toNat ≤ g := by
  rw [generated, List.mem_map]
  constructor
  · rintro ⟨i, hi, rfl⟩
    rw [List.mem_range] at hi
    rw [UInt64.toNat_ofNat_of_lt' (by show i + 1 < 2 ^ 64; omega)]
    omega
  · rintro ⟨hpos, hle⟩
    refine ⟨L.toNat - 1, List.mem_range.2 (by omega), ?_⟩
    rw [Nat.sub_add_cancel hpos, UInt64.ofNat_toNat]

theorem nodup_generated {g : ℕ} (hg : g < 2 ^ 64) : (generated g).Nodup := by
  refine List.Nodup.map_on (fun i hi j hj hij => ?_) List.nodup_range
  rw [List.mem_range] at hi hj
  have h := congrArg UInt64.toNat hij
  rw [UInt64.toNat_ofNat_of_lt' (by show i + 1 < 2 ^ 64; omega),
    UInt64.toNat_ofNat_of_lt' (by show j + 1 < 2 ^ 64; omega)] at h
  omega

/-- Ids of different lifecycles, each opened or rejected once, and the outcomes so far. -/
structure Distinct (log : List (Source × Message)) : Prop where
  rx : (rxIds log).Nodup
  rejected : (rejectedIds log).Nodup
  terminal : (terminalIds log).Nodup
  rejected_rx : ∀ L ∈ rejectedIds log, L ∉ rxIds log
  rejected_terminal : ∀ L ∈ rejectedIds log, L ∈ terminalIds log
  opened : ∀ L ∈ terminalIds log, L ∈ rxIds log ∨ L ∈ rejectedIds log

theorem distinct_of_counts (hlog : ∀ x ∈ log, Publishes x.1 x.2)
    (hproduced : ∀ L, (producedIds log).count L ≤ 1)
    (hterminated : ∀ L, (terminated log).count L ≤ (rxIds log).count L) : Distinct log := by
  have hcounts := log_counts hlog
  have hle : ∀ L, (rxIds log).count L + (rejectedIds log).count L ≤ 1 := fun L =>
    (hcounts L).1 ▸ hproduced L
  refine ⟨List.nodup_iff_count_le_one.2 fun L => ?_, List.nodup_iff_count_le_one.2 fun L => ?_,
    List.nodup_iff_count_le_one.2 fun L => ?_, fun L hL hrx => ?_, fun L hL => ?_, fun L hL => ?_⟩
  · have := hle L
    omega
  · have := hle L
    omega
  · have := hle L
    have := hterminated L
    have := (hcounts L).2
    omega
  · have := hle L
    have := List.count_pos_iff.2 hL
    have := List.count_pos_iff.2 hrx
    omega
  · have := (hcounts L).2
    have := List.count_pos_iff.2 hL
    exact List.count_pos_iff.1 (by omega)
  · have := (hcounts L).2
    have := hterminated L
    have := List.count_pos_iff.2 hL
    by_cases hrx : L ∈ rxIds log
    · exact Or.inl hrx
    · rw [← List.count_eq_zero] at hrx
      exact Or.inr (List.count_pos_iff.1 (by omega))

/-! ## Runs -/

/-- The processor reports the outcome of packets that were published only. -/
theorem Delivered.terminated_le (hc : Delivered c) {L : UInt64} {n : ℕ}
    (h : (c.shared.taken.map Packet.lifecycle_id).count L = (terminated c.shared.log).count L + n) :
    (terminated c.shared.log).count L ≤ (rxIds c.shared.log).count L := by
  have hrx : (rxIds c.shared.log).count L = _ := hc.processor L
  omega

/-- The snapshot counts the messages delivered. -/
theorem Delivered.metrics_eq (hc : Delivered c) :
    c.shared.stats.snapshotAt.Accounts (· % 2 ^ 64) c.shared.counted :=
  PacketStats.accounts_mod fun k hk => by rw [hc.counts.counted k hk, UInt64.toNat_ofNat']

/-- What holds of the ingress path in every interleaving. -/
structure Accounted (subs : List Subscriber) (requests : List Request)
    (c : Config Runtime Action) : Prop where
  within : Within OfIngress subs c
  delivered : Delivered c
  issued : Issued requests c
  conserved : ∀ L, (c.shared.taken.map Packet.lifecycle_id).count L =
    (terminated c.shared.log).count L + inFlight L c

theorem load_ingress (f : Action → ℕ) (hloop : f .processLoop = 0) :
    (ingress subs cfg engine transport requests).load f =
      weight f (requests.map Request.action) := by
  simp [ingress, start, Config.load, hloop]

theorem issued_ingress : Issued requests (ingress subs cfg engine transport requests) := by
  refine ⟨0, rfl, ?_, fun L => ?_⟩
  · rw [load_ingress _ rfl, Nat.zero_add]
    induction requests with
    | nil => rfl
    | cons request requests ih =>
      rw [List.countP_cons, ih, List.map_cons, weight_cons, Nat.add_comm]
      rcases request with ⟨_ | _ | _ | _ | _⟩ | _ <;> rfl
  · rw [load_ingress _ rfl]
    show 0 + _ = 0 + _
    congr 1
    induction requests with
    | nil => rfl
    | cons request requests ih =>
      rw [List.flatMap_cons, List.count_append, ih, List.map_cons, weight_cons]
      cases request <;> rfl

theorem within_ingress : Within OfIngress subs (ingress subs cfg engine transport requests) := by
  refine within_start trivial fun t ht a ha => ?_
  rw [List.mem_singleton.1 ht] at ha
  obtain ⟨request, -, rfl⟩ := List.mem_map.1 ha
  cases request <;> trivial

theorem delivered_ingress : Delivered (ingress subs cfg engine transport requests) := by
  refine delivered_start fun t ht a ha sub msg => ?_
  rw [List.mem_singleton.1 ht] at ha
  obtain ⟨request, -, rfl⟩ := List.mem_map.1 ha
  cases request <;> exact Action.noConfusion

theorem accounted_of_reaches (hs : Wired subs)
    (h : Reaches program φ (ingress subs cfg engine transport requests) c) :
    Accounted subs requests c := by
  have hcallers : ∀ t ∈ [requests.map Request.action], ∀ a ∈ t, IsCall a := by
    intro t ht a ha
    rw [List.mem_singleton.1 ht] at ha
    obtain ⟨request, -, rfl⟩ := List.mem_map.1 ha
    cases request <;> trivial
  have hinv : Within OfIngress subs c ∧ Delivered c ∧ Issued requests c := by
    refine h.invariant (I := fun c => Within OfIngress subs c ∧ Delivered c ∧ Issued requests c) ?_ ?_
    · exact ⟨within_ingress, delivered_ingress, issued_ingress⟩
    · rintro c a d ⟨hin, hdel, hiss⟩ - hstep
      obtain ⟨o, k, he, hr⟩ := step_spec hstep
      exact ⟨hin.step confined_ofIngress hs.client hstep, hdel.step hs hin.subscribers hin.destroyed hstep,
        hiss.step (hin.action hr) hstep⟩
  exact ⟨hinv.1, hinv.2.1, hinv.2.2, inFlight_balance hcallers h⟩

section Accounted

variable (hc : Accounted subs requests c)

include hc

theorem Accounted.terminated_le (L : UInt64) :
    (terminated c.shared.log).count L ≤ (rxIds c.shared.log).count L :=
  hc.delivered.terminated_le (hc.conserved L)

/-- As long as the ids handed out differ, so do the lifecycles. -/
theorem Accounted.distinct (hids : ∀ g ≤ requests.countP Request.isDatagram, ∀ L,
    (generated g).count L + (requests.flatMap Request.chosenIds).count L ≤ 1) :
    Distinct c.shared.log := by
  obtain ⟨g, -, hread, hissued⟩ := hc.issued
  refine distinct_of_counts hc.within.log (fun L => ?_) hc.terminated_le
  have := hids g (by omega) L
  have := hissued L
  omega

/-- Between dispatches every message has been counted. -/
theorem Accounted.counted_perm (hd : ¬ c.Pending InDispatch) :
    c.shared.counted.Perm (carried Message.stats? c.shared.log) := by
  rw [List.perm_iff_count]
  intro m
  have hload : c.load (undelivered .packetStats Message.stats? m) = 0 := by
    refine load_eq_zero_of_not_pending hd fun a hnot => ?_
    cases a <;> first | rfl | exact absurd trivial hnot
  rw [hc.delivered.stats m, hload, add_zero]

/-- Between dispatches the snapshot counts the messages published. -/
theorem Accounted.metrics (hd : ¬ c.Pending InDispatch) :
    c.shared.stats.snapshotAt.ingress_packets.toNat = (rxIds c.shared.log).length % 2 ^ 64 ∧
      c.shared.stats.snapshotAt.terminal_events.toNat =
        (terminalIds c.shared.log).toFinset.card % 2 ^ 64 := by
  have hperm := hc.counted_perm hd
  have hm := hc.delivered.metrics_eq
  refine ⟨?_, ?_⟩
  · rw [hm.ingress_packets, (hperm.filterMap _).length_eq, rxIds_eq, List.length_map]
  · rw [hm.terminal_events, terminalIds_eq]
    exact congrArg (fun x => Finset.card x % 2 ^ 64)
      (List.toFinset_eq_of_perm _ _ ((hperm.filterMap _).map _))

/-- The producers publish no more than the ids there are. -/
theorem Accounted.length_le : (rxIds c.shared.log).length + (rejectedIds c.shared.log).length ≤
    requests.countP Request.isDatagram + (requests.flatMap Request.chosenIds).length := by
  obtain ⟨g, -, hread, hissued⟩ := hc.issued
  have hperm : (producedIds c.shared.log).Perm (rxIds c.shared.log ++ rejectedIds c.shared.log) := by
    rw [List.perm_iff_count]
    intro L
    rw [List.count_append, (log_counts hc.within.log L).1]
  have hsub : (producedIds c.shared.log).Subperm
      (generated g ++ requests.flatMap Request.chosenIds) := by
    rw [List.subperm_ext_iff]
    intro L _
    rw [List.count_append]
    have := hissued L
    omega
  have hlen := hsub.length_le
  rw [hperm.length_eq, List.length_append, List.length_append, generated, List.length_map,
    List.length_range] at hlen
  omega

end Accounted

/-- Lifecycles in flight and lifecycles with an outcome are together those opened or rejected. -/
theorem Distinct.card (h : Distinct log) :
    ((rxIds log).toFinset \ (terminalIds log).toFinset).card + (terminalIds log).toFinset.card =
      (rxIds log).length + (rejectedIds log).length := by
  have hunion : (rxIds log).toFinset ∪ (terminalIds log).toFinset =
      (rxIds log).toFinset ∪ (rejectedIds log).toFinset := by
    ext L
    simp only [Finset.mem_union, List.mem_toFinset]
    constructor
    · rintro (hL | hL)
      · exact Or.inl hL
      · exact h.opened L hL
    · rintro (hL | hL)
      · exact Or.inl hL
      · exact Or.inr (h.rejected_terminal L hL)
  have hdisj : Disjoint (rxIds log).toFinset (rejectedIds log).toFinset := by
    rw [Finset.disjoint_right]
    intro L hL
    rw [List.mem_toFinset] at hL ⊢
    exact h.rejected_rx L hL
  rw [Finset.card_sdiff_add_card, hunion, Finset.card_union_of_disjoint hdisj,
    List.toFinset_card_of_nodup h.rx, List.toFinset_card_of_nodup h.rejected]

/-- Nothing is rejected as long as every datagram is accepted. -/
theorem rejectedIds_eq_nil (hlog : ∀ x ∈ log, Publishes x.1 x.2) : rejectedIds log = [] ↔
    ∀ d msg, (Source.receiver (.datagram d), msg) ∈ log → UdpReceiver.accepts d = true := by
  rw [rejectedIds, List.filterMap_eq_nil_iff]
  constructor
  · intro h d msg hmem
    obtain ⟨gen, clock, hmsg⟩ := hlog _ hmem
    have hnone : msg.terminal?.map Terminal.lifecycle_id = none := h _ hmem
    have hmsg : UdpReceiver.datagramMessage d gen clock = msg := Option.some.inj hmsg
    rw [← hmsg, (datagramMessage_ids d gen clock).2] at hnone
    by_contra hacc
    rw [if_neg hacc] at hnone
    cases hnone
  · rintro h ⟨src, msg⟩ hmem
    cases src with
    | receiver recv =>
      obtain ⟨gen, clock, hmsg⟩ := hlog _ hmem
      cases recv with
      | datagram d =>
        have hmsg : UdpReceiver.datagramMessage d gen clock = msg := Option.some.inj hmsg
        show msg.terminal?.map Terminal.lifecycle_id = none
        rw [← hmsg, (datagramMessage_ids d gen clock).2, if_pos (h d _ hmem)]
      | wouldBlock =>
        cases hmsg
        rfl
      | _ => cases hmsg
    | _ => rfl

theorem snapshotAt_pending (s : PacketStats) : s.snapshotAt.pending_terminal_events =
    if s.snapshotAt.ingress_packets > s.snapshotAt.terminal_events then
      s.snapshotAt.ingress_packets - s.snapshotAt.terminal_events
    else 0 := by
  rw [PacketStats.snapshotAt_eq]
  rfl

/-- Between dispatches a snapshot reports the packets in flight if and only if every datagram that
was handled had been accepted. -/
theorem snapshotAt_inFlight_iff (hs : Wired subs) {reads : List RecvResult}
    (hlen : reads.length < 2 ^ 64)
    (h : Reaches program anyStep
      (ingress subs cfg engine transport (reads.map Request.readable)) c)
    (hd : ¬ c.Pending InDispatch) :
    InFlightAccounted c.shared.stats.snapshotAt c.shared.log ↔
      ∀ d msg, (Source.receiver (.datagram d), msg) ∈ c.shared.log →
        UdpReceiver.accepts d = true := by
  have hc := accounted_of_reaches hs h
  have hchosen : (reads.map Request.readable).flatMap Request.chosenIds = [] := by
    rw [List.flatMap_eq_nil_iff]
    intro request hr
    obtain ⟨recv, -, rfl⟩ := List.mem_map.1 hr
    rfl
  have hreads : (reads.map Request.readable).countP Request.isDatagram < 2 ^ 64 :=
    lt_of_le_of_lt List.countP_le_length (by rwa [List.length_map])
  have hdistinct : Distinct c.shared.log := hc.distinct fun g hg L => by
    rw [hchosen, List.count_nil, add_zero]
    exact List.nodup_iff_count_le_one.1 (nodup_generated (by omega)) L
  have hle := hc.length_le
  rw [hchosen, List.length_nil, add_zero] at hle
  have hcard := hdistinct.card
  obtain ⟨hingress, hterminal⟩ := hc.metrics hd
  rw [Nat.mod_eq_of_lt (by omega)] at hingress hterminal
  rw [← rejectedIds_eq_nil hc.within.log, ← List.length_eq_zero_iff]
  have hpending := snapshotAt_pending c.shared.stats
  constructor
  · rintro ⟨hpend, hbal⟩
    omega
  · intro hrej
    have hpend : c.shared.stats.snapshotAt.pending_terminal_events.toNat =
        ((rxIds c.shared.log).toFinset \ (terminalIds c.shared.log).toFinset).card := by
      rw [hpending]
      split_ifs with hgt
      · rw [UInt64.toNat_sub_of_le _ _ (UInt64.le_of_lt hgt)]
        omega
      · have hle := UInt64.le_iff_toNat_le.1 (UInt64.not_lt.1 hgt)
        rw [UInt64.toNat_zero]
        omega
    exact ⟨hpend, by omega⟩

/-- One accepted datagram in the queue is one lifecycle in flight. -/
theorem snapshotAt_inFlight_one : ∃ c,
    Reaches program anyStep (ingress [.packetProcessor, .packetStats] {} none none
      [.readable (.datagram (localDatagram "id=1;payload=ping"))]) c ∧
    ¬ c.Pending InDispatch ∧ c.shared.queue.length = 1 ∧
    InFlightAccounted c.shared.stats.snapshotAt c.shared.log := by
  have hplay : ∃ c, play program anyStep
      [(1, {}), (1, {}), (1, {}), (1, {}), (1, {}), (1, {})]
      (ingress [.packetProcessor, .packetStats] {} none none
        [.readable (.datagram (localDatagram "id=1;payload=ping"))]) = some c ∧
      c.threads = [[.processLoop], []] ∧ c.shared.queue.length = 1 ∧
      c.shared.log.map Prod.fst =
        [.receiver (.datagram (localDatagram "id=1;payload=ping"))] := ⟨_, rfl, rfl, rfl, rfl⟩
  obtain ⟨c, hplay, hthreads, hqueue, hlog⟩ := hplay
  have hr := reaches_of_play hplay
  have hd : ¬ c.Pending InDispatch := by simp [Config.Pending, hthreads, InDispatch]
  have hs : Wired [.packetProcessor, .packetStats] := ⟨by decide, by decide, by simp⟩
  have hlen : [RecvResult.datagram (localDatagram "id=1;payload=ping")].length < 2 ^ 64 := by decide
  refine ⟨c, hr, hd, hqueue, (snapshotAt_inFlight_iff hs hlen hr hd).2 ?_⟩
  intro d msg hmem
  have hsrc := List.mem_map_of_mem (f := Prod.fst) hmem
  rw [hlog, List.mem_singleton] at hsrc
  cases hsrc
  decide

/-- A rejected datagram hides a packet in flight. -/
theorem inFlight_masked : ∃ c,
    Reaches program anyStep (ingress [.packetProcessor, .packetStats] {} none none
      [.readable (.datagram (localDatagram "payload=ping")),
        .readable (.datagram (localDatagram "id=1;payload=ping"))]) c ∧
    ¬ c.Pending InDispatch ∧ ¬ InFlightAccounted c.shared.stats.snapshotAt c.shared.log := by
  have hplay : ∃ c, play program anyStep (List.replicate 9 (1, {}))
      (ingress [.packetProcessor, .packetStats] {} none none
        [.readable (.datagram (localDatagram "payload=ping")),
          .readable (.datagram (localDatagram "id=1;payload=ping"))]) = some c ∧
      c.threads = [[.processLoop], []] ∧
      c.shared.stats.snapshotAt.pending_terminal_events = 0 ∧
      ((rxIds c.shared.log).toFinset \ (terminalIds c.shared.log).toFinset).card = 1 :=
    ⟨_, rfl, rfl, rfl, by decide⟩
  obtain ⟨c, hplay, hthreads, hpending, hcard⟩ := hplay
  refine ⟨c, reaches_of_play hplay, by simp [Config.Pending, hthreads, InDispatch], fun h => ?_⟩
  have := h.pending
  rw [hpending, hcard] at this
  cases this

end Runtime

end EdgeNetSwitch
