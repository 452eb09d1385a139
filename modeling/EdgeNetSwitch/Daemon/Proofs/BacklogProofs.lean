import EdgeNetSwitch.Daemon.Backlog
import EdgeNetSwitch.Daemon.Proofs.PendingProofs

/-!
# Proofs: `processing_gap` and the outstanding backlog

Three balances carry the result: between the packets of the publishers and the `PacketRx` messages published
(`Published`), between these and the outcomes (`inFlight_balance`), and between the messages published and
those counted (`Delivered`). Together they give the gap in every state (`Tracked.processing_gap`): a packet that
was dropped stays in it.
-/

namespace EdgeNetSwitch

namespace Runtime

open Threads PacketProcessor StatsMessage Terminal

variable {s s' : Runtime} {a : Action} {w : Env} {k : List Action} {c d : Config Runtime Action}
  {log : List (Source × Message)} {subs : List Subscriber} {cfg : FailureConfig}
  {engine : Option SwitchForwardingEngine} {transport : Option TransportManager}
  {publishers : List (List Publication)} {φ : Config Runtime Action → Action → Prop}

/-! ## The actions of such a run -/

/-- The processor publishes no `PacketRx` message, and the others no terminal message. -/
def Announces (src : Source) (msg : Message) : Prop :=
  if src = .processor ∨ src = .worker then rxId? msg = none else msg.terminal? = none

/-- The actions of a run in which packets are published. -/
def OfPublishing : Action → Prop
  | .publish src msg => Announces src msg
  | .deliver (.client _) _ => False
  | .deliver _ _ | .inject _ | .enqueue _ _ | .processLoop | .processPacket _ | .transmit _ _
  | .appendRecord _ | .appendOutcome _ => True
  | _ => False

theorem rxId?_of_processPacket {p : Packet} {src : Source} {msg : Message}
    (h : Leaves (.processPacket p) (.publish src msg)) : src = .worker ∧ rxId? msg = none := by
  cases src <;> first | exact h.elim | skip
  rcases h with ⟨reason, t, rfl⟩ | rfl | ⟨decision, rfl⟩ <;> exact ⟨rfl, rfl⟩

theorem ofPublishing_of_leaves {b : Action} (h : Leaves a b) (ha : OfPublishing a)
    (hclient : ∀ type msg, b ≠ .deliver (.client type) msg) : OfPublishing b := by
  cases a with
  | publish src msg =>
    cases b with
    | deliver sub m => cases sub <;> first | trivial | exact absurd rfl (hclient _ _)
    | _ => exact h.elim
  | deliver sub msg => cases sub <;> cases b <;> trivial
  | inject p | enqueue p t =>
    cases b <;> first | trivial | exact h.elim | skip
    rename_i src msg
    cases src <;> first | exact h.elim | skip
    obtain ⟨reason, t, rfl⟩ := h
    simp [OfPublishing, Announces, rxId?, Message.packetRx?, dropMessage]
  | processPacket p =>
    cases b <;> first | trivial | exact h.elim | skip
    obtain ⟨rfl, hrx⟩ := rxId?_of_processPacket h
    show Announces _ _
    rw [Announces, if_pos (Or.inr rfl)]
    exact hrx
  | _ => cases b <;> trivial

theorem confined_ofPublishing : Confined OfPublishing :=
  ⟨fun hl ha hb => ofPublishing_of_leaves hl ha hb, fun _ h => h, fun _ h => h⟩

/-- What a callback or the worker leaves carries no packet to come in. -/
theorem rxId?_of_leaves {src : Source} {msg : Message} (ha : OfPublishing a)
    (h : Leaves a (.publish src msg)) : rxId? msg = none := by
  cases a with
  | deliver sub m =>
    cases sub <;> first | exact h.elim | exact ha.elim
  | inject p | enqueue p t =>
    cases src <;> first | exact h.elim | skip
    obtain ⟨reason, t, rfl⟩ := h
    rfl
  | processPacket p => exact (rxId?_of_processPacket h).2
  | _ => first | exact h.elim | exact ha.elim

/-! ## What is published -/

/-- The lifecycle `L` in a `PacketRx` message about to be published. -/
def announcing (L : UInt64) : Action → ℕ
  | .publish _ msg => if rxId? msg = some L then 1 else 0
  | _ => 0

theorem exec_announces (ha : OfPublishing a) (h : exec a w s = some (s', k)) (L : UInt64) :
    (rxIds s'.log).count L + weight (announcing L) k = (rxIds s.log).count L + announcing L a := by
  have hw : weight (announcing L) k = 0 := weight_eq_zero fun b hb => by
    cases b <;> first | rfl | skip
    simp [announcing, rxId?_of_leaves ha (exec_leaves h _ hb)]
  rw [hw, add_zero]
  by_cases hpub : ∃ src msg, a = .publish src msg
  · obtain ⟨src, msg, rfl⟩ := hpub
    rw [(exec_publish h).1]
    exact carried_append rxId? _ _ _ _
  · have hpub : ∀ src msg, a ≠ .publish src msg := fun src msg ha => hpub ⟨src, msg, ha⟩
    rw [(exec_frame h).log hpub]
    cases a <;> first | rfl | exact absurd rfl (hpub _ _)

/-- The packets published, and those about to be, are those of the publishers. -/
def Published (publishers : List (List Publication)) (c : Config Runtime Action) : Prop :=
  ∀ L, (publishers.flatten.map Publication.lifecycle_id).count L =
    (rxIds c.shared.log).count L + c.load (announcing L)

theorem Published.step (ha : OfPublishing a) (hc : Published publishers c)
    (h : Step program c a d) : Published publishers d := by
  obtain ⟨o, k, he, hr⟩ := step_spec h
  intro L
  exact hr.balance (δ := 0) (hc L) rfl (exec_announces ha he L)

/-- What holds of such a run in every interleaving. -/
structure Tracked (subs : List Subscriber) (publishers : List (List Publication))
    (c : Config Runtime Action) : Prop where
  within : Within OfPublishing subs c
  delivered : Delivered c
  published : Published publishers c
  conserved : ∀ L, (c.shared.taken.map Packet.lifecycle_id).count L =
    (terminated c.shared.log).count L + inFlight L c

theorem mem_publishers {t : List Action} (ht : t ∈ publishers.map (List.map Publication.action))
    (ha : a ∈ t) : ∃ x : Publication, a = x.action := by
  obtain ⟨l, -, rfl⟩ := List.mem_map.1 ht
  obtain ⟨x, -, rfl⟩ := List.mem_map.1 ha
  exact ⟨x, rfl⟩

theorem within_publishing :
    Within OfPublishing subs (publishing subs cfg engine transport publishers) := by
  refine within_start trivial fun t ht a ha => ?_
  obtain ⟨x, rfl⟩ := mem_publishers ht ha
  show Announces _ _
  rw [Announces, if_neg (by simpa [not_or] using x.outside)]
  rfl

theorem delivered_publishing : Delivered (publishing subs cfg engine transport publishers) := by
  refine delivered_start fun t ht a ha sub msg => ?_
  obtain ⟨x, rfl⟩ := mem_publishers ht ha
  exact Action.noConfusion

theorem published_publishing :
    Published publishers (publishing subs cfg engine transport publishers) := by
  intro L
  show _ = 0 + _
  rw [Nat.zero_add, publishing, start, load_mk_cons]
  show _ = 0 + _
  rw [Nat.zero_add]
  induction publishers with
  | nil => rfl
  | cons l publishers ih =>
    have hl : weight (announcing L) (l.map Publication.action) =
        (l.map Publication.lifecycle_id).count L := by
      induction l with
      | nil => rfl
      | cons x l ih =>
        rw [List.map_cons, weight_cons, ih, List.map_cons, List.count_cons, Nat.add_comm]
        simp [announcing, Publication.action, Publication.message, Publication.lifecycle_id,
          rxId?, Message.packetRx?]
    rw [List.flatten_cons, List.map_append, List.count_append, ih, List.map_cons, load_mk_cons, hl]

theorem tracked_of_reaches (hs : Wired subs)
    (h : Reaches program φ (publishing subs cfg engine transport publishers) c) :
    Tracked subs publishers c := by
  have hcallers : ∀ t ∈ publishers.map (List.map Publication.action), ∀ a ∈ t, IsCall a := by
    intro t ht a ha
    obtain ⟨x, rfl⟩ := mem_publishers ht ha
    exact x.outside
  have hinv : Within OfPublishing subs c ∧ Delivered c ∧ Published publishers c := by
    refine h.invariant
      (I := fun c => Within OfPublishing subs c ∧ Delivered c ∧ Published publishers c) ?_ ?_
    · exact ⟨within_publishing, delivered_publishing, published_publishing⟩
    · rintro c a d ⟨hin, hdel, hpub⟩ - hstep
      obtain ⟨o, k, he, hr⟩ := step_spec hstep
      exact ⟨hin.step confined_ofPublishing hs.client hstep,
        hdel.step hs hin.subscribers hin.destroyed hstep, hpub.step (hin.action hr) hstep⟩
  exact ⟨hinv.1, hinv.2.1, hinv.2.2, inFlight_balance hcallers h⟩

/-! ## Counting messages -/

theorem length_filterMap_packetRx? (h : List StatsMessage) :
    (h.filterMap StatsMessage.packetRx?).length = h.countP isPacketRx := by
  rw [List.length_filterMap_eq_countP]
  refine List.countP_congr fun m _ => ?_
  cases m <;> simp [StatsMessage.packetRx?, isPacketRx]

theorem length_terminals (h : List StatsMessage) :
    (terminals h).length = h.countP isProcessed + h.countP isDropped := by
  induction h with
  | nil => rfl
  | cons m h ih =>
    rw [List.countP_cons, List.countP_cons]
    rcases m with p | (p | d) | _
    · exact ih
    · have hcons : terminals (.terminal (.processed p) :: h) = .processed p :: terminals h := rfl
      rw [hcons, List.length_cons, ih]
      simp [isProcessed, isDropped]
      omega
    · have hcons : terminals (.terminal (.dropped d) :: h) = .dropped d :: terminals h := rfl
      rw [hcons, List.length_cons, ih]
      simp [isProcessed, isDropped]
      omega
    · exact ih

/-- When every lifecycle has one outcome, every `PacketProcessed` message counts. -/
theorem length_processed {h : List StatsMessage}
    (hn : ((terminals h).map Terminal.lifecycle_id).Nodup) :
    (StatsMessage.processed h).length = h.countP isProcessed := by
  rw [StatsMessage.processed, firsts_of_nodup hn, terminals, List.filterMap_filterMap,
    List.length_filterMap_eq_countP]
  refine List.countP_congr fun m _ => ?_
  rcases m with p | (p | d) | _ <;> simp [StatsMessage.terminal?, processed?, isProcessed]

/-- What was published for the statistics is what they have counted and what is on its way to them. -/
theorem Delivered.told_eq (hc : Delivered c) :
    (told c.shared.log : Multiset StatsMessage) = c.shared.counted + c.load late := by
  ext m
  have hlate : ∀ a, (late a).count m = undelivered .packetStats Message.stats? m a := by
    intro a
    cases a with
    | deliver sub msg =>
      cases sub <;> simp [late, undelivered, count_toList]
    | _ => simp [late, undelivered]
  have hload := map_load (Multiset.countAddMonoidHom m) late c
  simp only [Multiset.coe_countAddMonoidHom, hlate] at hload
  rw [Multiset.count_add, Multiset.coe_count, Multiset.coe_count, hload]
  exact hc.stats m

theorem Delivered.countP_told (hc : Delivered c) (p : StatsMessage → Bool) :
    (told c.shared.log).countP p =
      c.shared.counted.countP p + (c.load late).countP (p ·) := by
  have h := congrArg (Multiset.countP (p ·)) hc.told_eq
  rw [Multiset.countP_add, Multiset.coe_countP, Multiset.coe_countP] at h
  simpa using h

theorem Delivered.counted_subperm (hc : Delivered c) :
    c.shared.counted.Subperm (carried Message.stats? c.shared.log) := by
  rw [List.subperm_ext_iff]
  intro m _
  have := hc.stats m
  omega

theorem length_rxIds (log : List (Source × Message)) :
    (rxIds log).length = (told log).countP isPacketRx := by
  rw [rxIds_eq, List.length_map, length_filterMap_packetRx?]
  rfl

theorem length_terminalIds (log : List (Source × Message)) :
    (terminalIds log).length = (told log).countP isProcessed + drops log := by
  rw [terminalIds_eq, List.length_map, length_terminals]
  rfl

theorem snapshotAt_processing_gap (s : PacketStats) : s.snapshotAt.processing_gap =
    if s.snapshotAt.ingress_packets ≥ s.snapshotAt.processed_packets then
      s.snapshotAt.ingress_packets - s.snapshotAt.processed_packets
    else 0 := by
  rw [PacketStats.snapshotAt_eq]
  rfl

/-! ## Lifecycles -/

/-- Only the processor ends a lifecycle. -/
theorem terminalIds_eq_terminated (h : ∀ x ∈ log, OfPublishing (.publish x.1 x.2)) :
    terminalIds log = terminated log := by
  refine List.filterMap_congr fun x hx => ?_
  have hx : Announces x.1 x.2 := h x hx
  unfold Announces at hx
  split_ifs at hx with hsrc
  · rw [if_pos hsrc]
  · rw [if_neg hsrc, hx]
    rfl

section Tracked

variable (hc : Tracked subs publishers c) (hp : DistinctLifecycles publishers)

include hc

theorem Tracked.subperm :
    (rxIds c.shared.log).Subperm (publishers.flatten.map Publication.lifecycle_id) := by
  rw [List.subperm_ext_iff]
  intro L _
  have := hc.published L
  omega

theorem Tracked.terminal_le (L : UInt64) :
    (terminalIds c.shared.log).count L ≤ (rxIds c.shared.log).count L := by
  rw [terminalIds_eq_terminated hc.within.log]
  exact hc.delivered.terminated_le (hc.conserved L)

/-- An idle processor has ended every lifecycle it was given. -/
theorem Tracked.outstanding_of_idle (hi : Idle c) : outstanding c.shared.log = ∅ := by
  obtain ⟨hqueue, hdispatch, hworker⟩ := hi
  have hload : ∀ f : Action → ℕ, (∀ a, ¬ InDispatch a → ¬ OfWorker a → f a = 0) → c.load f = 0 := by
    intro f hf
    refine load_eq_zero fun t ht a ha => hf a (fun h => hdispatch ⟨t, ht, a, ha, h⟩)
      fun h => hworker ⟨t, ht, a, ha, h⟩
  rw [outstanding, Finset.sdiff_eq_empty_iff_subset]
  intro L hL
  rw [List.mem_toFinset, ← List.count_pos_iff] at hL ⊢
  have hrx : (rxIds c.shared.log).count L = _ := hc.delivered.processor L
  rw [hload _ fun a hd _ => ?_, hc.conserved L, inFlight, hqueue,
    hload _ fun a hd hw => ?_] at hrx
  · rw [terminalIds_eq_terminated hc.within.log]
    simp at hrx
    omega
  · cases a <;> first | rfl | exact absurd trivial hd | exact absurd trivial hw | skip
    rename_i src msg
    cases src <;> first | rfl | exact absurd trivial hd | exact absurd trivial hw
  · cases a <;> first | rfl | exact absurd trivial hd

include hp

theorem Tracked.nodup_rxIds : (rxIds c.shared.log).Nodup := by
  obtain ⟨l, hperm, hsub⟩ := hc.subperm
  exact hperm.nodup_iff.1 (hp.nodup.sublist hsub)

theorem Tracked.length_rxIds_lt : (rxIds c.shared.log).length < 2 ^ 64 := by
  have hle := hc.subperm.length_le
  rw [List.length_map] at hle
  have := hp.bounded
  omega

theorem Tracked.nodup_terminalIds : (terminalIds c.shared.log).Nodup := by
  rw [List.nodup_iff_count_le_one]
  intro L
  have hle := hc.terminal_le L
  have := List.nodup_iff_count_le_one.1 (hc.nodup_rxIds hp) L
  omega

/-- The packets outstanding are those published that were neither processed nor dropped. -/
theorem Tracked.card_outstanding :
    (outstanding c.shared.log).card + (told c.shared.log).countP isProcessed + drops c.shared.log =
      (told c.shared.log).countP isPacketRx := by
  have hsub : (terminalIds c.shared.log).toFinset ⊆ (rxIds c.shared.log).toFinset := by
    intro L hL
    rw [List.mem_toFinset, ← List.count_pos_iff] at hL ⊢
    have := hc.terminal_le L
    omega
  have hcard : (outstanding c.shared.log).card + (terminalIds c.shared.log).toFinset.card =
      (rxIds c.shared.log).toFinset.card := Finset.card_sdiff_add_card_eq_card hsub
  rw [List.toFinset_card_of_nodup (hc.nodup_rxIds hp),
    List.toFinset_card_of_nodup (hc.nodup_terminalIds hp), length_rxIds, length_terminalIds] at hcard
  omega

/-- What a snapshot reports, in every state. -/
theorem Tracked.processing_gap : c.shared.stats.snapshotAt.processing_gap.toNat =
    (outstanding c.shared.log).card + drops c.shared.log +
      (c.load late).countP (StatsMessage.isProcessed ·) -
        (c.load late).countP (StatsMessage.isPacketRx ·) := by
  have hcard := hc.card_outstanding hp
  have hlt := hc.length_rxIds_lt hp
  rw [length_rxIds] at hlt
  have hrx := hc.delivered.countP_told isPacketRx
  have hprocessed := hc.delivered.countP_told isProcessed
  have hnodup : ((terminals c.shared.counted).map Terminal.lifecycle_id).Nodup := by
    have hn := hc.nodup_terminalIds hp
    rw [terminalIds_eq] at hn
    obtain ⟨l, hperm, hsub⟩ := hc.delivered.counted_subperm
    exact ((hperm.filterMap _).map _).nodup_iff.1
      (hn.sublist ((hsub.filterMap _).map Terminal.lifecycle_id))
  have hm := hc.delivered.metrics_eq
  have hingress := hm.ingress_packets
  have hdone := hm.processed_packets
  rw [length_filterMap_packetRx?, Nat.mod_eq_of_lt (by omega)] at hingress
  rw [length_processed hnodup, Nat.mod_eq_of_lt (by omega)] at hdone
  rw [snapshotAt_processing_gap]
  split_ifs with hge
  · rw [UInt64.toNat_sub_of_le _ _ hge, hingress, hdone]
    omega
  · rw [ge_iff_le, UInt64.le_iff_toNat_le, hingress, hdone] at hge
    rw [UInt64.toNat_zero]
    omega

end Tracked

/-- Between dispatches nothing is on its way to the statistics. -/
theorem load_late_eq_zero (hd : ¬ c.Pending InDispatch) : c.load late = 0 := by
  refine load_eq_zero_of_not_pending hd fun a hnot => ?_
  cases a <;> first | rfl | exact absurd trivial hnot

/-- In every state of every such run `processing_gap` is the outstanding backlog if and only if the packets
dropped are offset by messages on their way; between dispatches, if and only if no packet was dropped. -/
theorem backlogReported_iff (hs : Wired subs) (hp : DistinctLifecycles publishers)
    (h : Reaches program anyStep (publishing subs cfg engine transport publishers) c) :
    (BacklogReported c ↔ Offset c) ∧
      (¬ c.Pending InDispatch → (Offset c ↔ drops c.shared.log = 0)) := by
  have hc := tracked_of_reaches hs h
  have hgap := hc.processing_gap hp
  refine ⟨⟨fun hb => ?_, fun ho => ?_⟩, fun hd => ?_⟩
  · have hbacklog := hb.backlog
    unfold Offset
    rw [← Finset.card_eq_zero]
    omega
  · unfold Offset at ho
    rw [← Finset.card_eq_zero] at ho
    have hbacklog : c.shared.stats.snapshotAt.processing_gap.toNat =
        (outstanding c.shared.log).card := by
      omega
    refine ⟨hbacklog, fun hi => ?_⟩
    rw [hc.outstanding_of_idle hi, Finset.card_empty] at hbacklog
    exact UInt64.toNat_inj.1 hbacklog
  · simp [Offset, load_late_eq_zero hd]
    omega

/-- A packet of the given lifecycle and time. -/
def publication (lifecycle_id timestamp_ms : UInt64) : Publication where
  source := .publisher
  timestamp_ms := timestamp_ms
  packet := { lifecycle_id, timestamp_ms }
  outside := by simp

/-- One packet processed and one in the queue. -/
theorem backlogReported_one : ∃ c,
    Reaches program anyStep (publishing [.packetProcessor, .packetStats] {} none none
      [[publication 1 5, publication 2 6]]) c ∧
    BacklogReported c ∧ (outstanding c.shared.log).card = 1 := by
  have hplay : ∃ c, play program anyStep
      ([1, 1, 1, 1, 1, 0, 0, 0, 0, 1, 1, 1, 1, 1].map fun i => (i, ({} : Env)))
      (publishing [.packetProcessor, .packetStats] {} none none
        [[publication 1 5, publication 2 6]]) = some c ∧
      c.threads = [[.processLoop], []] ∧ drops c.shared.log = 0 ∧
      (outstanding c.shared.log).card = 1 := ⟨_, rfl, rfl, rfl, by decide⟩
  obtain ⟨c, hplay, hthreads, hdrops, hcard⟩ := hplay
  have hr := reaches_of_play hplay
  have hd : ¬ c.Pending InDispatch := by simp [Config.Pending, hthreads, InDispatch]
  obtain ⟨hiff, hsettled⟩ := backlogReported_iff ⟨by decide, by decide, by simp⟩
    ⟨by decide, by decide⟩ hr
  exact ⟨c, hr, hiff.2 ((hsettled hd).2 hdrops), hcard⟩

/-- A packet without a timestamp is dropped by the worker, and stays in the gap of an idle processor. -/
theorem processing_gap_after_drop : ∃ c,
    Wired [.packetProcessor, .packetStats] ∧ DistinctLifecycles [[publication 1 0]] ∧
    Reaches program anyStep (publishing [.packetProcessor, .packetStats] {} none none
      [[publication 1 0]]) c ∧
    Idle c ∧ outstanding c.shared.log = ∅ ∧ c.shared.stats.snapshotAt.processing_gap = 1 ∧
    ¬ BacklogReported c := by
  have hplay : ∃ c, play program anyStep ([1, 1, 1, 1, 1, 0, 0, 0, 0].map fun i => (i, ({} : Env)))
      (publishing [.packetProcessor, .packetStats] {} none none [[publication 1 0]]) = some c ∧
      c.threads = [[.processLoop], []] ∧ c.shared.queue = [] ∧ outstanding c.shared.log = ∅ ∧
      c.shared.stats.snapshotAt.processing_gap = 1 := ⟨_, rfl, rfl, rfl, by decide, rfl⟩
  obtain ⟨c, hplay, hthreads, hqueue, hout, hgap⟩ := hplay
  have hi : Idle c :=
    ⟨hqueue, by simp [Config.Pending, hthreads, InDispatch], by simp [Config.Pending, hthreads, OfWorker]⟩
  refine ⟨c, ⟨by decide, by decide, by simp⟩, ⟨by decide, by decide⟩, reaches_of_play hplay, hi, hout,
    hgap, fun h => ?_⟩
  have := h.idle hi
  rw [hgap] at this
  cases this

end Runtime

end EdgeNetSwitch
