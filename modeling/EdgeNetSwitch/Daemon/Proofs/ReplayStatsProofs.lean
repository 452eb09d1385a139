import EdgeNetSwitch.Daemon.ReplayStats
import EdgeNetSwitch.Daemon.Proofs.BoundedQueueProofs
import EdgeNetSwitch.Daemon.Proofs.FlowProofs
import EdgeNetSwitch.Daemon.Proofs.IngressProofs
import Mathlib.Algebra.Order.Group.Multiset

/-!
# Proofs: a replay gives the same aggregates

The publishing thread is the only one that advances the injector, so what becomes of each packet is
settled by the order of publishing (`outcomesOf`), whatever the interleaving. In every state the
outcomes counted, queued, in hand and still to come are those (`Measured`), as a multiset; and the
aggregates depend on the multiset only, since every lifecycle has one outcome.
-/

namespace EdgeNetSwitch

namespace Runtime

open Threads PacketProcessor StatsMessage

variable {s s' : Runtime} {a b : Action} {w : Env} {k : List Action} {subs : List Subscriber}
  {c d : Config Runtime Action} {packets : List Packet} {i : FailureInjector}

/-! ## Outcomes counted and to come -/

/-- The outcomes an action has in hand. -/
def inHand : Action → Multiset Terminal
  | .publish _ msg | .deliver .packetStats msg => (msg.terminal?.map Terminal.untimed).toList
  | .enqueue p _ | .processPacket p => {classify p}
  | _ => 0

/-- The packets on their way to the injector. -/
def awaiting : Action → List Packet
  | .publish _ msg | .deliver .packetProcessor msg => msg.packetRx?.toList
  | .inject p => [p]
  | .replay records => records.map ReplayRecord.packet
  | _ => []

/-- The packets on their way to the count of `PacketRx` messages. -/
def arriving : Action → ℕ
  | .publish _ msg | .deliver .packetStats msg => msg.packetRx?.toList.length
  | .replay records => records.length
  | _ => 0

/-- The outcomes `PacketStats` has counted, and those of the packets in the queue. -/
def reached (s : Runtime) : Multiset Terminal :=
  (((terminals s.counted).map Terminal.untimed : List Terminal) : Multiset Terminal) +
    ((s.queue.map classify : List Terminal) : Multiset Terminal)

theorem type_of_terminal? {msg : Message} (h : msg.terminal? ≠ none) :
    msg.type ∈ Subscriber.types .packetStats := by
  refine type_of_stats? fun hn => h ?_
  rw [← stats?_terminal, hn]
  rfl

theorem filterMap_append_stats? {β : Type*} (f : StatsMessage → Option β) (msg : Message)
    (l : List StatsMessage) : (l ++ msg.stats?.toList).filterMap f =
      l.filterMap f ++ (msg.stats?.bind f).toList := by
  rw [List.filterMap_append]
  congr 1
  cases msg.stats? with
  | none => rfl
  | some m => cases h : f m <;> simp [h]

/-- The packets a message brings to the one processor. -/
theorem awaiting_publish (hs : Wired subs) (msg : Message) :
    ((subs.filter fun sub => msg.type ∈ sub.types).map (.deliver · msg)).flatMap awaiting =
      msg.packetRx?.toList := by
  have hother : ∀ sub, sub ≠ .packetProcessor → awaiting (.deliver sub msg) = [] := by
    intro sub hsub
    cases sub <;> first | rfl | exact absurd rfl hsub
  cases hrx : msg.packetRx? with
  | some p =>
    have htype := type_of_packetRx? (show msg.packetRx? ≠ none by simp [hrx])
    rw [flatMap_deliver awaiting hother _ (by simpa using htype) hs.packetProcessor.le,
      if_pos hs.packetProcessor]
    simp [awaiting, hrx]
  | none =>
    rw [flatMap_deliver_nil awaiting fun sub => ?_]
    · rfl
    · cases sub <;> simp [awaiting, hrx]

/-- A message with an outcome is left to the one `PacketStats`. -/
theorem inHand_publish (hs : Wired subs) (msg : Message) (src : Source) :
    weight inHand ((subs.filter fun sub => msg.type ∈ sub.types).map (.deliver · msg)) =
      inHand (.publish src msg) := by
  have hother : ∀ sub, sub ≠ .packetStats → inHand (.deliver sub msg) = 0 := by
    intro sub hsub
    cases sub <;> first | rfl | exact absurd rfl hsub
  rw [weight_deliver hother, hs.packetStats, one_nsmul]
  by_cases hterm : msg.terminal? = none
  · simp [inHand, hterm]
  · rw [if_pos (by simpa using type_of_terminal? hterm)]
    rfl

theorem arriving_publish (hs : Wired subs) (msg : Message) (src : Source) :
    weight arriving ((subs.filter fun sub => msg.type ∈ sub.types).map (.deliver · msg)) =
      arriving (.publish src msg) := by
  have hother : ∀ sub, sub ≠ .packetStats → arriving (.deliver sub msg) = 0 := by
    intro sub hsub
    cases sub <;> first | rfl | exact absurd rfl hsub
  rw [weight_deliver hother, hs.packetStats, one_nsmul]
  by_cases hrx : msg.packetRx? = none
  · simp [arriving, hrx]
  · have htype : msg.type ∈ Subscriber.types .packetStats := by
      have hp := type_of_packetRx? hrx
      have hrx' : msg.type = .packetRx := by simpa [Subscriber.types] using hp
      simp [Subscriber.types, hrx']
    rw [if_pos (by simpa using htype)]
    rfl

/-- What the worker leaves of a packet. -/
theorem weight_inHand_processPacket {p : Packet} (h : exec (.processPacket p) w s = some (s', k)) :
    weight inHand k = {classify p} := by
  have hout : weight inHand k = ((k.flatMap outcome : List Terminal) : Multiset Terminal) := by
    have hk := exec_leaves h
    clear h
    induction k with
    | nil => rfl
    | cons b k ih =>
      rw [weight_cons, List.flatMap_cons, ← Multiset.coe_add,
        ih fun x hx => hk x (List.mem_cons_of_mem _ hx)]
      congr 1
      have hb := hk b (by simp)
      cases b <;> first | rfl | exact hb.elim | skip
      rename_i src msg
      cases src <;> first | rfl | exact hb.elim
  rw [hout, flatMap_outcome h]
  rfl

theorem reached_of_frame (hframe : Frame a s s') (hdel : ∀ msg, a ≠ .deliver .packetStats msg)
    (henq : ∀ p t, a ≠ .enqueue p t) (hloop : a ≠ .processLoop) : reached s' = reached s := by
  rw [reached, reached, (hframe.stats hdel).2, hframe.queue henq hloop]

/-- What an action does to the outcomes: they pass from the packets to come (`rest` are those of the
other actions) to the actions that have them in hand, the queue and `PacketStats`. -/
theorem exec_outcomes (hs : Wired subs) (hsubs : s.subscribers = subs)
    (hdestroyed : s.destroyed = []) (ha : OnSource a ∨ OnWorker a)
    (hadm : ∀ p t, a = .enqueue p t → s.queue.length < maxQueueSize)
    (h : exec a w s = some (s', k)) (rest : List Packet) :
    reached s' + weight inHand k +
        ((outcomesOf s'.injector (k.flatMap awaiting ++ rest) : List Terminal) : Multiset Terminal) =
      reached s + inHand a +
        ((outcomesOf s.injector (awaiting a ++ rest) : List Terminal) : Multiset Terminal) := by
  have hframe := exec_frame h
  cases a with
  | publish src msg =>
    rw [reached_of_frame hframe (by simp) (by simp) (by simp), hframe.injector (by simp),
      (exec_publish h).2, hsubs, inHand_publish hs msg src, awaiting_publish hs]
    rfl
  | deliver sub msg =>
    have hcall := exec_deliver hdestroyed h
    rw [hframe.injector (by simp)]
    cases sub with
    | packetStats =>
      have hk : k = [] := by
        simp only [callback] at hcall
        split at hcall <;> exact (Prod.mk.inj hcall).2.symm
      have hcounted := counted_callback s msg w
      rw [hcall] at hcounted
      rw [reached, reached, hcounted, hframe.queue (by simp) (by simp), hk, terminals,
        filterMap_append_stats?, stats?_terminal, List.map_append, ← Multiset.coe_add]
      have hone : (msg.terminal?.toList.map Terminal.untimed : List Terminal) =
          (msg.terminal?.map Terminal.untimed).toList := by cases msg.terminal? <;> rfl
      rw [hone]
      show _ + 0 + _ = _ + inHand (.deliver .packetStats msg) + _
      simp only [inHand, awaiting, terminals, List.flatMap_nil, List.nil_append]
      abel
    | packetProcessor =>
      rw [reached_of_frame hframe (by simp) (by simp) (by simp)]
      simp only [callback] at hcall
      split at hcall <;> cases hcall
      · rename_i p hp
        simp [inHand, awaiting, hp]
      · rename_i hp
        simp [inHand, awaiting, hp]
    | client type => exact (ha.elim id id).elim
    | _ =>
      rw [reached_of_frame hframe (by simp) (by simp) (by simp)]
      simp only [callback] at hcall
      first | (split at hcall) | skip
      all_goals
        cases hcall
        simp [inHand, awaiting]
  | inject p =>
    rw [reached_of_frame hframe (by simp) (by simp) (by simp)]
    simp only [exec, Option.some.injEq, Prod.mk.injEq] at h
    obtain ⟨hs', rfl⟩ := h
    rw [← hs']
    show _ = reached s + 0 + ((outcomesOf s.injector (p :: rest) : List Terminal) : Multiset Terminal)
    rw [outcomesOf]
    by_cases hterm : (s.injector.inject p).1.is_terminal
    · rw [if_pos hterm, if_pos hterm, ← Multiset.cons_coe, ← Multiset.singleton_add, weight_cons,
        weight_nil]
      show reached s + ({.dropped ⟨_, 0, p.id, p.lifecycle_id⟩} + 0) +
        ((outcomesOf _ rest : List Terminal) : Multiset Terminal) = _
      abel
    · rw [if_neg hterm, if_neg hterm, ← Multiset.cons_coe, ← Multiset.singleton_add, weight_cons,
        weight_nil]
      show reached s + ({_} + 0) + ((outcomesOf _ rest : List Terminal) : Multiset Terminal) = _
      abel
  | enqueue p t =>
    have hlt := hadm p t rfl
    rw [hframe.injector (by simp)]
    rcases exec_enqueue h with ⟨hfull, -, -⟩ | ⟨-, rfl, rfl⟩
    · omega
    · simp only [reached, List.map_append, ← Multiset.coe_add, weight_nil, inHand, awaiting]
      simp [add_assoc]
  | processLoop =>
    rw [hframe.injector (by simp)]
    rcases exec_processLoop h with ⟨p, q, hq, rfl, rfl⟩ | ⟨-, -, rfl, rfl⟩
    · rw [reached, reached, hq, List.map_cons, ← Multiset.cons_coe, ← Multiset.singleton_add,
        weight_cons, weight_cons, weight_nil]
      show _ + ({classify p} + (0 + 0)) + ((outcomesOf _ rest : List Terminal) : Multiset Terminal) =
        _ + 0 + ((outcomesOf _ rest : List Terminal) : Multiset Terminal)
      abel
    · simp [reached, inHand, awaiting]
  | processPacket p =>
    have hk : k.flatMap awaiting = [] := by
      rw [List.flatMap_eq_nil_iff]
      intro b hb
      have hlb := exec_leaves h b hb
      cases b <;> first | rfl | exact hlb.elim | skip
      rename_i src msg
      cases src <;> first | exact hlb.elim | skip
      rcases hlb with ⟨reason, t, rfl⟩ | rfl | ⟨decision, rfl⟩ <;> rfl
    rw [reached_of_frame hframe (by simp) (by simp) (by simp), hframe.injector (by simp), hk,
      weight_inHand_processPacket h]
    rfl
  | replay records =>
    rw [reached_of_frame hframe (by simp) (by simp) (by simp), hframe.injector (by simp)]
    cases records <;> cases h <;> simp [inHand, awaiting, Message.packetRx?, Message.terminal?]
  | appendRecord r | appendOutcome o | transmit port p =>
    rw [reached_of_frame hframe (by simp) (by simp) (by simp), hframe.injector (by simp)]
    cases h
    rfl
  | _ => exact (ha.elim id id).elim

/-- The `PacketRx` messages counted, and those on their way. -/
theorem exec_arriving (hs : Wired subs) (hsubs : s.subscribers = subs)
    (hdestroyed : s.destroyed = []) (ha : OnSource a ∨ OnWorker a)
    (h : exec a w s = some (s', k)) :
    (s'.counted.filterMap StatsMessage.packetRx?).length + weight arriving k =
      (s.counted.filterMap StatsMessage.packetRx?).length + arriving a := by
  have hframe := exec_frame h
  by_cases hdel : ∃ msg, a = .deliver .packetStats msg
  · obtain ⟨msg, rfl⟩ := hdel
    have hcall := exec_deliver hdestroyed h
    have hk : k = [] := by
      simp only [callback] at hcall
      split at hcall <;> exact (Prod.mk.inj hcall).2.symm
    have hcounted := counted_callback s msg w
    rw [hcall] at hcounted
    rw [hcounted, filterMap_append_stats?, stats?_packetRx, hk, List.length_append]
    rfl
  · rw [(hframe.stats fun msg ha => hdel ⟨msg, ha⟩).2]
    congr 1
    cases a with
    | publish src msg =>
      rw [(exec_publish h).2, hsubs, arriving_publish hs msg src]
    | deliver sub msg =>
      rw [weight_eq_zero fun b hb => ?_]
      · cases sub <;> first | rfl | exact absurd ⟨_, rfl⟩ hdel
      · have hlb := exec_leaves h b hb
        cases sub <;> first | exact (ha.elim id id).elim | skip
        all_goals cases b <;> first | rfl | exact hlb.elim
    | inject p | enqueue p t =>
      rw [weight_eq_zero fun b hb => ?_]
      · rfl
      · have hlb := exec_leaves h b hb
        cases b <;> first | rfl | exact hlb.elim | skip
        rename_i src msg
        cases src <;> first | exact hlb.elim | skip
        obtain ⟨reason, t, rfl⟩ := hlb
        rfl
    | processPacket p =>
      rw [weight_eq_zero fun b hb => ?_]
      · rfl
      · have hlb := exec_leaves h b hb
        cases b <;> first | rfl | exact hlb.elim | skip
        rename_i src msg
        cases src <;> first | exact hlb.elim | skip
        rcases hlb with ⟨reason, t, rfl⟩ | rfl | ⟨decision, rfl⟩ <;> rfl
    | replay records =>
      cases records <;> cases h <;> simp [arriving, Message.packetRx?, Nat.add_comm]
    | processLoop | transmit port p | appendRecord r | appendOutcome o =>
      rw [weight_eq_zero fun b hb => ?_]
      · rfl
      · have hlb := exec_leaves h b hb
        cases b <;> first | rfl | exact hlb.elim
    | _ => exact (ha.elim id id).elim

/-! ## Whole runs -/

/-- A run in which one thread publishes `packets` to a bus with `subs`, begun with the injector `i`. -/
structure Measured (subs : List Subscriber) (i : FailureInjector) (packets : List Packet)
    (c : Config Runtime Action) : Prop where
  subscribers : c.shared.subscribers = subs
  destroyed : c.shared.destroyed = []
  counts : c.shared.stats.Counts c.shared.counted
  keyed : c.shared.stats.Keyed c.shared.counted
  arrived : (c.shared.counted.filterMap StatsMessage.packetRx?).length + c.load arriving =
    packets.length
  threads : ∃ tw tp, c.threads = [tw, tp] ∧ (∀ a ∈ tw, OnWorker a) ∧ (∀ a ∈ tp, OnSource a) ∧
    reached c.shared + c.load inHand + ((outcomesOf c.shared.injector (tp.flatMap awaiting) :
      List Terminal) : Multiset Terminal) = ((outcomesOf i packets : List Terminal) : Multiset Terminal) ∧
    (subs.count .replayRecorder = 1 →
      c.shared.recorder.records.map ReplayRecord.packet ++ tp.flatMap captured = packets)

theorem length_outcomesOf (i : FailureInjector) (packets : List Packet) :
    (outcomesOf i packets).length = packets.length := by
  induction packets generalizing i with
  | nil => rfl
  | cons p packets ih => rw [outcomesOf, List.length_cons, ih, List.length_cons]

theorem outcomesOf_lifecycle_id (i : FailureInjector) (packets : List Packet) :
    (outcomesOf i packets).map Terminal.lifecycle_id = packets.map Packet.lifecycle_id := by
  induction packets generalizing i with
  | nil => rfl
  | cons p packets ih =>
    have hclassify : (classify p).lifecycle_id = p.lifecycle_id := by
      unfold classify
      split_ifs <;> rfl
    rw [outcomesOf, List.map_cons, ih, List.map_cons]
    congr 1
    split_ifs
    · rfl
    · exact hclassify

/-- The worker brings no packet to the injector. -/
theorem awaiting_of_onWorker (ha : OnWorker a) : awaiting a = [] := by
  cases a with
  | publish src msg =>
    cases src <;> first | exact ha.elim | skip
    have hrx : msg.packetRx? = none := by
      by_contra hne
      have htype : msg.type = .packetRx := by simpa [Subscriber.types] using type_of_packetRx? hne
      rcases ha with ha | ha | ha <;> simp [ha] at htype
    simp [awaiting, hrx]
  | deliver sub msg =>
    cases sub <;> first | rfl | skip
    obtain ⟨ha | ha | ha, htype⟩ := ha <;> simp [ha, Subscriber.types] at htype
  | _ => first | rfl | exact ha.elim

theorem Measured.step (hs : Wired subs) (hlen : packets.length ≤ maxQueueSize)
    (hc : Measured subs i packets c) (h : Step program c a d) : Measured subs i packets d := by
  obtain ⟨tw, tp, hthreads, hworker, hsource, hout, hrec⟩ := hc.threads
  obtain ⟨w, k, he, hr⟩ := step_spec h
  have hframe := exec_frame he
  obtain ⟨x, hlc, hld⟩ := hr.load inHand
  have hclient : ∀ b ∈ k, ∀ type msg, b ≠ .deliver (.client type) msg := fun b hb =>
    not_deliver_client (fun type => hc.subscribers ▸ hs.client type) he hb
  have hroom : ∀ p t, a = .enqueue p t → c.shared.queue.length < maxQueueSize := by
    rintro p t rfl
    have hcard := congrArg Multiset.card hout
    have hone : (inHand (.enqueue p t)).card = 1 := Multiset.card_singleton _
    rw [hlc] at hcard
    simp only [reached, Multiset.card_add, Multiset.coe_card, List.length_map, hone,
      length_outcomesOf] at hcard
    omega
  -- what holds whichever thread moves
  have hshared : OnSource a ∨ OnWorker a → d.shared.subscribers = subs ∧ d.shared.destroyed = [] ∧
      d.shared.stats.Counts d.shared.counted ∧ d.shared.stats.Keyed d.shared.counted ∧
      (d.shared.counted.filterMap StatsMessage.packetRx?).length + d.load arriving =
        packets.length := by
    intro ha
    obtain ⟨y, hyc, hyd⟩ := hr.load arriving
    have harr := exec_arriving hs hc.subscribers hc.destroyed ha he
    have harrived := hc.arrived
    refine ⟨?_, ?_, ?_, ?_, by omega⟩
    · rw [hframe.subscribers (by rintro sub rfl; exact ha.elim id id), hc.subscribers]
    · rw [hframe.destroyed (by rintro o rfl; exact ha.elim id id), hc.destroyed]
    · rcases exec_stats hc.destroyed he with ⟨hstats, hcounted⟩ | ⟨m, hstats, hcounted⟩
      · rw [hstats, hcounted]
        exact hc.counts
      · rw [hstats, hcounted]
        exact hc.counts.onMessage _ _
    · rcases exec_stats hc.destroyed he with ⟨hstats, hcounted⟩ | ⟨m, hstats, hcounted⟩
      · rw [hstats, hcounted]
        exact hc.keyed
      · rw [hstats, hcounted]
        exact hc.keyed.onMessage hc.counts _ _
  rcases hr.two hthreads with ⟨rest, rfl, hd⟩ | ⟨rest, rfl, hd⟩
  · have ha := hworker a (by simp)
    have hk : ∀ b ∈ k, OnWorker b := fun b hb =>
      onWorker_of_leaves (exec_leaves he b hb) ha (hclient b hb)
    obtain ⟨h1, h2, h3, h4, h5⟩ := hshared (Or.inr ha)
    refine ⟨h1, h2, h3, h4, h5, _, _, hd, fun b hb => ?_, hsource, ?_, fun hcount => ?_⟩
    · rcases List.mem_append.1 hb with hb | hb
      · exact hk b hb
      · exact hworker b (List.mem_cons_of_mem _ hb)
    · have hexec := exec_outcomes hs hc.subscribers hc.destroyed (Or.inr ha) hroom he
        (tp.flatMap awaiting)
      have hnil : k.flatMap awaiting = [] :=
        List.flatMap_eq_nil_iff.2 fun b hb => awaiting_of_onWorker (hk b hb)
      rw [hnil, awaiting_of_onWorker ha, List.nil_append] at hexec
      rw [hld, ← hout, hlc, ← add_assoc, add_right_comm _ x, hexec]
      abel
    · rw [exec_recorder ha he]
      exact hrec hcount
  · have ha := hsource a (by simp)
    obtain ⟨h1, h2, h3, h4, h5⟩ := hshared (Or.inl ha)
    refine ⟨h1, h2, h3, h4, h5, _, _, hd, hworker, fun b hb => ?_, ?_, fun hcount => ?_⟩
    · rcases List.mem_append.1 hb with hb | hb
      · exact onSource_of_leaves (exec_leaves he b hb) ha (hclient b hb)
      · exact hsource b (List.mem_cons_of_mem _ hb)
    · have hexec := exec_outcomes hs hc.subscribers hc.destroyed (Or.inl ha) hroom he
        (rest.flatMap awaiting)
      rw [List.flatMap_cons] at hout
      rw [List.flatMap_append, hld, ← hout, hlc, ← add_assoc, add_right_comm _ x, hexec]
      abel
    · have hcaptured := hrec hcount
      rw [List.flatMap_cons, ← List.append_assoc] at hcaptured
      rw [List.flatMap_append, ← List.append_assoc,
        exec_captured hc.subscribers hc.destroyed hcount ha he]
      exact hcaptured

theorem arriving_of_onWorker (ha : OnWorker a) : arriving a = 0 := by
  cases a with
  | publish src msg =>
    have hrx := awaiting_of_onWorker ha
    show msg.packetRx?.toList.length = 0
    rw [show msg.packetRx?.toList = [] from hrx]
    rfl
  | deliver sub msg =>
    cases sub <;> first | rfl | skip
    have hrx : msg.packetRx? = none := by
      by_contra hne
      have htype : msg.type = .packetRx := by simpa [Subscriber.types] using type_of_packetRx? hne
      rcases ha.1 with ha | ha | ha <;> simp [ha] at htype
    simp [arriving, hrx]
  | _ => first | rfl | exact ha.elim

/-- When all packets have terminated, `PacketStats` has counted their outcomes. -/
theorem Measured.terminated (hc : Measured subs i packets c)
    (hids : (packets.map Packet.lifecycle_id).Nodup) (ht : AllTerminated packets c) :
    ((terminals c.shared.counted).map Terminal.untimed).Perm (outcomesOf i packets) ∧
      (c.shared.counted.filterMap StatsMessage.packetRx?).length = packets.length ∧
      (subs.count .replayRecorder = 1 →
        c.shared.recorder.records.map ReplayRecord.packet = packets) := by
  obtain ⟨tw, tp, hthreads, hworker, -, hout, hrec⟩ := hc.threads
  obtain ⟨hlast, hcompleted⟩ := ht
  rw [hthreads] at hlast
  obtain rfl : tp = [] := by simpa using hlast
  refine ⟨?_, ?_, fun hcount => ?_⟩
  · have hle : (((terminals c.shared.counted).map Terminal.untimed : List Terminal) :
        Multiset Terminal) ≤ ((outcomesOf i packets : List Terminal) : Multiset Terminal) := by
      rw [← hout, reached, add_assoc, add_assoc]
      exact Multiset.le_add_right _ _
    have hsub : (packets.map Packet.lifecycle_id).toFinset ⊆
        Terminal.lifecycles (terminals c.shared.counted) := by
      intro L hL
      obtain ⟨p, hp, rfl⟩ := List.mem_map.1 (List.mem_toFinset.1 hL)
      rw [← hc.counts.completed]
      exact hcompleted p hp
    have hcard := Finset.card_le_card hsub
    rw [List.toFinset_card_of_nodup hids, List.length_map] at hcard
    have hcard' := Terminal.card_lifecycles_le (terminals c.shared.counted)
    rw [← Multiset.coe_eq_coe]
    refine Multiset.eq_of_le_of_card_le hle ?_
    rw [Multiset.coe_card, Multiset.coe_card, length_outcomesOf, List.length_map]
    omega
  · have hload : c.load arriving = 0 := by
      refine load_eq_zero fun t ht a ha => ?_
      rw [hthreads] at ht
      rcases List.mem_pair.1 ht with rfl | rfl
      · exact arriving_of_onWorker (hworker a ha)
      · cases ha
    have harrived := hc.arrived
    omega
  · have hcaptured := hrec hcount
    rwa [List.flatMap_nil, List.append_nil] at hcaptured

/-! ## Aggregates -/

section Aggregates

open Terminal PacketStats

variable {l l' : List Terminal} {h h' : List StatsMessage} {p p' : PacketStats}

@[simp] theorem untimed_lifecycle_id (t : Terminal) : t.untimed.lifecycle_id = t.lifecycle_id := by
  cases t <;> rfl

theorem filterMap_untimed {β : Type*} (f : Terminal → Option β) (hf : ∀ t, f t.untimed = f t) :
    (l.map untimed).filterMap f = l.filterMap f := by
  rw [List.filterMap_map]
  exact List.filterMap_congr fun t _ => hf t

/-- Two histories with the same outcomes, one for each lifecycle, have the same counts. -/
theorem expected_of_perm (hn : ((terminals h).map lifecycle_id).Nodup)
    (hn' : ((terminals h').map lifecycle_id).Nodup)
    (hperm : ((terminals h).map untimed).Perm ((terminals h').map untimed)) :
    (processed h).Perm (processed h') ∧ (reasons h).Perm (reasons h') ∧
      (lifecycles (terminals h)).card = (lifecycles (terminals h')).card ∧
      (terminals h).length = (terminals h').length := by
  have hprocessed : ∀ t : Terminal, processed? t.untimed = processed? t := fun t => by
    cases t <;> rfl
  have hreason : ∀ t : Terminal, reason? t.untimed = reason? t := fun t => by
    cases t <;> rfl
  refine ⟨?_, ?_, ?_, ?_⟩
  · rw [StatsMessage.processed, StatsMessage.processed, firsts_of_nodup hn, firsts_of_nodup hn',
      ← filterMap_untimed _ hprocessed, ← filterMap_untimed (l := terminals h') _ hprocessed]
    exact hperm.filterMap _
  · rw [reasons, reasons, firsts_of_nodup hn, firsts_of_nodup hn',
      ← filterMap_untimed _ hreason, ← filterMap_untimed (l := terminals h') _ hreason]
    exact hperm.filterMap _
  · rw [← length_firsts, ← length_firsts, firsts_of_nodup hn, firsts_of_nodup hn']
    simpa using hperm.length_eq
  · simpa using hperm.length_eq

theorem sameAggregates_of_perm (hc : Counts p h) (hk : Keyed p h) (hc' : Counts p' h')
    (hk' : Keyed p' h') (hrx : (h.filterMap packetRx?).length = (h'.filterMap packetRx?).length)
    (hn : ((terminals h).map lifecycle_id).Nodup)
    (hperm : ((terminals h).map untimed).Perm ((terminals h').map untimed)) :
    p.snapshotAt.SameAggregates p'.snapshotAt := by
  have hn' : ((terminals h').map lifecycle_id).Nodup := by
    have hids := hperm.map lifecycle_id
    simp only [List.map_map, Function.comp_def, untimed_lifecycle_id] at hids
    exact hids.nodup_iff.1 hn
  obtain ⟨hprocessed, hreasons, hcard, hlen⟩ := expected_of_perm hn hn' hperm
  have hvalue : ∀ k : Counter, k.Counted → expected h k = expected h' k → p'.value k = p.value k := by
    intro k hk he
    rw [hc'.counted k hk, hc.counted k hk, he]
  refine ⟨hvalue .ingressPackets trivial hrx, hvalue .processedPackets trivial hprocessed.length_eq,
    hvalue .rxBytes trivial ?_, hvalue .terminalEvents trivial hcard,
    hvalue .duplicateEvents trivial ?_, ?_⟩
  · exact (hprocessed.map fun q => q.payload_size.toNat).sum_eq
  · show _ - _ = _ - _
    rw [hcard, hlen]
  · rw [snapshotAt_eq, snapshotAt_eq]
    show p'.drop_counters = p.drop_counters
    funext r
    have hval := hvalue (.drop r) trivial (hreasons.count_eq r)
    have hsome : (p'.drop_counters r).isSome ↔ (p.drop_counters r).isSome := by
      rw [hk' r, hk r, hreasons.mem_iff]
    cases hr : p.drop_counters r <;> cases hr' : p'.drop_counters r <;>
      simp_all [PacketStats.value]

end Aggregates

/-- The first state of a run in which one thread publishes packets. -/
theorem measured_start (cfg : FailureConfig) (engine : Option SwitchForwardingEngine)
    (transport : Option TransportManager) {tp : List Action} (hsource : ∀ a ∈ tp, OnSource a)
    (hawaiting : tp.flatMap awaiting = packets) (hcaptured : tp.flatMap captured = packets)
    (harriving : weight arriving tp = packets.length) (hhand : weight inHand tp = 0) :
    Measured subs { config := cfg } packets (start (initial subs cfg engine transport) [tp]) := by
  refine ⟨rfl, rfl, PacketStats.counts_nil, fun r => ?_, ?_, _, _, rfl, ?_, hsource, ?_, fun _ => hcaptured⟩
  · simp [start, initial, reasons, terminals, Terminal.firsts]
  · show 0 + (weight arriving [.processLoop] + (weight arriving tp + 0)) = packets.length
    rw [harriving]
    simp [arriving]
  · intro a ha
    rw [List.mem_singleton.1 ha]
    trivial
  · have hload : (start (initial subs cfg engine transport) [tp]).load inHand = 0 := by
      show weight inHand [.processLoop] + (weight inHand tp + 0) = 0
      rw [hhand]
      rfl
    rw [hload, hawaiting]
    show (0 + 0) + 0 + ((outcomesOf { config := cfg } packets : List Terminal) : Multiset Terminal) = _
    simp

/-- Whatever the failure policy and the two interleavings, a replay gives the aggregates of the run it
replays. -/
theorem aggregate_replay {subs' : List Subscriber} (hs : Wired subs)
    (hrec : subs.count .replayRecorder = 1) (hs' : Wired subs') (cfg : FailureConfig)
    (engine engine' : Option SwitchForwardingEngine) (transport transport' : Option TransportManager)
    (hlen : packets.length ≤ 1024) (hids : (packets.map Packet.lifecycle_id).Nodup)
    {c' : Config Runtime Action}
    (h : Reaches program anyStep (recorded subs cfg engine transport packets) c)
    (ht : AllTerminated packets c)
    (h' : Reaches program anyStep (replayed subs' cfg engine' transport' c.shared.recorder.records) c')
    (ht' : AllTerminated packets c') :
    c.shared.stats.snapshotAt.SameAggregates c'.shared.stats.snapshotAt := by
  have hc : Measured subs { config := cfg } packets c := by
    refine h.invariant (measured_start cfg engine transport ?_ ?_ (captured_recorded packets) ?_ ?_)
      fun _ _ _ hc _ hstep => hc.step hs hlen hstep
    · intro a ha
      obtain ⟨p, -, rfl⟩ := List.mem_map.1 ha
      rfl
    · rw [List.flatMap_map]
      exact List.flatMap_singleton' packets
    · clear h ht h' ht' hlen hids
      induction packets with
      | nil => rfl
      | cons p packets ih =>
        rw [List.map_cons, weight_cons, ih, List.length_cons, Nat.add_comm]
        rfl
    · refine weight_eq_zero fun a ha => ?_
      obtain ⟨p, -, rfl⟩ := List.mem_map.1 ha
      rfl
  obtain ⟨hperm, hrx, hrecords⟩ := hc.terminated hids ht
  have hpackets := hrecords hrec
  have hc' : Measured subs' { config := cfg } packets c' := by
    refine h'.invariant (measured_start cfg engine' transport' ?_ ?_ ?_ ?_ rfl)
      fun _ _ _ hc _ hstep => hc.step hs' hlen hstep
    · intro a ha
      rw [List.mem_singleton.1 ha]
      trivial
    · simp [awaiting, hpackets]
    · simp [captured, hpackets]
    · have hlength := congrArg List.length hpackets
      rw [List.length_map] at hlength
      simpa [arriving] using hlength
  obtain ⟨hperm', hrx', -⟩ := hc'.terminated hids ht'
  refine sameAggregates_of_perm hc.counts hc.keyed hc'.counts hc'.keyed (hrx.trans hrx'.symm) ?_
    (hperm.trans hperm'.symm)
  have hnodup := (hperm.map Terminal.lifecycle_id).nodup_iff.2
    (outcomesOf_lifecycle_id { config := cfg } packets ▸ hids)
  simpa [List.map_map, Function.comp_def] using hnodup

/-- Two packets: a rule delays the first, and the policy loses every packet it counts, so the second. -/
theorem aggregate_replay_two : ∃ c c',
    Reaches program anyStep (recorded [.packetProcessor, .packetStats, .replayRecorder]
      ⟨.simulatedLoss, true, 1, 0, [⟨1, .artificialDelay⟩]⟩ none none
      [{ lifecycle_id := 1, timestamp_ms := 5 }, { lifecycle_id := 2, timestamp_ms := 5 }]) c ∧
    Reaches program anyStep (replayed [.packetStats, .packetProcessor]
      ⟨.simulatedLoss, true, 1, 0, [⟨1, .artificialDelay⟩]⟩ none none
      c.shared.recorder.records) c' ∧
    c.shared.stats.snapshotAt.drops_by_reason .simulatedLoss = some 1 ∧
    c.shared.stats.snapshotAt.SameAggregates c'.shared.stats.snapshotAt := by
  have hrecorded : ∃ c, play program anyStep
      ((List.replicate 15 1 ++ List.replicate 4 0).map fun i => (i, {}))
      (recorded [.packetProcessor, .packetStats, .replayRecorder]
        ⟨.simulatedLoss, true, 1, 0, [⟨1, .artificialDelay⟩]⟩ none none
        [{ lifecycle_id := 1, timestamp_ms := 5 }, { lifecycle_id := 2, timestamp_ms := 5 }]) =
        some c ∧
      AllTerminated
        [{ lifecycle_id := 1, timestamp_ms := 5 }, { lifecycle_id := 2, timestamp_ms := 5 }] c ∧
      c.shared.recorder.records = [⟨0, { lifecycle_id := 1, timestamp_ms := 5 }⟩,
        ⟨1, { lifecycle_id := 2, timestamp_ms := 5 }⟩] ∧
      c.shared.stats.snapshotAt.drops_by_reason .simulatedLoss = some 1 :=
    ⟨_, rfl, ⟨rfl, by decide⟩, rfl, rfl⟩
  have hreplayed : ∃ c', play program anyStep
      ((List.replicate 6 1 ++ List.replicate 4 0 ++ List.replicate 8 1).map fun i => (i, {}))
      (replayed [.packetStats, .packetProcessor]
        ⟨.simulatedLoss, true, 1, 0, [⟨1, .artificialDelay⟩]⟩ none none
        [⟨0, { lifecycle_id := 1, timestamp_ms := 5 }⟩,
          ⟨1, { lifecycle_id := 2, timestamp_ms := 5 }⟩]) = some c' ∧
      AllTerminated
        [{ lifecycle_id := 1, timestamp_ms := 5 }, { lifecycle_id := 2, timestamp_ms := 5 }] c' :=
    ⟨_, rfl, ⟨rfl, by decide⟩⟩
  obtain ⟨c, hplay, ht, hrecords, hdrops⟩ := hrecorded
  obtain ⟨c', hplay', ht'⟩ := hreplayed
  have hr := reaches_of_play hplay
  have hr' := reaches_of_play hplay'
  rw [← hrecords] at hr'
  exact ⟨c, c', hr, hr', hdrops, aggregate_replay ⟨by decide, by decide, by simp⟩ (by decide)
    ⟨by decide, by decide, by simp⟩ _ none none none none (by decide) (by decide) hr ht hr' ht'⟩

end Runtime

end EdgeNetSwitch
