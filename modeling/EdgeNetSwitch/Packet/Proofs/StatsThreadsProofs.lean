import EdgeNetSwitch.Packet.StatsThreads
import EdgeNetSwitch.Packet.Proofs.PacketStatsProofs
import EdgeNetSwitch.Threads.Proofs.ProgramProofs
import Mathlib.Algebra.Order.BigOperators.Group.Finset
import Mathlib.Algebra.Order.Group.Multiset

/-!
# Proofs: the counters agree with the reference counts

A counter always equals its reference count less what pending `fetch_add`s will still add
(`Accounted`), so between deliveries it equals it, modulo `2 ^ 64`.
-/

namespace EdgeNetSwitch

namespace PacketStats

open Threads StatsMessage Terminal

variable {c d : Config StatsState StatsAction} {a : StatsAction}

/-- What a pending action adds to the counter `k`. -/
def pendingAdd (k : Counter) : StatsAction → UInt64
  | .fetchAdd counter n => if counter = k then n else 0
  | _ => 0

/-- The delivered message that a pending action still has to put into effect. -/
def pendingMessage : StatsAction → Multiset StatsMessage
  | .lock outcome | .complete outcome => {.terminal outcome}
  | _ => 0

theorem ofNat_gain (k : Counter) (l : List (Counter × UInt64)) :
    UInt64.ofNat (gain k l) = weight (pendingAdd k) (l.map fun x => .fetchAdd x.1 x.2) := by
  induction l with
  | nil => rfl
  | cons x l ih =>
    have hcons : gain k (x :: l) = (if x.1 = k then x.2.toNat else 0) + gain k l := by simp [gain]
    rw [hcons, UInt64.ofNat_add, ih, List.map_cons, weight_cons]
    by_cases hx : x.1 = k <;> simp [pendingAdd, hx]

theorem weight_afterInsert (k : Counter) (completed : Bool) (t : Terminal) :
    weight (pendingAdd k) (afterInsert completed t) =
      UInt64.ofNat (gain k (increments completed t)) := by
  rw [ofNat_gain]
  unfold afterInsert
  cases t <;> cases completed <;> simp [pendingAdd]

/-- What holds of the statistics at every moment. -/
structure Accounted (c : Config StatsState StatsAction) : Prop where
  completed : c.shared.stats.completed_lifecycles = lifecycles (terminals c.shared.history)
  counted : ∀ k : Counter, k.Counted → UInt64.ofNat (expected c.shared.history k) =
    c.shared.stats.value k + c.load (pendingAdd k)
  delivered : (c.shared.delivered : Multiset StatsMessage) =
    c.shared.history + c.load pendingMessage

theorem accounted_init {callers : List (List StatsAction)}
    (h : ∀ t ∈ callers, ∀ a ∈ t, IsCall a) : Accounted (init callers) := by
  refine ⟨rfl, fun k _ => ?_, ?_⟩
  · rw [load_eq_zero fun t ht a ha => ?_]
    · cases k <;> rfl
    · have := h t ht a ha
      cases a <;> first | rfl | cases this
  · rw [load_eq_zero fun t ht a ha => ?_]
    · rfl
    · have := h t ht a ha
      cases a <;> first | rfl | cases this

/-- An action that puts no message into effect and changes the counters by what it was pending
for. -/
theorem Accounted.frame (hc : Accounted c) {k : List StatsAction} (hr : Replaces a k c d)
    (hcompleted : d.shared.stats.completed_lifecycles = c.shared.stats.completed_lifecycles)
    (hhistory : d.shared.history = c.shared.history)
    (hdelivered : d.shared.delivered = c.shared.delivered)
    (hvalue : ∀ x : Counter, x.Counted → d.shared.stats.value x + weight (pendingAdd x) k =
      c.shared.stats.value x + pendingAdd x a)
    (hmessage : weight pendingMessage k = pendingMessage a) : Accounted d := by
  refine ⟨by rw [hcompleted, hhistory, hc.completed], fun x hx => ?_, ?_⟩
  · exact hr.balance (hc.counted x hx) (δ := 0) (by rw [hhistory, add_zero])
      (by rw [hvalue x hx, add_zero])
  · rw [hdelivered, hhistory]
    exact hr.balance hc.delivered (δ := 0) (by rw [add_zero]) (by rw [hmessage, add_zero])

/-- A message takes effect, with `l` the additions it calls for. -/
theorem Accounted.append (hc : Accounted c) {k : List StatsAction} (hr : Replaces a k c d)
    (msg : StatsMessage) {l : List (Counter × UInt64)}
    (hcompleted : d.shared.stats.completed_lifecycles = lifecycles (terminals d.shared.history))
    (hhistory : d.shared.history = c.shared.history ++ [msg])
    (hdelivered : (d.shared.delivered : Multiset StatsMessage) + pendingMessage a =
      c.shared.delivered + {msg} + weight pendingMessage k)
    (hvalue : d.shared.stats.value = c.shared.stats.value)
    (hexp : ∀ x, expected d.shared.history x = expected c.shared.history x + gain x l)
    (hadd : ∀ x, weight (pendingAdd x) k = UInt64.ofNat (gain x l))
    (ha : ∀ x, pendingAdd x a = 0) : Accounted d := by
  refine ⟨hcompleted, fun x hx => ?_, ?_⟩
  · refine hr.balance (hc.counted x hx) (δ := UInt64.ofNat (gain x l)) ?_ ?_
    · rw [hexp, UInt64.ofNat_add]
    · rw [hvalue, hadd, ha, add_zero]
  · obtain ⟨y, hlc, hld⟩ := hr.load pendingMessage
    have hdel := hc.delivered
    rw [hlc] at hdel
    have happ : (d.shared.history : Multiset StatsMessage) = c.shared.history + {msg} := by
      rw [hhistory]
      rfl
    rw [hdel] at hdelivered
    rw [happ, hld]
    apply add_right_cancel (b := pendingMessage a)
    rw [hdelivered]
    abel

theorem weight_pendingMessage_afterInsert (completed : Bool) (t : Terminal) :
    weight pendingMessage (afterInsert completed t) = 0 := by
  apply weight_eq_zero
  intro b hb
  unfold afterInsert at hb
  cases t <;> cases completed <;> simp [increments] at hb <;>
    rcases hb with rfl | rfl | rfl | rfl | rfl | rfl <;> rfl

/-- Every step preserves `Accounted`. -/
theorem Accounted.step (hc : Accounted c) (h : Step program c a d) : Accounted d := by
  obtain ⟨o, k, he, hr⟩ := h.spec
  have he' : exec a o c.shared = some (d.shared, k) := he
  cases a with
  | deliver msg =>
    cases msg with
    | packetRx p =>
      simp only [exec, Option.some.injEq, Prod.mk.injEq] at he'
      obtain ⟨hs, rfl⟩ := he'
      refine hc.append hr (.packetRx p) (l := [(.ingressPackets, 1)]) ?_ (by rw [← hs])
        (by rw [← hs]; rfl) (by rw [← hs])
        (fun x => by rw [← hs]; exact expected_packetRx p x)
        (fun x => (ofNat_gain x [(.ingressPackets, 1)]).symm) fun _ => rfl
      rw [← hs, terminals_append_of_none rfl]
      exact hc.completed
    | ingressIdlePoll =>
      simp only [exec, Option.some.injEq, Prod.mk.injEq] at he'
      obtain ⟨hs, rfl⟩ := he'
      refine hc.append hr .ingressIdlePoll (l := [(.udpDrainCompletions, 1)]) ?_
        (by rw [← hs]) (by rw [← hs]; rfl) (by rw [← hs])
        (fun x => by rw [← hs]; exact expected_ingressIdlePoll x)
        (fun x => (ofNat_gain x [(.udpDrainCompletions, 1)]).symm) fun _ => rfl
      rw [← hs, terminals_append_of_none rfl]
      exact hc.completed
    | terminal t =>
      simp only [exec, Option.some.injEq, Prod.mk.injEq] at he'
      obtain ⟨hs, rfl⟩ := he'
      refine ⟨by rw [← hs]; exact hc.completed, fun x hx => ?_, ?_⟩
      · exact hr.balance (hc.counted x hx) (δ := 0) (by rw [← hs, add_zero])
          (by rw [← hs]; simp [pendingAdd])
      · refine hr.balance hc.delivered (δ := {.terminal t}) (by rw [← hs]; rfl) ?_
        rw [← hs]
        simp [pendingMessage]
  | complete t =>
    simp only [exec, Option.some.injEq, Prod.mk.injEq] at he'
    obtain ⟨hs, rfl⟩ := he'
    have hterm : terminals d.shared.history = terminals c.shared.history ++ [t] := by
      rw [← hs]
      exact terminals_append_terminal
    refine hc.append hr (.terminal t)
      (l := increments (decide (t.lifecycle_id ∈ c.shared.stats.completed_lifecycles)) t)
      ?_ (by rw [← hs]) ?_ (by rw [← hs]; rfl) (fun x => ?_)
      (fun x => weight_afterInsert x _ t) fun _ => rfl
    · rw [hterm, lifecycles_append, ← hc.completed, ← hs]
    · rw [← hs, weight_pendingMessage_afterInsert, add_zero]
      rfl
    · rw [← hs, hc.completed]
      exact expected_terminal x
  | lock t =>
    simp only [exec, Option.ite_none_left_eq_some, Option.some.injEq, Prod.mk.injEq] at he'
    obtain ⟨-, hs, rfl⟩ := he'
    exact hc.frame hr (by rw [← hs]) (by rw [← hs]) (by rw [← hs])
      (fun x _ => by rw [← hs]; simp [pendingAdd]) (by simp [pendingMessage])
  | fetchAdd counter n =>
    simp only [exec, Option.some.injEq, Prod.mk.injEq] at he'
    obtain ⟨hs, rfl⟩ := he'
    refine hc.frame hr ?_ (by rw [← hs]) (by rw [← hs]) (fun x _ => ?_) (by simp [pendingMessage])
    · rw [← hs]
      cases counter <;> rfl
    · rw [← hs, weight_nil, add_zero]
      exact value_fetchAdd _ counter x n
  | readClock p =>
    simp only [exec] at he'
    split at he' <;> simp only [Option.some.injEq, Prod.mk.injEq] at he' <;> obtain ⟨hs, rfl⟩ := he'
    · exact hc.frame hr (by rw [hs]) (by rw [hs]) (by rw [hs])
        (fun x _ => by rw [hs]; simp [pendingAdd]) (by simp [pendingMessage])
    · refine hc.frame hr (by rw [hs]) (by rw [hs]) (by rw [hs]) (fun x hx => ?_)
        (by simp [pendingMessage])
      rw [hs]
      cases x <;> first | (exact hx.elim) | simp [pendingAdd]
  | loadMax n =>
    simp only [exec, Option.some.injEq, Prod.mk.injEq] at he'
    obtain ⟨hs, rfl⟩ := he'
    refine hc.frame hr (by rw [hs]) (by rw [hs]) (by rw [hs]) (fun x _ => ?_) ?_
    · rw [hs]
      split_ifs <;> simp [pendingAdd]
    · split_ifs <;> simp [pendingMessage]
  | storeMax n =>
    simp only [exec, Option.some.injEq, Prod.mk.injEq] at he'
    obtain ⟨hs, rfl⟩ := he'
    refine hc.frame hr (by rw [← hs]) (by rw [← hs]) (by rw [← hs]) (fun x _ => ?_)
      (by simp [pendingMessage])
    rw [← hs]
    cases x <;> simp [pendingAdd, value]
  | unlock =>
    simp only [exec, Option.some.injEq, Prod.mk.injEq] at he'
    obtain ⟨hs, rfl⟩ := he'
    exact hc.frame hr (by rw [← hs]) (by rw [← hs]) (by rw [← hs])
      (fun x _ => by rw [← hs]; simp [pendingAdd]) (by simp [pendingMessage])
  | snapshot rest m =>
    have hframe : ∀ {s' k}, s' = d.shared → k = [] ∨ (∃ rest m, k = [.snapshot rest m]) →
        s'.stats = c.shared.stats → s'.history = c.shared.history →
        s'.delivered = c.shared.delivered → Replaces (.snapshot rest m) k c d → Accounted d := by
      rintro s' k rfl hk hst hh hdel hr
      refine hc.frame hr (by rw [hst]) hh hdel (fun x _ => ?_) ?_
      · rcases hk with rfl | ⟨_, _, rfl⟩ <;> simp [hst, pendingAdd]
      · rcases hk with rfl | ⟨_, _, rfl⟩ <;> simp [pendingMessage]
    rcases rest with _ | ⟨_ | _ | _ | _ | _, rest⟩ <;>
      simp only [exec, Option.ite_none_left_eq_some, Option.some.injEq, Prod.mk.injEq] at he'
    · obtain ⟨hs, rfl⟩ := he'
      exact hframe hs (Or.inl rfl) rfl rfl rfl hr
    · obtain ⟨hs, rfl⟩ := he'
      exact hframe hs (Or.inr ⟨_, _, rfl⟩) rfl rfl rfl hr
    · obtain ⟨-, hs, rfl⟩ := he'
      exact hframe hs (Or.inr ⟨_, _, rfl⟩) rfl rfl rfl hr
    · obtain ⟨hs, rfl⟩ := he'
      exact hframe hs (Or.inr ⟨_, _, rfl⟩) rfl rfl rfl hr
    · obtain ⟨hs, rfl⟩ := he'
      exact hframe hs (Or.inr ⟨_, _, rfl⟩) rfl rfl rfl hr
    · obtain ⟨hs, rfl⟩ := he'
      exact hframe hs (Or.inr ⟨_, _, rfl⟩) rfl rfl rfl hr

theorem accounted_of_reaches {callers : List (List StatsAction)}
    (hcallers : ∀ t ∈ callers, ∀ a ∈ t, IsCall a) (h : Reaches program anyStep (init callers) c) :
    Accounted c :=
  h.invariant (accounted_init hcallers) fun _ _ _ hc _ hs => hc.step hs

/-- Between deliveries nothing is pending. -/
theorem BetweenDeliveries.load_eq_zero {M : Type*} [AddCommMonoid M] {w : StatsAction → M}
    (hq : BetweenDeliveries c) (hd : ∀ msg, w (.deliver msg) = 0)
    (hs : ∀ rest m, w (.snapshot rest m) = 0) : c.load w = 0 := by
  apply Threads.load_eq_zero
  intro t ht a ha
  have := hq t ht a ha
  cases a <;> first | exact hd _ | exact hs _ _ | cases this

/-- Between deliveries a counter is its reference count, modulo `2 ^ 64`. -/
theorem Accounted.value_toNat (hc : Accounted c) (hq : BetweenDeliveries c) {k : Counter}
    (hk : k.Counted) :
    (c.shared.stats.value k).toNat = expected c.shared.history k % 2 ^ 64 := by
  have h := hc.counted k hk
  rw [hq.load_eq_zero (fun _ => rfl) fun _ _ => rfl, add_zero] at h
  rw [← h, UInt64.toNat_ofNat']

/-- Whatever the interleaving, a snapshot between deliveries accounts for the messages delivered, in
the order in which they took effect: modulo `2 ^ 64`, and exactly below `2 ^ 64` messages. -/
theorem snapshotAt_accounts {callers : List (List StatsAction)}
    (hcallers : ∀ t ∈ callers, ∀ a ∈ t, IsCall a) (h : Reaches program anyStep (init callers) c)
    (hq : BetweenDeliveries c) :
    c.shared.history.Perm c.shared.delivered ∧
      c.shared.stats.snapshotAt.Accounts (· % 2 ^ 64) c.shared.history ∧
      (c.shared.delivered.length < 2 ^ 64 →
        c.shared.stats.snapshotAt.Accounts id c.shared.history) := by
  have hc := accounted_of_reaches hcallers h
  have hperm : c.shared.history.Perm c.shared.delivered := by
    have hdel := hc.delivered
    rw [hq.load_eq_zero (fun _ => rfl) fun _ _ => rfl, add_zero, Multiset.coe_eq_coe] at hdel
    exact hdel.symm
  have hmod : c.shared.stats.snapshotAt.Accounts (· % 2 ^ 64) c.shared.history :=
    accounts_mod fun k hk => hc.value_toNat hq hk
  exact ⟨hperm, hmod, fun hlt => accounts_exact hmod (hperm.length_eq ▸ hlt)⟩

/-! ## A delivery on its own -/

theorem alone_fetchAdds (l : List (Counter × UInt64)) (rest : List StatsAction) (s : StatsState) :
    Alone program (l.map (fun x => .fetchAdd x.1 x.2) ++ rest) s rest
      { s with stats := l.foldl (fun s x => s.fetchAdd x.1 x.2) s.stats } := by
  induction l generalizing s with
  | nil => exact Alone.refl _ _
  | cons x l ih => exact Alone.move 0 rfl (ih _)

theorem alone_readClock (p : Packet) (now_ns : UInt64) (rest : List StatsAction) (s : StatsState) :
    Alone program (.readClock p :: rest) s rest
      { s with stats := s.stats.recordLatency p now_ns } := by
  cases hl : latency? p now_ns with
  | none =>
    have h₁ : program.exec (.readClock p) now_ns s = some (s, []) := by simp [program, exec, hl]
    have hs : s.stats.recordLatency p now_ns = s.stats := by simp [recordLatency, hl]
    rw [hs]
    exact Alone.move now_ns h₁ (Alone.refl _ _)
  | some n =>
    have h₁ : program.exec (.readClock p) now_ns s =
        some (s, [.fetchAdd .totalProcessingLatency n, .fetchAdd .latencySamples 1, .loadMax n]) := by
      simp [program, exec, hl]
    have hmove : ∀ s' : StatsState, Alone program (.loadMax n :: rest)
        { s with stats := (s.stats.fetchAdd .totalProcessingLatency n).fetchAdd .latencySamples 1 }
        rest s' → Alone program (.readClock p :: rest) s rest s' := fun s' h =>
      Alone.move now_ns h₁ (Alone.move 0 rfl (Alone.move 0 rfl h))
    rw [recordLatency_some _ hl]
    apply hmove
    by_cases hmax : n > s.stats.max_processing_latency_ns
    · have h₂ : program.exec (.loadMax n) 0 { s with
          stats := (s.stats.fetchAdd .totalProcessingLatency n).fetchAdd .latencySamples 1 } =
          some ({ s with
            stats := (s.stats.fetchAdd .totalProcessingLatency n).fetchAdd .latencySamples 1 },
            [.storeMax n]) := congrArg some (Prod.ext rfl (if_pos hmax))
      rw [if_pos hmax]
      exact Alone.move 0 h₂ (Alone.move 0 rfl (Alone.refl _ _))
    · have h₂ : program.exec (.loadMax n) 0 { s with
          stats := (s.stats.fetchAdd .totalProcessingLatency n).fetchAdd .latencySamples 1 } =
          some ({ s with
            stats := (s.stats.fetchAdd .totalProcessingLatency n).fetchAdd .latencySamples 1 },
            []) := congrArg some (Prod.ext rfl (if_neg hmax))
      rw [if_neg hmax]
      exact Alone.move 0 h₂ (Alone.refl _ _)

/-- Without other threads a delivery is the whole handler. -/
theorem alone_deliver (s : StatsState) (hs : s.locked = false) (now_ns : UInt64)
    (msg : StatsMessage) : ∃ s', Alone program [.deliver msg] s [] s' ∧
      s'.stats = s.stats.onMessage now_ns msg ∧ s'.locked = false := by
  cases msg with
  | packetRx p => exact ⟨_, Alone.move 0 rfl (Alone.move 0 rfl (Alone.refl _ _)), rfl, hs⟩
  | ingressIdlePoll => exact ⟨_, Alone.move 0 rfl (Alone.move 0 rfl (Alone.refl _ _)), rfl, hs⟩
  | terminal t =>
    have hlock : ∃ s₁, Alone program [.deliver (.terminal t)] s
        (afterInsert (decide (t.lifecycle_id ∈ s.stats.completed_lifecycles)) t) s₁ ∧
        s₁.stats = { s.stats with
          completed_lifecycles := insert t.lifecycle_id s.stats.completed_lifecycles } := by
      have h₂ : program.exec (.lock t) 0 { s with delivered := s.delivered ++ [.terminal t] } =
          some ({ s with delivered := s.delivered ++ [.terminal t], locked := true },
            [.complete t]) := by
        simp [program, exec, hs]
      refine ⟨{ s with
        delivered := s.delivered ++ [.terminal t]
        locked := true
        history := s.history ++ [.terminal t]
        stats := { s.stats with
          completed_lifecycles := insert t.lifecycle_id s.stats.completed_lifecycles } },
        Alone.move 0 rfl (Alone.move 0 h₂ (Alone.move 0 rfl ?_)), rfl⟩
      show Alone program (afterInsert _ t ++ []) _ _ _
      rw [List.append_nil]
      exact Alone.refl _ _
    obtain ⟨s₁, hlock, hs₁⟩ := hlock
    unfold afterInsert at hlock
    rw [List.append_assoc] at hlock
    have hadd := hlock.trans (alone_fetchAdds _ _ s₁)
    cases t with
    | dropped drop =>
      refine ⟨_, hadd.trans (Alone.move 0 rfl (Alone.refl _ _)), ?_, rfl⟩
      rw [hs₁]
      rfl
    | processed p =>
      by_cases hc : p.lifecycle_id ∈ s.stats.completed_lifecycles
      · have hd : decide ((Terminal.processed p).lifecycle_id ∈ s.stats.completed_lifecycles) =
            true := decide_eq_true hc
        simp only [hd] at hadd
        refine ⟨_, hadd.trans (Alone.move 0 rfl (Alone.refl _ _)), ?_, rfl⟩
        simp only [onMessage, onTerminalMessage, hd, hs₁, if_true]
      · have hd : decide ((Terminal.processed p).lifecycle_id ∈ s.stats.completed_lifecycles) =
            false := decide_eq_false hc
        simp only [hd] at hadd
        refine ⟨_, hadd.trans ((alone_readClock p now_ns _ _).trans
          (Alone.move 0 rfl (Alone.refl _ _))), ?_, rfl⟩
        simp only [onMessage, onTerminalMessage, hd, hs₁, Bool.false_eq_true, if_false]

/-- A lifecycle that is dropped on one thread and reported processed on another is counted once. -/
theorem snapshotAt_accounts_duplicate : ∃ c,
    Reaches program anyStep (init [[.deliver (.terminal (.dropped ⟨.simulatedLoss, 5, 1, 7⟩))],
      [.deliver (.terminal (.processed { lifecycle_id := 7 }))]]) c ∧
    c.shared.stats.duplicate_events = 1 ∧
    c.shared.stats.snapshotAt.Accounts id c.shared.history := by
  have hplay : ∃ c, play program anyStep
      [(0, 0), (1, 0), (0, 0), (0, 0), (0, 0), (0, 0), (0, 0), (1, 0), (1, 0), (1, 0), (1, 0)]
      (init [[.deliver (.terminal (.dropped ⟨.simulatedLoss, 5, 1, 7⟩))],
        [.deliver (.terminal (.processed { lifecycle_id := 7 }))]]) = some c ∧
      c.threads = [[], []] ∧ c.shared.stats.duplicate_events = 1 ∧
      c.shared.delivered.length = 2 := ⟨_, rfl, rfl, rfl, rfl⟩
  obtain ⟨c, hplay, hthreads, hdup, hlen⟩ := hplay
  have hr := reaches_of_play hplay
  refine ⟨c, hr, hdup, (snapshotAt_accounts ?_ hr ?_).2.2 (by rw [hlen]; decide)⟩
  · simp [IsCall]
  · simp [BetweenDeliveries, hthreads]

theorem reaches_packetRx (n : ℕ) (s : StatsState) : ∃ s', Reaches program anyStep
    ⟨s, [List.replicate n (.deliver (.packetRx {}))]⟩ ⟨s', [[]]⟩ ∧
      s'.history = s.history ++ List.replicate n (.packetRx {}) := by
  induction n generalizing s with
  | zero => exact ⟨s, Reaches.refl _, by simp⟩
  | succ n ih =>
    obtain ⟨s', hr, hs'⟩ := ih { s with
      delivered := s.delivered ++ [.packetRx {}]
      history := s.history ++ [.packetRx {}]
      stats := s.stats.fetchAdd .ingressPackets 1 }
    refine ⟨s', Reaches.move 0 0 rfl (fun _ _ => trivial)
      (Reaches.move 0 0 rfl (fun _ _ => trivial) hr), ?_⟩
    rw [hs', List.replicate_succ]
    simp

/-- After `2 ^ 64` packets `ingress_packets` is 0 again. -/
theorem ingress_packets_wraps : ∃ c,
    Reaches program anyStep (init [List.replicate (2 ^ 64) (.deliver (.packetRx {}))]) c ∧
    BetweenDeliveries c ∧ c.shared.stats.snapshotAt.ingress_packets.toNat ≠
      (c.shared.history.filterMap packetRx?).length := by
  obtain ⟨s', hr, hs'⟩ := reaches_packetRx (2 ^ 64) {}
  have hq : BetweenDeliveries (Config.mk s' [[]]) := by simp [BetweenDeliveries]
  have hcallers : ∀ t ∈ [List.replicate (2 ^ 64) (StatsAction.deliver (.packetRx {}))],
      ∀ a ∈ t, IsCall a := by
    intro t ht a ha
    rw [List.mem_singleton.1 ht] at ha
    rw [List.eq_of_mem_replicate ha]
    trivial
  have hrx : (StatsMessage.packetRx {}).packetRx? = some {} := rfl
  have hlen : (s'.history.filterMap packetRx?).length = 2 ^ 64 := by
    rw [hs', List.nil_append, List.filterMap_replicate_of_some hrx, List.length_replicate]
  have hval := (accounted_of_reaches hcallers hr).value_toNat hq (k := .ingressPackets) trivial
  refine ⟨_, hr, hq, ?_⟩
  show (s'.stats.value .ingressPackets).toNat ≠ (s'.history.filterMap packetRx?).length
  rw [hval]
  show (s'.history.filterMap packetRx?).length % 2 ^ 64 ≠ _
  rw [hlen]
  decide

end PacketStats

end EdgeNetSwitch
