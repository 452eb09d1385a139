import EdgeNetSwitch.Daemon.Proofs.FlowProofs
import EdgeNetSwitch.Daemon.Proofs.ProgressProofs

/-!
# Proofs: a replay reproduces the history when the injected failures come first

The publishing thread reports the injected failures, and the worker the outcome of everything else, so
the two can overtake each other unless the packets that fail come first (`KilledFirst`). If they do,
the outcomes collected and the entries in hand are the verdicts of the packets in their order, at any
time of any run (`Ordered`); if not, the run in lock step and the one in which the publishing
thread goes first collect different histories.
-/

namespace EdgeNetSwitch

namespace Runtime

open Threads PacketProcessor

variable {s s' : Runtime} {a : Action} {w : Env} {k : List Action} {cfg : FailureConfig}
  {subs : List Subscriber} {x : List ReplayOutcome} {z : List Packet} {tw tp : List Action}

/-- The thread that publishes packets: `z` are those it has published and has still to publish. -/
structure Publishing (subs : List Subscriber) (cfg : FailureConfig) (z : List Packet) (s : Runtime)
    (tp : List Action) : Prop where
  bus : Bus subs cfg s
  actions : ∀ a ∈ tp, OnPublisher cfg a
  records : subs.count .replayRecorder = 1 →
    s.recorder.records.map ReplayRecord.packet ++ tp.flatMap captured = z

/-- The worker thread: what it has in hand, and in the queue, are packets without an injected
failure. -/
structure Working (subs : List Subscriber) (cfg : FailureConfig) (s : Runtime) (tw : List Action) :
    Prop where
  bus : Bus subs cfg s
  actions : ∀ a ∈ tw, OnWorker a
  spared : ∀ o ∈ tw.flatMap (flow cfg), ¬ cfg.Kills o.lifecycle_id
  queue : ∀ p ∈ s.queue, ¬ cfg.Kills p.lifecycle_id

theorem Publishing.exec (hcfg : cfg.ByLifecycle) (hs : Collecting subs)
    (hp : Publishing subs cfg z s (a :: tp))
    (hadm : ∀ p t, a = .enqueue p t → s.queue.length < maxQueueSize)
    (h : exec a w s = some (s', k)) : Publishing subs cfg z s' (k ++ tp) := by
  have ha := hp.actions a (by simp)
  refine ⟨hp.bus.exec (Or.inl ha) h, fun b hb => ?_, fun hrec => ?_⟩
  · rcases List.mem_append.1 hb with hb | hb
    · exact onPublisher_exec hcfg hs hp.bus ha hadm h b hb
    · exact hp.actions b (List.mem_cons_of_mem _ hb)
  · rw [List.flatMap_append, ← List.append_assoc,
      exec_captured hp.bus.subscribers hp.bus.destroyed hrec ha.onSource h,
      List.append_assoc, ← List.flatMap_cons]
    exact hp.records hrec

theorem Working.moves (hcfg : cfg.ByLifecycle) (hs : Collecting subs)
    (hw : Working subs cfg s (a :: tw)) (h : exec a w s = some (s', k)) : Moves cfg a s s' k := by
  have ha := hw.actions a (by simp)
  refine exec_flow hcfg hs hw.bus (Or.inr ha) ?_ ?_ h
  · rintro p rfl
    have := hw.spared (verdict cfg p) (by simp [flow])
    rwa [verdict_lifecycle_id] at this
  · rintro p t rfl
    exact ha.elim

theorem Working.exec (hcfg : cfg.ByLifecycle) (hs : Collecting subs)
    (hw : Working subs cfg s (a :: tw)) (h : exec a w s = some (s', k)) :
    Working subs cfg s' (k ++ tw) := by
  have ha := hw.actions a (by simp)
  have hspared := hw.spared
  rw [List.flatMap_cons] at hspared
  refine ⟨hw.bus.exec (Or.inr ha) h, fun b hb => ?_, ?_, ?_⟩
  · rcases List.mem_append.1 hb with hb | hb
    · exact onWorker_of_leaves (exec_leaves h b hb) ha
        (not_deliver_client (fun type => hw.bus.subscribers ▸ hs.client type) h hb)
    · exact hw.actions b (List.mem_cons_of_mem _ hb)
  · rw [List.flatMap_append]
    cases hw.moves hcfg hs h with
    | stays hq ho hk => rwa [hk]
    | admitted p t ha' => subst ha'; exact ha.elim
    | popped p ha' hq ho hk =>
      subst ha' hk
      intro o hmem
      rcases List.mem_append.1 hmem with hmem | hmem
      · have : o = verdict cfg p := by simpa [flow] using hmem
        rw [this, verdict_lifecycle_id]
        exact hw.queue p (by simp [hq])
      · exact hspared o (List.mem_append_right _ hmem)
    | collected o ha' hq ho hk =>
      subst hk
      exact fun o' hmem => hspared o' (List.mem_append_right _ hmem)
  · cases hw.moves hcfg hs h with
    | stays hq ho hk => rw [hq]; exact hw.queue
    | admitted p t ha' => subst ha'; exact ha.elim
    | popped p ha' hq ho hk => exact fun q hmem => hw.queue q (by simp [hq, hmem])
    | collected o ha' hq ho hk => rw [hq]; exact hw.queue

/-! ## Injected failures first -/

/-- The outcomes collected, and the entries the worker, the queue and the publishing thread have in
hand, are the history `x`. -/
structure Ordered (subs : List Subscriber) (cfg : FailureConfig) (x : List ReplayOutcome)
    (z : List Packet) (s : Runtime) (tw tp : List Action) : Prop where
  publishing : Publishing subs cfg z s tp
  working : Working subs cfg s tw
  stack : WorkerStack tw
  history : s.collector.outcomes.map report ++ tw.flatMap (flow cfg) ++
    s.queue.map (verdict cfg) ++ tp.flatMap (flow cfg) = x

/-- The injected failures of a history come first. -/
def FailuresFirst (cfg : FailureConfig) (x : List ReplayOutcome) : Prop :=
  x.Pairwise fun o o' => cfg.Kills o'.lifecycle_id → cfg.Kills o.lifecycle_id

/-- While the publishing thread has a failure in hand, nothing else is under way. -/
theorem Ordered.alone (ho : Ordered subs cfg x z s tw tp) (hx : FailuresFirst cfg x)
    {o : ReplayOutcome} (hmem : o ∈ tp.flatMap (flow cfg)) (hkill : cfg.Kills o.lifecycle_id) :
    tw.flatMap (flow cfg) = [] ∧ s.queue = [] := by
  unfold FailuresFirst at hx
  rw [← ho.history] at hx
  have hbefore := (List.pairwise_append.1 hx).2.2
  refine ⟨List.eq_nil_iff_forall_not_mem.2 fun o' ho' => ?_,
    List.eq_nil_iff_forall_not_mem.2 fun p hp => ?_⟩
  · exact ho.working.spared o' ho' (hbefore o' (by simp only [List.mem_append]; tauto) o hmem hkill)
  · have := hbefore (verdict cfg p)
      (List.mem_append_right _ (List.mem_map_of_mem hp)) o hmem hkill
    rw [verdict_lifecycle_id] at this
    exact ho.working.queue p hp this

theorem Ordered.exec_worker (hcfg : cfg.ByLifecycle) (hs : Collecting subs)
    (ho : Ordered subs cfg x z s (a :: tw) tp) (h : exec a w s = some (s', k)) :
    Ordered subs cfg x z s' (k ++ tw) tp := by
  have ha := ho.working.actions a (by simp)
  have hworking := ho.working.exec hcfg hs h
  refine ⟨⟨hworking.bus, ho.publishing.actions, fun hrec => ?_⟩, hworking, ho.stack.step h, ?_⟩
  · rw [exec_recorder ha h]
    exact ho.publishing.records hrec
  · have hhist := ho.history
    rw [List.flatMap_cons] at hhist
    rw [List.flatMap_append]
    cases ho.working.moves hcfg hs h with
    | stays hq hout hk => rw [hq, hout, hk]; exact hhist
    | admitted p t ha' => subst ha'; exact ha.elim
    | popped p ha' hq hout hk =>
      -- the loop is at the bottom of the worker's stack
      subst ha' hk
      have htw : tw = [] := by
        rcases ho.stack with hn | ⟨u, hu, hloop⟩
        · exact absurd rfl (hn .processLoop (by simp)).2
        · cases u with
          | nil => exact (List.cons.inj hu).2
          | cons b u => exact absurd (by rw [← (List.cons.inj hu).1]; simp) hloop
      subst htw
      rw [hq] at hhist
      rw [hout]
      simpa [flow] using hhist
    | collected o ha' hq hout hk =>
      subst ha' hk
      rw [hq, hout]
      simpa [flow] using hhist

theorem Ordered.exec_publisher (hcfg : cfg.ByLifecycle) (hs : Collecting subs)
    (hx : FailuresFirst cfg x) (hlen : x.length ≤ maxQueueSize)
    (ho : Ordered subs cfg x z s tw (a :: tp)) (h : exec a w s = some (s', k)) :
    Ordered subs cfg x z s' tw (k ++ tp) := by
  have ha := ho.publishing.actions a (by simp)
  have hhist := ho.history
  rw [List.flatMap_cons] at hhist
  have hadm : ∀ p t, a = .enqueue p t → s.queue.length < maxQueueSize := by
    rintro p t rfl
    have := congrArg List.length hhist
    simp only [List.length_append, List.length_map, flow, List.length_singleton] at this
    omega
  have hpublishing := ho.publishing.exec hcfg hs hadm h
  have hmoves := exec_flow hcfg hs ho.publishing.bus (Or.inl ha)
    (by rintro p rfl; exact ha.elim) hadm h
  refine ⟨hpublishing, ⟨hpublishing.bus, ho.working.actions, ho.working.spared, ?_⟩, ho.stack, ?_⟩
  · cases hmoves with
    | stays hq hout hk => rw [hq]; exact ho.working.queue
    | admitted p t ha' hq hout hk =>
      subst ha'
      rw [hq]
      intro q hmem
      rcases List.mem_append.1 hmem with hmem | hmem
      · exact ho.working.queue q hmem
      · rw [List.mem_singleton.1 hmem]
        exact ha
    | popped p ha' => subst ha'; exact ha.elim
    | collected o ha' hq hout hk => rw [hq]; exact ho.working.queue
  · rw [List.flatMap_append]
    cases hmoves with
    | stays hq hout hk => rw [hq, hout, hk]; exact hhist
    | admitted p t ha' hq hout hk =>
      subst ha' hk
      rw [hq, hout]
      simpa [flow] using hhist
    | popped p ha' => subst ha'; exact ha.elim
    | collected o ha' hq hout hk =>
      subst ha' hk
      obtain ⟨htw, hqueue⟩ := ho.alone hx (o := report o) (by simp [flow]) ha
      rw [hq, hout, htw, hqueue]
      rw [htw, hqueue] at hhist
      simpa [flow] using hhist

/-! ## Sequence numbers -/

/-- The outcome an action is about to append. -/
def appended? : Action → Option ReplayOutcome
  | .appendOutcome o => some o
  | _ => none

/-- The outcomes that have their sequence number: collected, or about to be. -/
def numbered (c : Config Runtime Action) : List ReplayOutcome :=
  c.shared.collector.outcomes ++ c.threads.flatMap (List.filterMap appended?)

/-- Sequence numbers count up, and one outcome at a time waits for the mutex. -/
structure Numbered (c : Config Runtime Action) : Prop where
  tail : ∀ t ∈ c.threads, t.tail.filterMap appended? = []
  waiting : (c.threads.flatMap (List.filterMap appended?)).length ≤ 1
  sequence : (numbered c).map ReplayOutcome.sequence =
    (List.range (numbered c).length).map UInt64.ofNat
  next : c.shared.collector.next_sequence = UInt64.ofNat (numbered c).length

@[simp] theorem of_sequence (n : UInt64) (t : Terminal) : (ReplayOutcome.of n t).sequence = n := by
  cases t <;> rfl

/-- An action takes a sequence number, appends an outcome, or does neither. -/
theorem exec_collector (hdestroyed : s.destroyed = []) (h : exec a w s = some (s', k)) :
    (∃ msg t, a = .deliver .replayOutcomeCollector msg ∧ msg.terminal? = some t ∧
      s'.collector = { s.collector with next_sequence := s.collector.next_sequence + 1 } ∧
      k = [.appendOutcome (ReplayOutcome.of s.collector.next_sequence t)]) ∨
    (∃ o, a = .appendOutcome o ∧
      s'.collector = { s.collector with outcomes := s.collector.outcomes ++ [o] } ∧ k = []) ∨
    (appended? a = none ∧ k.filterMap appended? = [] ∧ s'.collector = s.collector) := by
  have hframe := exec_frame h
  have hleaves := exec_leaves h
  cases a with
  | appendOutcome o =>
    cases h
    exact Or.inr (Or.inl ⟨o, rfl, rfl, rfl⟩)
  | deliver sub msg =>
    by_cases hsub : sub = .replayOutcomeCollector
    · subst hsub
      have hcall := exec_deliver hdestroyed h
      simp only [callback] at hcall
      split at hcall <;> cases hcall
      · rename_i t ht
        exact Or.inl ⟨msg, t, rfl, ht, rfl, rfl⟩
      · exact Or.inr (Or.inr ⟨rfl, rfl, rfl⟩)
    · refine Or.inr (Or.inr ⟨rfl, List.filterMap_eq_nil_iff.2 fun b hb => ?_,
        hframe.collector (by simp [hsub]) (by simp)⟩)
      have hlb := hleaves b hb
      cases b <;> first | rfl | skip
      cases sub <;> first | exact hlb.elim | exact absurd rfl hsub
  | _ =>
    refine Or.inr (Or.inr ⟨rfl, List.filterMap_eq_nil_iff.2 fun b hb => ?_,
      hframe.collector (by simp) (by simp)⟩)
    have hlb := hleaves b hb
    cases b <;> first | rfl | exact hlb.elim

theorem tail_filterMap_append {l m : List Action} (hl : l.tail.filterMap appended? = [])
    (hm : m.filterMap appended? = []) : (l ++ m).tail.filterMap appended? = [] := by
  cases l with
  | nil =>
    rw [List.nil_append, List.filterMap_eq_nil_iff]
    exact fun b hb => List.filterMap_eq_nil_iff.1 hm b (List.mem_of_mem_tail hb)
  | cons b l =>
    rw [List.cons_append, List.tail_cons, List.filterMap_append, hm, List.append_nil]
    exact hl

theorem Numbered.step {c d : Config Runtime Action} (hc : Numbered c)
    (hdestroyed : c.shared.destroyed = []) (h : exec a w c.shared = some (d.shared, k))
    (hr : Replaces a k c d)
    (halone : ∀ msg t, a = .deliver .replayOutcomeCollector msg → msg.terminal? = some t →
      c.threads.flatMap (List.filterMap appended?) = []) : Numbered d := by
  obtain ⟨pre, rest, post, hct, hdt⟩ := hr
  have hrest : rest.filterMap appended? = [] := hc.tail (a :: rest) (by simp [hct])
  have htails : k.tail.filterMap appended? = [] → ∀ t ∈ d.threads, t.tail.filterMap appended? = [] := by
    intro hk t ht
    rw [hdt, List.mem_append, List.mem_cons] at ht
    rcases ht with ht | rfl | ht
    · exact hc.tail t (by simp [hct, ht])
    · exact tail_filterMap_append hk hrest
    · exact hc.tail t (by simp [hct, ht])
  have hwaiting := hc.waiting
  have hsequence := hc.sequence
  have hnext := hc.next
  unfold numbered at hsequence hnext
  rw [hct] at hwaiting hsequence hnext halone
  simp only [List.flatMap_append, List.flatMap_cons] at hwaiting hsequence hnext halone
  rcases exec_collector hdestroyed h with
    ⟨msg, t, rfl, ht, hcoll, rfl⟩ | ⟨o, rfl, hcoll, rfl⟩ | ⟨ha, hk, hcoll⟩
  · have hnil := halone msg t rfl ht
    simp only [List.append_eq_nil_iff] at hnil
    obtain ⟨hpre, -, hpost⟩ := hnil
    have hflat : d.threads.flatMap (List.filterMap appended?) =
        [ReplayOutcome.of c.shared.collector.next_sequence t] := by
      rw [hdt]
      simp only [List.flatMap_append, List.flatMap_cons, List.filterMap_append, hpre, hpost, hrest]
      rfl
    simp only [hpre, hpost, hrest, List.filterMap_cons, appended?, List.append_nil] at hsequence hnext
    refine ⟨htails rfl, by rw [hflat]; rfl, ?_, ?_⟩ <;>
      simp only [numbered, hflat, hcoll, List.length_append, List.length_singleton]
    · rw [List.map_append, hsequence, List.range_succ, List.map_append, hnext]
      simp
    · rw [hnext]
      simp
  · have hcons : (Action.appendOutcome o :: rest).filterMap appended? = [o] := by
      rw [List.filterMap_cons, hrest]
      rfl
    rw [hcons] at hwaiting hsequence hnext
    simp only [List.length_append, List.length_singleton] at hwaiting
    have hpre : pre.flatMap (List.filterMap appended?) = [] :=
      List.eq_nil_of_length_eq_zero (by omega)
    have hpost : post.flatMap (List.filterMap appended?) = [] :=
      List.eq_nil_of_length_eq_zero (by omega)
    have hflat : d.threads.flatMap (List.filterMap appended?) = [] := by
      rw [hdt]
      simp only [List.flatMap_append, List.flatMap_cons, List.nil_append, hpre, hpost, hrest]
    rw [hpre, hpost, List.nil_append, List.append_nil] at hsequence hnext
    refine ⟨htails rfl, by rw [hflat]; exact Nat.zero_le _, ?_, ?_⟩ <;>
      simp only [numbered, hflat, hcoll, List.append_nil]
    · exact hsequence
    · exact hnext
  · have hflat : d.threads.flatMap (List.filterMap appended?) =
        c.threads.flatMap (List.filterMap appended?) := by
      rw [hdt, hct]
      simp only [List.flatMap_append, List.flatMap_cons, List.filterMap_append, hk,
        List.filterMap_cons, ha, List.nil_append]
    have hnumbered : numbered d = numbered c := by rw [numbered, numbered, hcoll, hflat]
    refine ⟨htails ?_, by rw [hflat]; exact hc.waiting, by rw [hnumbered]; exact hc.sequence,
      by rw [hnumbered, hcoll]; exact hc.next⟩
    exact List.filterMap_eq_nil_iff.2 fun b hb =>
      List.filterMap_eq_nil_iff.1 hk b (List.mem_of_mem_tail hb)

/-! ## Whole runs -/

/-- What a complete run has collected: the history `x`, and the records of `z`. -/
structure Collected (subs : List Subscriber) (x : List ReplayOutcome) (z : List Packet)
    (s : Runtime) : Prop where
  outcomes : s.collector.outcomes.map report = x
  sequence : s.collector.outcomes.map ReplayOutcome.sequence =
    (List.range s.collector.outcomes.length).map UInt64.ofNat
  records : subs.count .replayRecorder = 1 → s.recorder.records.map ReplayRecord.packet = z

/-- The invariant of a run in which the injected failures come first. -/
def InOrder (subs : List Subscriber) (cfg : FailureConfig) (x : List ReplayOutcome)
    (z : List Packet) (c : Config Runtime Action) : Prop :=
  Numbered c ∧ ∃ tw tp, c.threads = [tw, tp] ∧ Ordered subs cfg x z c.shared tw tp

theorem mem_flow_of_appended {t : List Action} {o : ReplayOutcome}
    (h : o ∈ t.filterMap appended?) : report o ∈ t.flatMap (flow cfg) := by
  obtain ⟨b, hb, hbo⟩ := List.mem_filterMap.1 h
  cases b <;> cases hbo
  exact List.mem_flatMap.2 ⟨_, hb, by simp [flow]⟩

theorem InOrder.step (hcfg : cfg.ByLifecycle) (hs : Collecting subs) (hx : FailuresFirst cfg x)
    (hlen : x.length ≤ maxQueueSize) {c d : Config Runtime Action} (hc : InOrder subs cfg x z c)
    (h : Step program c a d) : InOrder subs cfg x z d := by
  obtain ⟨hnum, tw, tp, hthreads, ho⟩ := hc
  obtain ⟨w, k, he, hr⟩ := step_spec h
  have hdestroyed := ho.working.bus.destroyed
  rcases hr.two hthreads with ⟨rest, rfl, hd⟩ | ⟨rest, rfl, hd⟩
  · refine ⟨hnum.step hdestroyed he hr fun msg t ha ht => ?_, _, _, hd,
      ho.exec_worker hcfg hs he⟩
    subst ha
    have hrest := hnum.tail _ (by rw [hthreads]; exact List.mem_cons_self ..)
    rw [List.tail_cons] at hrest
    rw [hthreads]
    simp only [List.flatMap_cons, List.flatMap_nil, List.append_nil, List.filterMap_cons,
      appended?, hrest, List.nil_append]
    refine List.eq_nil_iff_forall_not_mem.2 fun o hmem => ?_
    -- the publishing thread waits with an injected failure, so the worker has nothing in hand
    obtain ⟨b, hb, hbo⟩ := List.mem_filterMap.1 hmem
    cases b <;> cases hbo
    have hkill : cfg.Kills (report o).lifecycle_id := ho.publishing.actions _ hb
    have hnil := (ho.alone hx (mem_flow_of_appended hmem) hkill).1
    simp [flow, ht] at hnil
  · refine ⟨hnum.step hdestroyed he hr fun msg t ha ht => ?_, _, _, hd,
      ho.exec_publisher hcfg hs hx hlen he⟩
    subst ha
    have hrest := hnum.tail (.deliver .replayOutcomeCollector msg :: rest) (by simp [hthreads])
    rw [List.tail_cons] at hrest
    rw [hthreads]
    simp only [List.flatMap_cons, List.flatMap_nil, List.append_nil, List.filterMap_cons,
      appended?, hrest]
    refine List.eq_nil_iff_forall_not_mem.2 fun o hmem => ?_
    have hkill : cfg.Kills (ReplayOutcome.of 0 t).lifecycle_id := by
      rw [of_lifecycle_id]
      exact ho.publishing.actions _ (List.mem_cons_self ..) t ht
    have hnil := (ho.alone hx (o := ReplayOutcome.of 0 t) (by simp [flow, ht]) hkill).1
    have hflow : report o ∈ tw.flatMap (flow cfg) := mem_flow_of_appended hmem
    rw [hnil] at hflow
    cases hflow

theorem flatMap_of_drained {β : Type*} {c : Config Runtime Action} (hd : Drained c)
    {f : Action → List β} (hf : f .processLoop = []) {t : List Action} (ht : t ∈ c.threads) :
    t.flatMap f = [] := by
  rw [List.flatMap_eq_nil_iff]
  intro a ha
  rw [hd.2 t ht a ha, hf]

/-- At the end the history has been collected. -/
theorem InOrder.collected {c : Config Runtime Action} (hc : InOrder subs cfg x z c)
    (hd : Drained c) : Collected subs x z c.shared := by
  obtain ⟨hnum, tw, tp, hthreads, ho⟩ := hc
  have htw : tw ∈ c.threads := by simp [hthreads]
  have htp : tp ∈ c.threads := by simp [hthreads]
  have hnumbered : numbered c = c.shared.collector.outcomes := by
    have hnil : c.threads.flatMap (List.filterMap appended?) = [] := by
      rw [List.flatMap_eq_nil_iff]
      intro t ht
      rw [List.filterMap_eq_nil_iff]
      intro a ha
      rw [hd.2 t ht a ha]
      rfl
    rw [numbered, hnil, List.append_nil]
  have hhist := ho.history
  rw [flatMap_of_drained hd rfl htw, flatMap_of_drained hd rfl htp, hd.1] at hhist
  refine ⟨by simpa using hhist, ?_, fun hrec => ?_⟩
  · have := hnum.sequence
    rwa [hnumbered] at this
  · have := ho.publishing.records hrec
    rwa [flatMap_of_drained hd rfl htp, List.append_nil] at this

/-- Any complete run from a publishing thread collects the verdicts in their order. -/
theorem collected_of_reaches (hcfg : cfg.ByLifecycle) (hs : Collecting subs)
    (engine : Option SwitchForwardingEngine) (transport : Option TransportManager) (tp : List Action)
    (hx : FailuresFirst cfg (tp.flatMap (flow cfg)))
    (hlen : (tp.flatMap (flow cfg)).length ≤ maxQueueSize) (hpub : ∀ a ∈ tp, OnPublisher cfg a)
    (happ : tp.filterMap appended? = []) {c : Config Runtime Action}
    (hr : Reaches program anyStep (start (initial subs cfg engine transport) [tp]) c)
    (hd : Drained c) :
    Collected subs (tp.flatMap (flow cfg)) (tp.flatMap captured) c.shared := by
  have hwaiting : (start (initial subs cfg engine transport) [tp]).threads.flatMap
      (List.filterMap appended?) = [] := by
    show [Action.processLoop].filterMap appended? ++ (tp.filterMap appended? ++ []) = []
    rw [happ]
    rfl
  have hnumbered : Numbered (start (initial subs cfg engine transport) [tp]) := by
    refine ⟨fun t ht => ?_, by rw [hwaiting]; exact Nat.zero_le _, ?_, ?_⟩
    · rcases List.mem_pair.1 ht with rfl | rfl
      · rfl
      · exact List.filterMap_eq_nil_iff.2 fun b hb =>
          List.filterMap_eq_nil_iff.1 happ b (List.mem_of_mem_tail hb)
    · rw [numbered, hwaiting]
      rfl
    · rw [numbered, hwaiting]
      rfl
  have hordered : Ordered subs cfg (tp.flatMap (flow cfg)) (tp.flatMap captured)
      (initial subs cfg engine transport) [.processLoop] tp := by
    refine ⟨⟨⟨rfl, rfl, rfl⟩, hpub, fun _ => rfl⟩, ⟨⟨rfl, rfl, rfl⟩, ?_, ?_, ?_⟩,
      Or.inr ⟨[], rfl, by simp⟩, rfl⟩
    · intro b hb
      rw [List.mem_singleton.1 hb]
      trivial
    · intro o ho
      cases ho
    · intro p hp
      cases hp
  have hc : InOrder subs cfg (tp.flatMap (flow cfg)) (tp.flatMap captured) c :=
    hr.invariant ⟨hnumbered, _, _, rfl, hordered⟩ fun _ _ _ hc _ hstep =>
      hc.step hcfg hs hx hlen hstep
  exact hc.collected hd

/-! ## One schedule -/

/-- What has been collected, what is in the queue and what is recorded at a point of a run where the
publishing thread rests. -/
structure Resting (subs : List Subscriber) (cfg : FailureConfig) (x : List ReplayOutcome)
    (z : List Packet) (q : List Packet) (s : Runtime) : Prop where
  bus : Bus subs cfg s
  queue : s.queue = q
  spared : ∀ p ∈ q, ¬ cfg.Kills p.lifecycle_id
  outcomes : s.collector.outcomes.map report = x
  records : subs.count .replayRecorder = 1 → s.recorder.records.map ReplayRecord.packet = z

/-- On its own, the publishing thread reports the injected failures and queues the rest. -/
theorem solo_publish (hcfg : cfg.ByLifecycle) (hs : Collecting subs) {t : List Action}
    (hpub : ∀ a ∈ t, OnPublisher cfg a) (hruns : ∀ a ∈ t, Runs a)
    (hlen : (t.flatMap (flow cfg)).length ≤ maxQueueSize) :
    Solo program (Resting subs cfg x z []) t fun s =>
      ∃ q, q.map (verdict cfg) = (t.flatMap (flow cfg)).filter (¬ cfg.Kills ·.lifecycle_id) ∧
        Resting subs cfg (x ++ (t.flatMap (flow cfg)).filter (cfg.Kills ·.lifecycle_id))
          (z ++ t.flatMap captured) q s := by
  have hsolo := solo_of_runs hs.client (S := Runs) (J := fun _ => True) (fun _ ha => ha)
    (fun _ _ _ _ hb => hb) (fun _ _ _ _ _ _ _ h => h) hruns
  have hrest : Solo program (Resting subs cfg x z []) t fun _ => True :=
    hsolo.consequence (fun s h => ⟨h.bus.subscribers, trivial⟩) fun _ _ => trivial
  have hend := hrest.track
    (fun t' s => Publishing subs cfg (z ++ t.flatMap captured) s t' ∧
      s.collector.outcomes.map report ++ (t'.flatMap (flow cfg)).filter (cfg.Kills ·.lifecycle_id) =
        x ++ (t.flatMap (flow cfg)).filter (cfg.Kills ·.lifecycle_id) ∧
      s.queue.map (verdict cfg) ++ (t'.flatMap (flow cfg)).filter (¬ cfg.Kills ·.lifecycle_id) =
        (t.flatMap (flow cfg)).filter (¬ cfg.Kills ·.lifecycle_id) ∧
      ∀ p ∈ s.queue, ¬ cfg.Kills p.lifecycle_id) (fun s h => ?_) ?_
  · refine hend.consequence (fun _ h => h) fun s h => ?_
    obtain ⟨-, hp, hout, hqueue, hspared⟩ := h
    refine ⟨s.queue, ?_, hp.bus, rfl, hspared, ?_, fun hrec => ?_⟩
    · simpa using hqueue
    · simpa using hout
    · simpa using hp.records hrec
  · refine ⟨⟨h.bus, hpub, fun hrec => ?_⟩, ?_, ?_, ?_⟩
    · rw [h.records hrec]
    · rw [h.outcomes]
    · rw [h.queue]
      rfl
    · rw [h.queue]
      exact h.spared
  · rintro a o rest s s' k he ⟨hp, hout, hqueue, hspared⟩
    have ha := hp.actions a (by simp)
    have hadm : ∀ p t, a = .enqueue p t → s.queue.length < maxQueueSize := by
      rintro p t' rfl
      have hkill : ¬ cfg.Kills p.lifecycle_id := ha
      have hone : ((flow cfg (.enqueue p t')).filter (¬ cfg.Kills ·.lifecycle_id)).length = 1 := by
        simp [flow, hkill]
      have hle := List.length_filter_le (fun o : ReplayOutcome => ¬ cfg.Kills o.lifecycle_id)
        (t.flatMap (flow cfg))
      rw [← hqueue, List.flatMap_cons, List.filter_append, List.length_append, List.length_append,
        List.length_map, hone] at hle
      omega
    refine ⟨hp.exec hcfg hs hadm he, ?_⟩
    rw [List.flatMap_cons, List.filter_append] at hout hqueue
    rw [List.flatMap_append, List.filter_append, List.filter_append]
    cases exec_flow hcfg hs hp.bus (Or.inl ha) (by rintro p rfl; exact ha.elim) hadm he with
    | stays hq ho hk =>
      rw [hq, ho, hk]
      exact ⟨hout, hqueue, hspared⟩
    | admitted p t' ha' hq ho hk =>
      subst ha' hk
      have hkill : ¬ cfg.Kills p.lifecycle_id := ha
      rw [hq, ho]
      refine ⟨?_, ?_, fun q hmem => ?_⟩
      · simpa [flow, hkill] using hout
      · simpa [flow, hkill] using hqueue
      · rcases List.mem_append.1 hmem with hmem | hmem
        · exact hspared q hmem
        · rw [List.mem_singleton.1 hmem]
          exact hkill
    | popped p ha' => subst ha'; exact ha.elim
    | collected o ha' hq ho hk =>
      subst ha' hk
      have hkill : cfg.Kills (report o).lifecycle_id := ha
      rw [hq, ho]
      refine ⟨?_, ?_, hspared⟩
      · simpa [flow, hkill] using hout
      · simpa [flow, hkill] using hqueue

/-- On its own, the worker empties the queue. -/
theorem drain_resting (hcfg : cfg.ByLifecycle) (hs : Collecting subs) (t : List Action)
    {q : List Packet} (hq : Resting subs cfg x z q s) : ∃ s',
    Resting subs cfg (x ++ q.map (verdict cfg)) z [] s' ∧
      Reaches program anyStep ⟨s, [[.processLoop], t]⟩ ⟨s', [[.processLoop], t]⟩ := by
  have hwork : ∀ p q', Solo program
      (fun s' => ¬ cfg.Kills p.lifecycle_id ∧ ∃ y, y ++ verdict cfg p :: q'.map (verdict cfg) =
        x ++ q.map (verdict cfg) ∧ Resting subs cfg y z q' s')
      [.processPacket p]
      (fun s' => ∃ y, y ++ q'.map (verdict cfg) = x ++ q.map (verdict cfg) ∧
        Resting subs cfg y z q' s') := by
    intro p q'
    have hrest : Solo program
        (fun s' => ¬ cfg.Kills p.lifecycle_id ∧ ∃ y, y ++ verdict cfg p :: q'.map (verdict cfg) =
          x ++ q.map (verdict cfg) ∧ Resting subs cfg y z q' s') [.processPacket p] fun _ => True :=
      (solo_processPacket hs.client p q').consequence
        (fun s' h => by obtain ⟨-, y, -, h⟩ := h; exact ⟨h.bus.subscribers, h.queue⟩)
        fun _ _ => trivial
    have hend := hrest.track
      (fun t' s' => Working subs cfg s' t' ∧ .processLoop ∉ t' ∧ s'.queue = q' ∧
        s'.collector.outcomes.map report ++ t'.flatMap (flow cfg) ++ q'.map (verdict cfg) =
          x ++ q.map (verdict cfg) ∧
        (subs.count .replayRecorder = 1 → s'.recorder.records.map ReplayRecord.packet = z))
      ?_ ?_
    · refine hend.consequence (fun _ h => h) fun s' h => ?_
      obtain ⟨-, hw, -, hqueue, hout, hrec⟩ := h
      refine ⟨_, ?_, hw.bus, hqueue, hqueue ▸ hw.queue, rfl, hrec⟩
      simpa using hout
    · rintro s' ⟨hkill, y, hy, h⟩
      refine ⟨⟨h.bus, ?_, ?_, h.queue ▸ h.spared⟩, by simp, h.queue, ?_, h.records⟩
      · intro b hb
        rw [List.mem_singleton.1 hb]
        trivial
      · simpa [flow] using hkill
      · rw [h.outcomes, ← hy]
        simp [flow]
    · rintro a o rest s' s'' k he ⟨hw, hloop, hqueue, hout, hrec⟩
      have ha := hw.actions a (by simp)
      rw [List.mem_cons, not_or] at hloop
      refine ⟨hw.exec hcfg hs he, fun hmem => ?_, ?_, ?_, fun h => ?_⟩
      · rcases List.mem_append.1 hmem with hmem | hmem
        · exact hloop.1 (eq_processLoop_of_leaves (exec_leaves he _ hmem)).symm
        · exact hloop.2 hmem
      · rw [(exec_frame he).queue (by rintro p t rfl; exact ha) (Ne.symm hloop.1), hqueue]
      · rw [List.flatMap_cons] at hout
        rw [List.flatMap_append]
        cases hw.moves hcfg hs he with
        | stays hq ho hk =>
          rw [ho, hk]
          exact hout
        | admitted p t ha' => subst ha'; exact ha.elim
        | popped p ha' => exact absurd ha'.symm hloop.1
        | collected o ha' hq ho hk =>
          subst ha' hk
          rw [ho]
          simpa [flow] using hout
      · rw [exec_recorder ha he]
        exact hrec h
  have hpop : ∀ p q' s', (∃ y, y ++ (p :: q').map (verdict cfg) = x ++ q.map (verdict cfg) ∧
      Resting subs cfg y z (p :: q') s') → ¬ cfg.Kills p.lifecycle_id ∧
      ∃ y, y ++ verdict cfg p :: q'.map (verdict cfg) = x ++ q.map (verdict cfg) ∧
        Resting subs cfg y z q' { s' with queue := q' } := by
    rintro p q' s' ⟨y, hy, h⟩
    exact ⟨h.spared p (by simp), y, hy, ⟨h.bus.subscribers, h.bus.destroyed, h.bus.config⟩, rfl,
      fun p' hp' => h.spared p' (by simp [hp']), h.outcomes, h.records⟩
  obtain ⟨s', ⟨y, hy, hrest⟩, hr⟩ := drain (Φ := fun q' s' => ∃ y, y ++ q'.map (verdict cfg) =
    x ++ q.map (verdict cfg) ∧ Resting subs cfg y z q' s') (fun _ _ h => h.choose_spec.2.queue)
    hpop hwork t q s ⟨x, rfl, hq⟩
  rw [List.map_nil, List.append_nil] at hy
  exact ⟨s', hy ▸ hrest, hr⟩

/-- The publishing thread does `t` and rests, and then the worker empties the queue. -/
theorem publish_drain (hcfg : cfg.ByLifecycle) (hs : Collecting subs) (t rest : List Action)
    (hpub : ∀ a ∈ t, OnPublisher cfg a) (hruns : ∀ a ∈ t, Runs a)
    (hlen : (t.flatMap (flow cfg)).length ≤ maxQueueSize) (h : Resting subs cfg x z [] s) : ∃ s',
    Resting subs cfg (x ++ ((t.flatMap (flow cfg)).filter (cfg.Kills ·.lifecycle_id) ++
      (t.flatMap (flow cfg)).filter (¬ cfg.Kills ·.lifecycle_id))) (z ++ t.flatMap captured) [] s' ∧
    Reaches program anyStep ⟨s, [[.processLoop], t ++ rest]⟩ ⟨s', [[.processLoop], rest]⟩ := by
  obtain ⟨s₁, ⟨q, hq, h₁⟩, hr₁⟩ :=
    (solo_publish hcfg hs hpub hruns hlen).reaches h [[.processLoop]] [] rest
  obtain ⟨s₂, h₂, hr₂⟩ := drain_resting hcfg hs rest h₁
  rw [hq, List.append_assoc] at h₂
  exact ⟨s₂, h₂, hr₁.trans hr₂⟩

/-- In lock step every packet has its outcome before the next one is published. -/
theorem lock_step (hcfg : cfg.ByLifecycle) (hs : Collecting subs) (packets : List Packet)
    (h : Resting subs cfg x z [] s) : ∃ s',
    Resting subs cfg (x ++ packets.map (verdict cfg)) (z ++ packets) [] s' ∧
    Reaches program anyStep
      ⟨s, [[.processLoop], packets.map fun packet => .publish .publisher packet.rxMessage]⟩
      ⟨s', [[.processLoop], []]⟩ := by
  induction packets generalizing s x z with
  | nil => exact ⟨s, by simpa using h, Reaches.refl _⟩
  | cons p packets ih =>
    have hpublish : ∀ a ∈ [Action.publish .publisher p.rxMessage], OnPublisher cfg a ∧ Runs a := by
      intro a ha
      rw [List.mem_singleton.1 ha]
      exact ⟨rfl, trivial⟩
    obtain ⟨s₁, h₁, hr₁⟩ := publish_drain hcfg hs [.publish .publisher p.rxMessage]
      (packets.map fun packet => .publish .publisher packet.rxMessage)
      (fun a ha => (hpublish a ha).1) (fun a ha => (hpublish a ha).2)
      (show 1 ≤ maxQueueSize by decide) h
    have hone : [verdict cfg p].filter (cfg.Kills ·.lifecycle_id) ++
        [verdict cfg p].filter (¬ cfg.Kills ·.lifecycle_id) = [verdict cfg p] := by
      by_cases hkill : cfg.Kills p.lifecycle_id <;> simp [hkill]
    have h₁' : Resting subs cfg (x ++ [verdict cfg p]) (z ++ [p]) [] s₁ := by
      rw [← hone]
      exact h₁
    obtain ⟨s', h', hr'⟩ := ih h₁'
    refine ⟨s', ?_, hr₁.trans hr'⟩
    rw [List.append_assoc, List.append_assoc] at h'
    exact h'

theorem resting_initial (subs : List Subscriber) (cfg : FailureConfig)
    (engine : Option SwitchForwardingEngine) (transport : Option TransportManager) :
    Resting subs cfg [] [] [] (initial subs cfg engine transport) :=
  ⟨⟨rfl, rfl, rfl⟩, rfl, by simp, rfl, fun _ => rfl⟩

/-! ## Replays -/

theorem failuresFirst_verdict {packets : List Packet} :
    FailuresFirst cfg (packets.map (verdict cfg)) ↔ KilledFirst cfg packets := by
  unfold FailuresFirst KilledFirst
  simp [List.pairwise_map]

/-- A history that lists the failures and then the rest has the failures first. -/
theorem failuresFirst_of_filter (h : x.filter (cfg.Kills ·.lifecycle_id) ++
    x.filter (¬ cfg.Kills ·.lifecycle_id) = x) : FailuresFirst cfg x := by
  unfold FailuresFirst
  rw [← h, List.pairwise_append]
  refine ⟨List.pairwise_of_forall_mem_list fun o ho o' _ _ => ?_,
    List.pairwise_of_forall_mem_list fun o _ o' ho' hkill => ?_, fun o ho o' _ _ => ?_⟩
  · simpa using (List.mem_filter.1 ho).2
  · have := (List.mem_filter.1 ho').2
    simp [hkill] at this
  · simpa using (List.mem_filter.1 ho).2

theorem eq_of_report {y : List ReplayOutcome} (hreport : x.map report = y.map report)
    (hsequence : x.map ReplayOutcome.sequence = y.map ReplayOutcome.sequence) : x = y := by
  induction x generalizing y with
  | nil => simpa using hreport.symm
  | cons o x ih =>
    cases y with
    | nil => simp at hreport
    | cons o' y =>
      simp only [List.map_cons, List.cons.injEq] at hreport hsequence
      rw [ih hreport.2 hsequence.2]
      obtain ⟨n, type, id, reason⟩ := o
      obtain ⟨n', type', id', reason'⟩ := o'
      obtain ⟨-, rfl, rfl, rfl⟩ := ReplayOutcome.mk.inj hreport.1
      obtain rfl : n' = n := hsequence.1.symm
      rfl

/-- Complete runs with one history have collected the same outcomes. -/
theorem Collected.unique {subs' : List Subscriber} {z' : List Packet} (h : Collected subs x z s)
    (h' : Collected subs' x z' s') : s'.collector.outcomes = s.collector.outcomes := by
  have hlen : s'.collector.outcomes.length = s.collector.outcomes.length := by
    simpa using congrArg List.length (h'.outcomes.trans h.outcomes.symm)
  refine eq_of_report (h'.outcomes.trans h.outcomes.symm) ?_
  rw [h'.sequence, h.sequence, hlen]

theorem flow_recorded (packets : List Packet) :
    (packets.map fun packet => Action.publish .publisher packet.rxMessage).flatMap (flow cfg) =
      packets.map (verdict cfg) := by
  induction packets with
  | nil => rfl
  | cons p packets ih => rw [List.map_cons, List.flatMap_cons, ih]; rfl

theorem flow_replayed (records : List ReplayRecord) :
    [Action.replay records].flatMap (flow cfg) =
      (records.map ReplayRecord.packet).map (verdict cfg) := by
  simp [flow]

/-- Every complete replay of every complete run ends with the outcomes of that run if and only if the
packets with an injected failure were published first. -/
theorem replay_outcomes_iff {subs' : List Subscriber} (hcfg : cfg.ByLifecycle)
    (hs : Collecting subs) (hrec : subs.count .replayRecorder = 1) (hs' : Collecting subs')
    (engine engine' : Option SwitchForwardingEngine) (transport transport' : Option TransportManager)
    {packets : List Packet} (hlen : packets.length ≤ 1024) :
    (∀ c c', Reaches program anyStep (recorded subs cfg engine transport packets) c → Drained c →
      Reaches program anyStep
        (replayed subs' cfg engine' transport' c.shared.recorder.records) c' → Drained c' →
      c'.shared.collector.outcomes = c.shared.collector.outcomes) ↔ KilledFirst cfg packets := by
  have hlen' : (packets.map (verdict cfg)).length ≤ maxQueueSize := by rwa [List.length_map]
  have hrecords : ∀ {records : List ReplayRecord}, records.map ReplayRecord.packet = packets →
      [Action.replay records].flatMap (flow cfg) = packets.map (verdict cfg) := by
    intro records h
    rw [flow_replayed, h]
  constructor
  · intro h
    obtain ⟨s, hrest, hr⟩ := lock_step hcfg hs packets (resting_initial subs cfg engine transport)
    have hpackets : s.recorder.records.map ReplayRecord.packet = packets := hrest.records hrec
    have hlength : ([Action.replay s.recorder.records].flatMap (flow cfg)).length ≤ maxQueueSize := by
      rwa [hrecords hpackets]
    obtain ⟨s', hrest', hr'⟩ := publish_drain hcfg hs' [.replay s.recorder.records] []
      (by simp [OnPublisher]) (by simp [Runs]) hlength (resting_initial subs' cfg engine' transport')
    have heq := congrArg (List.map report)
      (h _ _ hr ⟨hrest.queue, by simp⟩ hr' ⟨hrest'.queue, by simp⟩)
    rw [hrest.outcomes, hrest'.outcomes, hrecords hpackets, List.nil_append, List.nil_append] at heq
    exact failuresFirst_verdict.1 (failuresFirst_of_filter heq)
  · intro h c c' hr hd hr' hd'
    have hx := failuresFirst_verdict.2 h
    have hc := collected_of_reaches hcfg hs engine transport
      (packets.map fun packet : Packet => .publish .publisher packet.rxMessage)
      (by rwa [flow_recorded]) (by rwa [flow_recorded]) ?_ ?_ hr hd
    · rw [flow_recorded, captured_recorded] at hc
      have hpackets := hrecords (hc.records hrec)
      have hc' := collected_of_reaches hcfg hs' engine' transport'
        [.replay c.shared.recorder.records] (by rwa [hpackets]) (by rwa [hpackets])
        (by simp [OnPublisher]) rfl hr' hd'
      rw [hpackets] at hc'
      exact hc.unique hc'
    · intro a ha
      obtain ⟨p, -, rfl⟩ := List.mem_map.1 ha
      exact rfl
    · rw [List.filterMap_eq_nil_iff]
      intro a ha
      obtain ⟨p, -, rfl⟩ := List.mem_map.1 ha
      rfl

/-- The first packet is lost and the second one processed. -/
theorem replay_outcomes_loss_first :
    KilledFirst { enabled := true, lifecycle_rules := [⟨1, .simulatedLoss⟩] }
        [{ lifecycle_id := 1, timestamp_ms := 5 }, { lifecycle_id := 2, timestamp_ms := 5 }] ∧
      ∀ c c', Reaches program anyStep
        (recorded [.packetProcessor, .replayRecorder, .replayOutcomeCollector]
          { enabled := true, lifecycle_rules := [⟨1, .simulatedLoss⟩] } none none
          [{ lifecycle_id := 1, timestamp_ms := 5 }, { lifecycle_id := 2, timestamp_ms := 5 }]) c →
      Drained c →
      Reaches program anyStep (replayed [.packetProcessor, .replayOutcomeCollector]
        { enabled := true, lifecycle_rules := [⟨1, .simulatedLoss⟩] } none none
        c.shared.recorder.records) c' →
      Drained c' → c'.shared.collector.outcomes = c.shared.collector.outcomes := by
  have hs : Collecting [.packetProcessor, .replayRecorder, .replayOutcomeCollector] :=
    ⟨by decide, by decide, by simp⟩
  have hs' : Collecting [.packetProcessor, .replayOutcomeCollector] :=
    ⟨by decide, by decide, by simp⟩
  exact ⟨by decide, (replay_outcomes_iff (Or.inl rfl) hs (by decide) hs' none none none none
    (by decide)).2 (by decide)⟩

/-- The loss of the second packet is reported before the first packet has been processed, or after
it. -/
theorem replay_outcomes_overtaken : ∃ c c',
    Reaches program anyStep (recorded [.packetProcessor, .replayRecorder, .replayOutcomeCollector]
      { enabled := true, lifecycle_rules := [⟨2, .simulatedLoss⟩] } none none
      [{ lifecycle_id := 1, timestamp_ms := 5 }, { lifecycle_id := 2, timestamp_ms := 5 }]) c ∧
    Drained c ∧
    Reaches program anyStep (replayed [.packetProcessor, .replayOutcomeCollector]
      { enabled := true, lifecycle_rules := [⟨2, .simulatedLoss⟩] } none none
      c.shared.recorder.records) c' ∧
    Drained c' ∧ c.shared.collector.outcomes.map ReplayOutcome.lifecycle_id = [1, 2] ∧
    c'.shared.collector.outcomes.map ReplayOutcome.lifecycle_id = [2, 1] := by
  have hrecorded : ∃ c, play program anyStep
      ((List.replicate 6 1 ++ List.replicate 5 0 ++ List.replicate 8 1).map fun i => (i, {}))
      (recorded [.packetProcessor, .replayRecorder, .replayOutcomeCollector]
        { enabled := true, lifecycle_rules := [⟨2, .simulatedLoss⟩] } none none
        [{ lifecycle_id := 1, timestamp_ms := 5 }, { lifecycle_id := 2, timestamp_ms := 5 }]) =
        some c ∧
      (c.shared.queue = [] ∧ c.threads = [[.processLoop], []]) ∧
      c.shared.recorder.records = [⟨0, { lifecycle_id := 1, timestamp_ms := 5 }⟩,
        ⟨1, { lifecycle_id := 2, timestamp_ms := 5 }⟩] ∧
      c.shared.collector.outcomes.map ReplayOutcome.lifecycle_id = [1, 2] :=
    ⟨_, rfl, ⟨rfl, rfl⟩, rfl, rfl⟩
  have hreplayed : ∃ c', play program anyStep
      ((List.replicate 13 1 ++ List.replicate 5 0).map fun i => (i, {}))
      (replayed [.packetProcessor, .replayOutcomeCollector]
        { enabled := true, lifecycle_rules := [⟨2, .simulatedLoss⟩] } none none
        [⟨0, { lifecycle_id := 1, timestamp_ms := 5 }⟩,
          ⟨1, { lifecycle_id := 2, timestamp_ms := 5 }⟩]) = some c' ∧
      (c'.shared.queue = [] ∧ c'.threads = [[.processLoop], []]) ∧
      c'.shared.collector.outcomes.map ReplayOutcome.lifecycle_id = [2, 1] :=
    ⟨_, rfl, ⟨rfl, rfl⟩, rfl⟩
  obtain ⟨c, hplay, hdrained, hrecords, hids⟩ := hrecorded
  obtain ⟨c', hplay', hdrained', hids'⟩ := hreplayed
  refine ⟨c, c', reaches_of_play hplay, ⟨hdrained.1, by simp [hdrained.2]⟩, ?_,
    ⟨hdrained'.1, by simp [hdrained'.2]⟩, hids, hids'⟩
  rw [hrecords]
  exact reaches_of_play hplay'

end Runtime

end EdgeNetSwitch
