import EdgeNetSwitch.Daemon.ReplayRuns
import EdgeNetSwitch.Daemon.Proofs.RuntimeProofs
import EdgeNetSwitch.Failure.Proofs.FailureScheduleProofs

/-!
# Proofs: the flow of outcomes

Every action that has a packet or an outcome in hand stands for one entry of the terminal history
(`flow`). An action either leaves its entries to the actions that replace it, or moves one to the
queue (`enqueue`) or to the collector (`appendOutcome`); the worker takes one from the queue.
-/

namespace EdgeNetSwitch

namespace Runtime

open Threads PacketProcessor

variable {s s' : Runtime} {a b : Action} {w : Env} {k : List Action} {cfg : FailureConfig}
  {subs : List Subscriber}

/-- The entry a message stands for. -/
def messageFlow (cfg : FailureConfig) (msg : Message) : Option ReplayOutcome :=
  (msg.packetRx?.map (verdict cfg)).or (msg.terminal?.map (ReplayOutcome.of 0))

/-- The entries of the terminal history an action has in hand. -/
def flow (cfg : FailureConfig) : Action → List ReplayOutcome
  | .publish _ msg => (messageFlow cfg msg).toList
  | .deliver .packetProcessor msg => (msg.packetRx?.map (verdict cfg)).toList
  | .deliver .replayOutcomeCollector msg => (msg.terminal?.map (ReplayOutcome.of 0)).toList
  | .inject p | .enqueue p _ | .processPacket p => [verdict cfg p]
  | .appendOutcome o => [report o]
  | .replay records => records.map fun record => verdict cfg record.packet
  | _ => []

/-- The state the flow depends on. -/
structure Bus (subs : List Subscriber) (cfg : FailureConfig) (s : Runtime) : Prop where
  subscribers : s.subscribers = subs
  destroyed : s.destroyed = []
  config : s.injector.config = cfg

/-- The actions of the thread that publishes packets. What it reports itself are injected failures,
and what it admits are the other packets. -/
def OnPublisher (cfg : FailureConfig) : Action → Prop
  | .publish .processor msg => msg.type = .packetDropped ∧
      ∀ x ∈ (messageFlow cfg msg).toList, cfg.Kills x.lifecycle_id
  | .publish .publisher msg | .publish .replayPlayer msg => msg.type = .packetRx
  | .deliver .replayOutcomeCollector msg => ∀ t, msg.terminal? = some t → cfg.Kills t.lifecycle_id
  | .deliver (.client _) _ => False
  | .deliver _ _ | .inject _ | .appendRecord _ | .replay _ => True
  | .enqueue p _ => ¬ cfg.Kills p.lifecycle_id
  | .appendOutcome o => cfg.Kills o.lifecycle_id
  | _ => False

@[simp] theorem verdict_lifecycle_id (cfg : FailureConfig) (p : Packet) :
    (verdict cfg p).lifecycle_id = p.lifecycle_id := by
  unfold verdict
  split_ifs <;> rfl

@[simp] theorem of_lifecycle_id (n : UInt64) (t : Terminal) :
    (ReplayOutcome.of n t).lifecycle_id = t.lifecycle_id := by
  cases t <;> rfl

theorem report_of (n : UInt64) (t : Terminal) :
    report (ReplayOutcome.of n t) = ReplayOutcome.of 0 t := by
  cases t <;> rfl

/-- A policy of lifecycle rules looks at the lifecycle only. -/
theorem inject_eq (hcfg : cfg.ByLifecycle) {i : FailureInjector} (hi : i.config = cfg) (p : Packet) :
    i.inject p = (cfg.injected p.lifecycle_id, i) := by
  subst hi
  unfold FailureConfig.injected FailureInjector.inject
  by_cases he : i.config.enabled
  · simp only [he, Bool.not_true, Bool.false_eq_true, if_false]
    cases i.config.lifecycle_rules.find? fun rule => rule.lifecycle_id == p.lifecycle_id with
    | some rule => rfl
    | none =>
      rcases hcfg with hn | ht
      · simp [hn]
      · simp [ht]
  · simp [he]

theorem exec_inject (hcfg : cfg.ByLifecycle) (hs : s.injector.config = cfg) (p : Packet) :
    exec (.inject p) w s = some (s, if cfg.Kills p.lifecycle_id then
      [.publish .processor (dropMessage p (cfg.injected p.lifecycle_id).type.dropReason w.now_ms)]
      else [.enqueue p w.now_ms]) := by
  simp only [exec, inject_eq hcfg hs]
  rfl

/-- What the failed packets are reported as. -/
theorem messageFlow_dropMessage (p : Packet) (reason : PacketDropReason) (t : UInt64) :
    messageFlow cfg (dropMessage p reason t) =
      some { type := .dropped, lifecycle_id := p.lifecycle_id, drop_reason := reason } := rfl

theorem messageFlow_processedMessage (p : Packet) :
    messageFlow cfg (processedMessage p) = some { lifecycle_id := p.lifecycle_id } := rfl

theorem messageFlow_forwardingMessage (p : Packet) (decision : ForwardingDecision) :
    messageFlow cfg (forwardingMessage p decision) = none := rfl

/-- The one subscriber a message is meant for gets its entries. -/
theorem flatMap_deliver {β : Type*} (f : Action → List β) {sub : Subscriber} {msg : Message}
    (hf : ∀ sub', sub' ≠ sub → f (.deliver sub' msg) = []) (p : Subscriber → Bool) (hp : p sub)
    (hcount : subs.count sub ≤ 1) : ((subs.filter p).map (.deliver · msg)).flatMap f =
      if subs.count sub = 1 then f (.deliver sub msg) else [] := by
  induction subs with
  | nil => rfl
  | cons x subs ih =>
    by_cases hx : x = sub
    · subst hx
      rw [List.count_cons_self] at hcount
      have hzero : subs.count x = 0 := by omega
      rw [List.filter_cons_of_pos hp, List.map_cons, List.flatMap_cons, ih (by omega),
        List.count_cons_self, hzero, if_neg (by omega), if_pos (by omega), List.append_nil]
    · have hsame : (x :: subs).count sub = subs.count sub := List.count_cons_of_ne hx
      rw [hsame] at hcount ⊢
      rw [← ih hcount]
      by_cases hpx : p x
      · rw [List.filter_cons_of_pos hpx, List.map_cons, List.flatMap_cons, hf x hx, List.nil_append]
      · rw [List.filter_cons_of_neg hpx]

/-- No subscriber gets an entry from a message that has none. -/
theorem flatMap_deliver_nil {β : Type*} (f : Action → List β) {msg : Message}
    (hf : ∀ sub, f (.deliver sub msg) = []) (l : List Subscriber) :
    (l.map (.deliver · msg)).flatMap f = [] := by
  rw [List.flatMap_eq_nil_iff]
  intro b hb
  obtain ⟨sub, -, rfl⟩ := List.mem_map.1 hb
  exact hf sub

theorem flow_transmit (q : Bool) (ports : List UInt32) (p : Packet) :
    (if q then ports.map (Action.transmit · p) else []).flatMap (flow cfg) = [] := by
  rw [List.flatMap_eq_nil_iff]
  intro b hb
  split_ifs at hb
  · obtain ⟨port, -, rfl⟩ := List.mem_map.1 hb
    rfl
  · cases hb

/-- A message leaves its entry to the subscriber it is meant for. -/
theorem flow_publish (hs : Collecting subs) (msg : Message) :
    ((subs.filter fun sub => msg.type ∈ sub.types).map (.deliver · msg)).flatMap (flow cfg) =
      (messageFlow cfg msg).toList := by
  have hother : ∀ sub, sub ≠ .packetProcessor → sub ≠ .replayOutcomeCollector →
      flow cfg (.deliver sub msg) = [] := by
    intro sub h₁ h₂
    cases sub <;> first | rfl | exact absurd rfl h₁ | exact absurd rfl h₂
  cases hrx : msg.packetRx? with
  | some p =>
    have hterm : msg.terminal? = none :=
      (packetRx?_or_terminal? msg).resolve_left (by simp [hrx])
    have htype := type_of_packetRx? (show msg.packetRx? ≠ none by simp [hrx])
    have hrest : ∀ sub, sub ≠ .packetProcessor → flow cfg (.deliver sub msg) = [] := by
      intro sub hsub
      by_cases hc : sub = .replayOutcomeCollector
      · rw [hc]
        simp [flow, hterm]
      · exact hother sub hsub hc
    rw [flatMap_deliver (flow cfg) hrest _ (by simpa using htype) hs.packetProcessor.le,
      if_pos hs.packetProcessor]
    simp [flow, messageFlow, hrx]
  | none =>
    have hp : flow cfg (.deliver .packetProcessor msg) = [] := by simp [flow, hrx]
    cases hterm : msg.terminal? with
    | some t =>
      have htype : msg.type ∈ Subscriber.types .replayOutcomeCollector := by
        unfold Message.terminal? at hterm
        split at hterm
        all_goals first | cases hterm; done | simp_all [Subscriber.types]
      have hrest : ∀ sub, sub ≠ .replayOutcomeCollector → flow cfg (.deliver sub msg) = [] := by
        intro sub hsub
        by_cases hc : sub = .packetProcessor
        · rw [hc, hp]
        · exact hother sub hc hsub
      rw [flatMap_deliver (flow cfg) hrest _ (by simpa using htype) hs.replayOutcomeCollector.le,
        if_pos hs.replayOutcomeCollector]
      simp [flow, messageFlow, hrx, hterm]
    | none =>
      rw [flatMap_deliver_nil (flow cfg) fun sub => ?_]
      · simp [messageFlow, hrx, hterm]
      · cases sub <;> simp [flow, hrx, hterm]

/-- What an action does to the entries of the history. -/
inductive Moves (cfg : FailureConfig) (a : Action) (s s' : Runtime) (k : List Action) : Prop
  | stays (hq : s'.queue = s.queue) (ho : s'.collector.outcomes = s.collector.outcomes)
    (hk : k.flatMap (flow cfg) = flow cfg a)
  | admitted (p : Packet) (t : UInt64) (ha : a = .enqueue p t) (hq : s'.queue = s.queue ++ [p])
    (ho : s'.collector.outcomes = s.collector.outcomes) (hk : k = [])
  | popped (p : Packet) (ha : a = .processLoop) (hq : s.queue = p :: s'.queue)
    (ho : s'.collector.outcomes = s.collector.outcomes) (hk : k = [.processPacket p, .processLoop])
  | collected (o : ReplayOutcome) (ha : a = .appendOutcome o) (hq : s'.queue = s.queue)
    (ho : s'.collector.outcomes = s.collector.outcomes ++ [o]) (hk : k = [])

theorem exec_flow (hcfg : cfg.ByLifecycle) (hs : Collecting subs) (hbus : Bus subs cfg s)
    (ha : OnPublisher cfg a ∨ OnWorker a)
    (hproc : ∀ p, a = .processPacket p → ¬ cfg.Kills p.lifecycle_id)
    (hadm : ∀ p t, a = .enqueue p t → s.queue.length < maxQueueSize)
    (h : exec a w s = some (s', k)) : Moves cfg a s s' k := by
  have hframe := exec_frame h
  cases a with
  | publish src msg =>
    refine .stays (hframe.queue (by simp) (by simp)) (by rw [hframe.collector (by simp) (by simp)]) ?_
    rw [(exec_publish h).2, hbus.subscribers]
    exact flow_publish hs msg
  | deliver sub msg =>
    have hcall := exec_deliver hbus.destroyed h
    cases sub <;> simp only [callback] at hcall
    case client type => exact (ha.elim id id).elim
    case packetProcessor =>
      split at hcall <;> cases hcall
      · rename_i p hp
        exact .stays rfl rfl (by simp [flow, hp])
      · rename_i hp
        exact .stays rfl rfl (by simp [flow, hp])
    case replayOutcomeCollector =>
      split at hcall <;> cases hcall
      · rename_i t ht
        exact .stays rfl rfl (by simp [flow, ht, report_of])
      · rename_i ht
        exact .stays rfl rfl (by simp [flow, ht])
    case packetStats | replayRecorder =>
      split at hcall <;> cases hcall <;> exact .stays rfl rfl rfl
    case heartbeat | logger =>
      cases hcall
      exact .stays rfl rfl rfl
  | inject p =>
    rw [exec_inject hcfg hbus.config] at h
    cases h
    refine .stays rfl rfl ?_
    by_cases hkill : cfg.Kills p.lifecycle_id
    · simp [flow, messageFlow_dropMessage, verdict, hkill]
    · simp [flow, hkill]
  | enqueue p t =>
    have hlt := hadm p t rfl
    rcases exec_enqueue h with ⟨hfull, -, -⟩ | ⟨-, rfl, rfl⟩
    · omega
    · exact .admitted p t rfl rfl rfl rfl
  | processLoop =>
    rcases exec_processLoop h with ⟨p, queue, hq, rfl, rfl⟩ | ⟨-, -, rfl, rfl⟩
    · exact .popped p rfl hq rfl rfl
    · exact .stays rfl rfl rfl
  | processPacket p =>
    refine .stays (hframe.queue (by simp) (by simp)) (by rw [hframe.collector (by simp) (by simp)]) ?_
    have hkill := hproc p rfl
    have hreject : (rejects p w.now_ms).isSome = (rejects p 0).isSome := by
      unfold rejects
      split_ifs <;> rfl
    rcases exec_processPacket h with ⟨t, ht, -, rfl⟩ | ⟨ht, hrest⟩
    · simp [flow, messageFlow_dropMessage, verdict, hkill, ← hreject, ht]
    · have hverdict : verdict cfg p = { lifecycle_id := p.lifecycle_id } := by
        simp [verdict, hkill, ← hreject, ht]
      rcases hrest with ⟨_, _, decision, _, -, -, -, -, rfl⟩ | ⟨-, -, rfl⟩
      · rw [List.flatMap_append, flow_transmit, List.nil_append]
        simp [flow, messageFlow_forwardingMessage, messageFlow_processedMessage, hverdict, sized]
      · simp [flow, messageFlow_processedMessage, hverdict, sized]
  | appendOutcome o =>
    cases h
    exact .collected o rfl rfl rfl rfl
  | replay records =>
    cases records with
    | nil =>
      cases h
      exact .stays rfl rfl rfl
    | cons record records =>
      cases h
      exact .stays rfl rfl (by simp [flow, messageFlow, Message.packetRx?])
  | appendRecord r | transmit port p =>
    cases h
    exact .stays rfl rfl rfl
  | _ => exact (ha.elim id id).elim

/-- The publishing thread stays what it is, as long as the queue is not full. -/
theorem onPublisher_exec (hcfg : cfg.ByLifecycle) (hs : Collecting subs) (hbus : Bus subs cfg s)
    (ha : OnPublisher cfg a) (hadm : ∀ p t, a = .enqueue p t → s.queue.length < maxQueueSize)
    (h : exec a w s = some (s', k)) : ∀ b ∈ k, OnPublisher cfg b := by
  intro b hb
  have hlb := exec_leaves h b hb
  have hclient := not_deliver_client (fun type => hbus.subscribers ▸ hs.client type) h hb
  cases a with
  | publish src msg =>
    cases b <;> first | exact hlb.elim | skip
    rename_i sub m
    obtain ⟨rfl, htype⟩ := hlb
    cases sub <;> first | trivial | exact absurd rfl (hclient _ _) | skip
    intro t ht
    cases src <;> first | exact ha.elim | skip
    case processor =>
      have hrx : m.packetRx? = none := (packetRx?_or_terminal? m).resolve_right (by simp [ht])
      have := ha.2 (ReplayOutcome.of 0 t) (by simp [messageFlow, hrx, ht])
      rwa [of_lifecycle_id] at this
    all_goals
      have hrx : m.type = .packetRx := ha
      rw [hrx] at htype
      simp [Subscriber.types] at htype
  | deliver sub msg =>
    have hcall := exec_deliver hbus.destroyed h
    cases sub <;> first | exact ha.elim | skip
    case replayOutcomeCollector =>
      simp only [callback] at hcall
      split at hcall <;> cases hcall
      · rename_i t ht
        rw [List.mem_singleton.1 hb]
        show cfg.Kills (ReplayOutcome.of _ t).lifecycle_id
        rw [of_lifecycle_id]
        exact ha t ht
      · cases hb
    all_goals cases b <;> first | exact hlb.elim | trivial
  | inject p =>
    rw [exec_inject hcfg hbus.config] at h
    cases h
    by_cases hkill : cfg.Kills p.lifecycle_id
    · rw [if_pos hkill, List.mem_singleton] at hb
      subst hb
      exact ⟨rfl, by simpa [messageFlow_dropMessage] using hkill⟩
    · rw [if_neg hkill, List.mem_singleton] at hb
      subst hb
      exact hkill
  | enqueue p t =>
    have hlt := hadm p t rfl
    rcases exec_enqueue h with ⟨hfull, -, -⟩ | ⟨-, -, rfl⟩
    · omega
    · cases hb
  | replay records =>
    cases b <;> first | exact hlb.elim | trivial | skip
    rename_i src msg
    cases src <;> first | exact hlb.elim | skip
    obtain ⟨record, -, rfl⟩ := hlb
    exact rfl
  | appendRecord r | appendOutcome o => cases b <;> exact hlb.elim
  | _ => exact ha.elim

theorem Bus.exec (hbus : Bus subs cfg s) (ha : OnPublisher cfg a ∨ OnWorker a)
    (h : Runtime.exec a w s = some (s', k)) : Bus subs cfg s' := by
  have hframe := exec_frame h
  refine ⟨?_, ?_, ?_⟩
  · rw [hframe.subscribers (by rintro sub rfl; exact ha.elim id id), hbus.subscribers]
  · rw [hframe.destroyed (by rintro o rfl; exact ha.elim id id), hbus.destroyed]
  · by_cases hinj : ∃ p, a = .inject p
    · obtain ⟨p, rfl⟩ := hinj
      cases h
      exact (inject_config s.injector p).trans hbus.config
    · rw [hframe.injector fun p ha => hinj ⟨p, ha⟩, hbus.config]

/-! ## What the recorder captures -/

/-- The actions of a thread that publishes packets, whatever becomes of them. -/
def OnSource : Action → Prop
  | .publish .processor msg => msg.type = .packetDropped
  | .publish .publisher msg | .publish .replayPlayer msg => msg.type = .packetRx
  | .deliver (.client _) _ => False
  | .deliver _ _ | .inject _ | .enqueue _ _ | .appendRecord _ | .appendOutcome _ | .replay _ => True
  | _ => False

theorem OnPublisher.onSource (ha : OnPublisher cfg a) : OnSource a := by
  cases a <;> first | exact ha.elim | trivial | skip
  · rename_i src msg
    cases src <;> first | exact ha.elim | exact ha.1 | exact ha
  · rename_i sub msg
    cases sub <;> first | exact ha.elim | trivial

theorem onSource_of_leaves (hl : Leaves a b) (ha : OnSource a)
    (hclient : ∀ type msg, b ≠ .deliver (.client type) msg) : OnSource b := by
  cases a with
  | publish src msg =>
    cases b <;> first | exact hl.elim | skip
    rename_i sub m
    cases sub <;> first | trivial | exact absurd rfl (hclient _ _)
  | deliver sub msg =>
    cases sub <;> first | exact ha.elim | skip
    all_goals cases b <;> first | exact hl.elim | trivial
  | inject p | enqueue p t =>
    cases b <;> first | exact hl.elim | trivial | skip
    rename_i src msg
    cases src <;> first | exact hl.elim | skip
    obtain ⟨reason, t, rfl⟩ := hl
    rfl
  | replay records =>
    cases b <;> first | exact hl.elim | trivial | skip
    rename_i src msg
    cases src <;> first | exact hl.elim | skip
    obtain ⟨record, -, rfl⟩ := hl
    rfl
  | appendRecord r | appendOutcome o => cases b <;> exact hl.elim
  | _ => exact ha.elim

/-- The packets an action brings to the recorder. -/
def captured : Action → List Packet
  | .publish _ msg | .deliver .replayRecorder msg => msg.packetRx?.toList
  | .appendRecord r => [r.packet]
  | .replay records => records.map ReplayRecord.packet
  | _ => []

theorem captured_publish (hrec : subs.count .replayRecorder = 1) (msg : Message) :
    ((subs.filter fun sub => msg.type ∈ sub.types).map (.deliver · msg)).flatMap captured =
      msg.packetRx?.toList := by
  have hother : ∀ sub, sub ≠ .replayRecorder → captured (.deliver sub msg) = [] := by
    intro sub hsub
    cases sub <;> first | rfl | exact absurd rfl hsub
  cases hrx : msg.packetRx? with
  | some p =>
    have htype : msg.type ∈ Subscriber.types .replayRecorder :=
      type_of_packetRx? (by simp [hrx])
    rw [flatMap_deliver captured hother _ (by simpa using htype) hrec.le, if_pos hrec]
    simp [captured, hrx]
  | none =>
    rw [flatMap_deliver_nil captured fun sub => ?_]
    · rfl
    · cases sub <;> simp [captured, hrx]

theorem captured_recorded (packets : List Packet) :
    (packets.map fun packet => Action.publish .publisher packet.rxMessage).flatMap captured =
      packets := by
  induction packets with
  | nil => rfl
  | cons p packets ih => rw [List.map_cons, List.flatMap_cons, ih]; rfl

/-- The publishing thread loses no packet on the way to the records. -/
theorem exec_captured (hsubs : s.subscribers = subs) (hdestroyed : s.destroyed = [])
    (hrec : subs.count .replayRecorder = 1) (ha : OnSource a) (h : exec a w s = some (s', k)) :
    s'.recorder.records.map ReplayRecord.packet ++ k.flatMap captured =
      s.recorder.records.map ReplayRecord.packet ++ captured a := by
  cases a with
  | publish src msg =>
    obtain ⟨rfl, rfl⟩ := exec_publish h
    rw [hsubs, captured_publish hrec]
    rfl
  | deliver sub msg =>
    have hcall := exec_deliver hdestroyed h
    cases sub <;> first | exact ha.elim | simp only [callback] at hcall
    case heartbeat | logger =>
      cases hcall
      rfl
    case replayRecorder =>
      split at hcall <;> cases hcall
      · rename_i p hp
        simp [captured, hp]
      · rename_i hp
        simp [captured, hp]
    all_goals split at hcall <;> cases hcall <;> rfl
  | inject p | enqueue p t =>
    rw [(exec_frame h).recorder (by simp) (by simp), List.flatMap_eq_nil_iff.2]
    · rfl
    · intro b hb
      have hlb := exec_leaves h b hb
      cases b <;> first | exact hlb.elim | rfl | skip
      rename_i src msg
      cases src <;> first | exact hlb.elim | skip
      obtain ⟨reason, t, rfl⟩ := hlb
      rfl
  | appendOutcome o =>
    cases h
    rfl
  | appendRecord r =>
    cases h
    simp [captured]
  | replay records =>
    cases records <;> cases h <;> simp [captured, Message.packetRx?]
  | _ => exact ha.elim

/-- The worker brings nothing to the recorder. -/
theorem exec_recorder (ha : OnWorker a) (h : exec a w s = some (s', k)) :
    s'.recorder = s.recorder := by
  refine (exec_frame h).recorder ?_ ?_
  · rintro msg rfl
    obtain ⟨hm | hm | hm, htype⟩ := ha <;> simp [hm, Subscriber.types] at htype
  · rintro r rfl
    exact ha

end Runtime

end EdgeNetSwitch
