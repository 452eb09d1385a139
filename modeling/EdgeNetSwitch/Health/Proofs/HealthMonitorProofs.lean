import EdgeNetSwitch.Health.HealthReports

/-!
# Proofs: what the health monitor reports

A tick either finds the flag it computes remembered, and does nothing, or it publishes and remembers it. So
what is published are the changes of what is computed.
-/

namespace EdgeNetSwitch

namespace HealthMonitor

open Runs

variable {m : HealthMonitor} {c : ClockedCall} {now timeout_ms first second : UInt64}
  {l : List ClockedCall} {ticks : List Bool} {x : Step}

/-! ## One tick -/

/-- What a tick publishes, if it does. -/
def statusMessage (m : HealthMonitor) (now : UInt64) : Message where
  type := .healthStatus
  timestamp_ms := m.last_heartbeat_ms
  payload := .healthStatus (m.currentStatus now)

theorem onTick_of_same (h : m.last_alive_state = some (m.alive now)) : m.onTick now = m := by
  unfold onTick
  simp only
  rw [if_neg]
  rintro (hnone | hne)
  · rw [hnone] at h
    cases h
  · exact hne h

theorem onTick_of_change (h : m.last_alive_state ≠ some (m.alive now)) :
    m.onTick now = { m with
      bus := m.bus ++ [statusMessage m now], last_alive_state := some (m.alive now) } := by
  unfold onTick
  exact if_pos (Or.inr h)

@[simp] theorem flag?_statusMessage (m : HealthMonitor) (now : UInt64) :
    flag? (statusMessage m now) = some (m.alive now) := rfl

/-- After a tick the flag it has computed is remembered. -/
theorem onTick_last_alive_state (m : HealthMonitor) (now : UInt64) :
    (m.onTick now).last_alive_state = some (m.alive now) := by
  by_cases h : m.last_alive_state = some (m.alive now)
  · rw [onTick_of_same h, h]
  · rw [onTick_of_change h]

theorem step_onTick (h : c.call = .onTick) : step m c = m.onTick c.now := by
  unfold step
  rw [h]

theorem computed?_onTick (h : c.call = .onTick) : computed? (m, c) = some (m.alive c.now) := by
  unfold computed?
  rw [h]

/-- Other calls compute no flag at a tick. -/
theorem computed?_eq_none (h : c.call ≠ .onTick) : computed? (m, c) = none := by
  unfold computed?
  cases hc : c.call with
  | onTick => exact absurd hc h
  | onHeartbeat | snapshot | currentStatus => rfl

/-- Nothing but a tick publishes, or changes what is remembered. -/
theorem step_of_ne_onTick (m : HealthMonitor) (h : c.call ≠ .onTick) :
    (step m c).bus = m.bus ∧ (step m c).last_alive_state = m.last_alive_state := by
  unfold step
  cases hc : c.call with
  | onTick => exact absurd hc h
  | onHeartbeat | snapshot | currentStatus => exact ⟨rfl, rfl⟩

/-! ## Transitions -/

/-- The monitor has computed the flags `ticks`. -/
structure Remembers (ticks : List Bool) (m : HealthMonitor) : Prop where
  published : m.published = changes ticks
  last : m.last_alive_state = ticks.getLast?

theorem Remembers.step (h : Remembers ticks m) (c : ClockedCall) :
    Remembers (ticks ++ (computed? (m, c)).toList) (m.step c) := by
  by_cases hc : c.call = .onTick
  · rw [step_onTick hc, computed?_onTick hc, Option.toList_some]
    constructor
    · rw [changes_concat, ← h.last, ← h.published]
      by_cases hsame : m.last_alive_state = some (m.alive c.now)
      · rw [onTick_of_same hsame, if_pos hsame]
      · rw [onTick_of_change hsame, if_neg hsame]
        unfold HealthMonitor.published
        rw [List.filterMap_append, List.filterMap_cons, flag?_statusMessage, List.filterMap_nil]
    · rw [onTick_last_alive_state, List.getLast?_concat]
  · obtain ⟨hbus, hlast⟩ := step_of_ne_onTick m hc
    rw [computed?_eq_none hc, Option.toList_none, List.append_nil]
    constructor
    · unfold HealthMonitor.published
      rw [hbus]
      exact h.published
    · rw [hlast]
      exact h.last

theorem computed_concat (timeout_ms first second : UInt64) (l : List ClockedCall) (c : ClockedCall) :
    computed timeout_ms first second (l ++ [c]) = computed timeout_ms first second l ++
      (computed? (run timeout_ms first second l, c)).toList := by
  unfold computed calls
  rw [trail_concat, List.filterMap_append, List.filterMap_cons, List.filterMap_nil]
  unfold run
  cases computed? (l.foldl HealthMonitor.step (new timeout_ms first second), c) <;> rfl

theorem run_concat (timeout_ms first second : UInt64) (l : List ClockedCall) (c : ClockedCall) :
    run timeout_ms first second (l ++ [c]) = (run timeout_ms first second l).step c := foldl_concat ..

theorem remembers_run (timeout_ms first second : UInt64) (l : List ClockedCall) :
    Remembers (computed timeout_ms first second l) (run timeout_ms first second l) := by
  induction l using List.reverseRecOn with
  | nil => exact ⟨rfl, rfl⟩
  | append_singleton l c ih =>
    rw [computed_concat, run_concat]
    exact ih.step c

/-- The monitor publishes the changes of its flag, each at the tick that finds it. -/
theorem reportsTransitions (timeout_ms first second : UInt64) (l : List ClockedCall) :
    ReportsTransitions timeout_ms first second l := by
  have h := remembers_run timeout_ms first second l
  refine ⟨?_, fun now => ?_, fun c hc => (step_of_ne_onTick _ hc).1, fun now => ?_⟩
  · rw [h.published]
    exact isChain_changes _
  · simp only
    rw [← h.last]
    split_ifs with hsame
    · rw [onTick_of_same hsame]
    · rw [onTick_of_change hsame]
      exact ⟨_, rfl, flag?_statusMessage _ now⟩
  · have hnext := h.step ⟨.onTick, now⟩
    rw [step_onTick rfl, computed?_onTick rfl, Option.toList_some] at hnext
    rw [hnext.published, getLast?_changes, List.getLast?_concat]

example : (run 100 0 0 [⟨.onTick, 50⟩, ⟨.onTick, 150⟩, ⟨.onTick, 160⟩, ⟨.onHeartbeat, 170⟩,
    ⟨.onTick, 200⟩]).published = [true, false, true] := by decide

/-! ## Deaths -/

/-- Every call that reports has the flag computed at its reading. -/
theorem reported?_eq (h : x.2.call ≠ .onHeartbeat) : reported? x = some (x.1.alive x.2.now) := by
  unfold reported?
  cases hc : x.2.call with
  | onHeartbeat => exact absurd hc h
  | onTick => exact onTick_last_alive_state x.1 x.2.now
  | snapshot | currentStatus => rfl

/-- The flag over the integers: the silence, or with the clock behind the heartbeat what it wraps to. -/
theorem alive_eq_false_iff :
    m.alive now = false ↔
      m.last_heartbeat_ms ≤ now ∧ m.last_heartbeat_ms.toNat + m.timeout_ms.toNat < now.toNat ∨
        now < m.last_heartbeat_ms ∧
          m.last_heartbeat_ms.toNat + m.timeout_ms.toNat < now.toNat + 2 ^ 64 := by
  have hnow := now.toNat_lt
  have hlast := m.last_heartbeat_ms.toNat_lt
  unfold alive
  rw [decide_eq_false_iff_not, UInt64.le_iff_toNat_le, UInt64.toNat_sub, UInt64.le_iff_toNat_le,
    UInt64.lt_iff_toNat_lt]
  omega

theorem justDeath_iff (x : Step) : JustDeath x ↔ ClockAhead x := by
  unfold JustDeath ClockAhead
  by_cases hc : x.2.call = .onHeartbeat
  · have hreported : reported? x = none := by
      unfold reported?
      rw [hc]
    rw [hreported]
    exact iff_of_true (fun h => by cases h) (fun h => absurd hc h)
  · rw [reported?_eq hc, Option.some_inj, alive_eq_false_iff]
    simp only [ne_eq, hc, not_false_eq_true, forall_const, UInt64.le_iff_toNat_le,
      UInt64.lt_iff_toNat_lt]
    omega

/-- A tick keeps the times. -/
theorem onTick_times (m : HealthMonitor) (now : UInt64) :
    (m.onTick now).last_heartbeat_ms = m.last_heartbeat_ms ∧ (m.onTick now).timeout_ms = m.timeout_ms := by
  unfold onTick
  dsimp only
  split_ifs
  · exact ⟨rfl, rfl⟩
  · exact ⟨rfl, rfl⟩

theorem times_run (timeout_ms first second : UInt64) (l : List ClockedCall) :
    (run timeout_ms first second l).last_heartbeat_ms = lastHeartbeat first l ∧
      (run timeout_ms first second l).timeout_ms = timeout_ms := by
  induction l using List.reverseRecOn with
  | nil => exact ⟨rfl, rfl⟩
  | append_singleton l c ih =>
    obtain ⟨hlast, htimeout⟩ := ih
    unfold lastHeartbeat at hlast ⊢
    rw [run_concat, List.filter_append, List.filter_singleton]
    obtain ⟨call, now⟩ := c
    cases call with
    | onHeartbeat => exact ⟨by rw [decide_eq_true rfl, cond_true, List.getLast?_concat]; rfl, htimeout⟩
    | onTick =>
      obtain ⟨hheartbeat, hsame⟩ := onTick_times (run timeout_ms first second l) now
      refine ⟨hheartbeat.trans ?_, hsame.trans htimeout⟩
      rw [hlast, decide_eq_false (by simp), cond_false, List.append_nil]
    | snapshot | currentStatus =>
      refine ⟨?_, htimeout⟩
      rw [decide_eq_false (by simp), cond_false, List.append_nil]
      exact hlast

theorem findsHeartbeat (timeout_ms first second : UInt64) (l : List ClockedCall) :
    FindsHeartbeat timeout_ms first second l := by
  rintro before c after rfl
  exact ⟨_, mem_trail _ before c after, rfl, times_run timeout_ms first second before⟩

/-- Deaths are just as long as the clock is not behind the heartbeat. -/
theorem justDeath_forall_iff (timeout_ms first second : UInt64) (l : List ClockedCall) :
    ((∀ x ∈ calls timeout_ms first second l, JustDeath x) ↔
      ∀ x ∈ calls timeout_ms first second l, ClockAhead x) ∧ FindsHeartbeat timeout_ms first second l :=
  ⟨forall₂_congr fun x _ => justDeath_iff x, findsHeartbeat timeout_ms first second l⟩

/-- The clock has stepped back by a millisecond since the heartbeat: a death is published. -/
theorem dies_at_heartbeat :
    let l : List ClockedCall := [⟨.onHeartbeat, 1000⟩, ⟨.onTick, 999⟩]
    (run 500 900 900 l).published = [false] ∧ ¬ ∀ x ∈ calls 500 900 900 l, JustDeath x := by
  refine ⟨by decide, fun h => ?_⟩
  have htick : ((new 500 900 900).onHeartbeat 1000, (⟨.onTick, 999⟩ : ClockedCall)) ∈
      calls 500 900 900 [⟨.onHeartbeat, 1000⟩, ⟨.onTick, 999⟩] :=
    List.mem_cons_of_mem _ List.mem_cons_self
  have hjust := h _ htick (by decide)
  revert hjust
  decide

/-! ## The record -/

theorem consistent_currentStatus_iff (x : Step) :
    Consistent x (x.1.currentStatus x.2.now) ↔ x.2.now = x.1.last_heartbeat_ms := by
  have hzero : (x.1.currentStatus x.2.now).silence_duration_ms.toNat = 0 := rfl
  constructor
  · rintro ⟨hsilence, -⟩
    rw [hzero] at hsilence
    rw [← UInt64.toNat_inj]
    omega
  · intro hnow
    refine ⟨?_, iff_of_true ?_ ?_⟩
    · rw [hzero, hnow]
      omega
    · unfold currentStatus
      simp only [decide_eq_true_eq]
      rw [hnow, UInt64.sub_self]
      exact UInt64.zero_le
    · rw [UInt64.le_iff_toNat_le, hzero]
      exact Nat.zero_le _

/-- The command shows the status of the snapshot. -/
theorem shown_text (p : Control.Platform) (publisher : SnapshotPublisher) (built : RuntimeStatus) :
    shown p (publisher.publish built) [] = some { success := true, payload := healthText built.health } :=
  rfl

theorem shown_json (p : Control.Platform) (publisher : SnapshotPublisher) (built : RuntimeStatus) :
    shown p (publisher.publish built) Control.json =
      Control.makeJsonSuccess p.dump (healthJson built.health) := by
  unfold shown Control.handleHealth Control.reportSnapshot Control.checkArgument Control.report
  rw [if_neg (fun h => h.2 rfl)]
  simp only [if_pos]
  rfl

theorem selfConsistent_iff (x : Step) :
    SelfConsistent x ↔ (Produces x → x.2.now = x.1.last_heartbeat_ms) := by
  constructor
  · intro h hproduces
    apply (consistent_currentStatus_iff x).1
    unfold Produces at hproduces
    cases hc : x.2.call with
    | onHeartbeat | snapshot =>
      rw [hc] at hproduces
      exact hproduces.elim
    | currentStatus => exact h.returned hc
    | onTick =>
      rw [hc] at hproduces
      have hbus : (step x.1 x.2).bus = x.1.bus ++ [statusMessage x.1 x.2.now] := by
        rw [step_onTick hc, onTick_of_change hproduces]
      obtain ⟨status, hstatus, hconsistent⟩ := h.published _ hbus
      obtain rfl := Option.some.inj hstatus
      exact hconsistent
  · intro h
    refine ⟨fun msg hmsg => ?_, fun hc => ?_, fun hc p publisher builder telemetry metrics state now tnow =>
      ?_⟩
    · by_cases hc : x.2.call = .onTick
      · by_cases hsame : x.1.last_alive_state = some (x.1.alive x.2.now)
        · rw [step_onTick hc, onTick_of_same hsame] at hmsg
          exact absurd hmsg.symm (by simp)
        · rw [step_onTick hc, onTick_of_change hsame] at hmsg
          obtain ⟨-, hmsg⟩ := List.append_inj' hmsg rfl
          obtain rfl := (List.cons.inj hmsg).1
          refine ⟨_, rfl, (consistent_currentStatus_iff x).2 (h ?_)⟩
          unfold Produces
          rw [hc]
          exact hsame
      · rw [(step_of_ne_onTick x.1 hc).1] at hmsg
        exact absurd hmsg.symm (by simp)
    · refine (consistent_currentStatus_iff x).2 (h ?_)
      unfold Produces
      rw [hc]
      trivial
    · refine ⟨x.1.currentStatus x.2.now, (consistent_currentStatus_iff x).2 (h ?_), shown_text ..,
        shown_json ..⟩
      unfold Produces
      rw [hc]
      trivial

/-- A run whose statuses are all consistent reads the clock at the moment of the heartbeat whenever it
produces one. -/
theorem selfConsistent_forall_iff (timeout_ms first second : UInt64) (l : List ClockedCall) :
    (∀ x ∈ calls timeout_ms first second l, SelfConsistent x) ↔
      ∀ x ∈ calls timeout_ms first second l, Produces x → x.2.now = x.1.last_heartbeat_ms :=
  forall₂_congr fun x _ => selfConsistent_iff x

/-- A silence of a second, reported as none. -/
theorem silent_for_a_second :
    let l : List ClockedCall := [⟨.currentStatus, 1000⟩]
    (∀ x ∈ calls 500 0 0 l, x.1.currentStatus x.2.now =
      { uptime_ms := 1000, last_heartbeat_ms := 0, silence_duration_ms := 0, is_alive := false }) ∧
      ¬ ∀ x ∈ calls 500 0 0 l, SelfConsistent x := by
  refine ⟨by decide, fun h => ?_⟩
  have hstatus := (h _ List.mem_cons_self).returned rfl
  have hsilence := hstatus.silence
  revert hsilence
  decide

end HealthMonitor

end EdgeNetSwitch
