import EdgeNetSwitch.Packet.LatencyFigures
import EdgeNetSwitch.Threads.Proofs.ProgramProofs

/-!
# Proofs: the latency figures of a snapshot

The latencies whose handlers have come to the end of their update, and their number, keep the relation the
figures are meant to have (`Settled`). A snapshot that has read the total of such latencies keeps it to its
end, as the maximum and the number of samples only grow (`Reading`).
-/

namespace EdgeNetSwitch

namespace PacketStats

open Threads

variable {s s' : StatsState} {a b : StatsAction} {o : UInt64} {k rest t : List StatsAction}
  {c d : Config StatsState StatsAction} {m : PacketMetrics} {steps : List SnapshotStep}

/-! ## What a step does to the figures -/

/-- The latency figures. -/
structure Figures where
  total : ℕ
  samples : ℕ
  max : ℕ

def figures (s : PacketStats) : Figures where
  total := s.total_processing_latency_ns.toNat
  samples := s.latency_samples.toNat
  max := s.max_processing_latency_ns.toNat

/-- The steps of a latency update. -/
def OfLatency : StatsAction → Prop
  | .fetchAdd .totalProcessingLatency _ | .fetchAdd .latencySamples _ => True
  | .loadMax _ | .storeMax _ => True
  | _ => False

/-- A sample that a handler has still to count. -/
def sampling : StatsAction → ℕ
  | .fetchAdd .latencySamples n => n.toNat
  | _ => 0

/-- A handler that has still to raise the maximum. -/
def raising : StatsAction → ℕ
  | .loadMax _ | .storeMax _ => 1
  | _ => 0

/-- What a step can do to the figures, and what it leaves to be done to them. -/
inductive Update : Figures → StatsAction → List StatsAction → Figures → Prop where
  | quiet {x : Figures} {a : StatsAction} {k : List StatsAction} (ha : ¬ OfLatency a)
    (hk : ∀ b ∈ k, ¬ OfLatency b) : Update x a k x
  | measured {x : Figures} (p : Packet) (n : UInt64) : Update x (.readClock p)
    [.fetchAdd .totalProcessingLatency n, .fetchAdd .latencySamples 1, .loadMax n] x
  | added {x : Figures} (n : UInt64) :
    Update x (.fetchAdd .totalProcessingLatency n) [] { x with total := x.total + n.toNat }
  | sampled {x : Figures} (n : UInt64) :
    Update x (.fetchAdd .latencySamples n) [] { x with samples := x.samples + n.toNat }
  | kept {x : Figures} (n : UInt64) (h : n.toNat ≤ x.max) : Update x (.loadMax n) [] x
  | exceeded {x : Figures} (n : UInt64) (h : x.max < n.toNat) :
    Update x (.loadMax n) [.storeMax n] x
  | stored {x : Figures} (n : UInt64) : Update x (.storeMax n) [] { x with max := n.toNat }

theorem not_ofLatency_afterInsert (completed : Bool) (outcome : Terminal) :
    ∀ b ∈ afterInsert completed outcome, ¬ OfLatency b := by
  intro b hb
  unfold afterInsert at hb
  cases outcome <;> cases completed <;> simp [increments] at hb <;>
    rcases hb with rfl | rfl | rfl | rfl | rfl | rfl <;> exact not_false

/-- A step of a snapshot reads, or takes or gives up the lock; the last one ends it. -/
theorem exec_snapshot (h : exec (.snapshot steps m) o s = some (s', k)) :
    s'.stats = s.stats ∧
      (steps = [] ∧ k = [] ∧ s'.locked = s.locked ∧ s'.snapshots = s.snapshots ++ [m.finish] ∨
        ∃ step steps', steps = step :: steps' ∧ k = [.snapshot steps' (m.read s.stats step)] ∧
          s'.snapshots = s.snapshots ∧
          ((step = .lock ∧ s.locked = false ∧ s'.locked = true) ∨
            (step = .unlock ∧ s'.locked = false) ∨
            step ≠ .lock ∧ step ≠ .unlock ∧ s'.locked = s.locked)) := by
  rcases steps with _ | ⟨_ | _ | _ | _ | _, steps⟩ <;>
    simp only [exec, Option.ite_none_left_eq_some, Option.some.injEq, Prod.mk.injEq] at h
  · obtain ⟨rfl, rfl⟩ := h
    exact ⟨rfl, Or.inl ⟨rfl, rfl, rfl, rfl⟩⟩
  · obtain ⟨rfl, rfl⟩ := h
    exact ⟨rfl, Or.inr ⟨_, _, rfl, rfl, rfl, Or.inr (Or.inr ⟨by simp, by simp, rfl⟩)⟩⟩
  · obtain ⟨hlocked, rfl, rfl⟩ := h
    exact ⟨rfl, Or.inr ⟨_, _, rfl, rfl, rfl, Or.inl ⟨rfl, by simpa using hlocked, rfl⟩⟩⟩
  · obtain ⟨rfl, rfl⟩ := h
    exact ⟨rfl, Or.inr ⟨_, _, rfl, rfl, rfl, Or.inr (Or.inr ⟨by simp, by simp, rfl⟩)⟩⟩
  · obtain ⟨rfl, rfl⟩ := h
    exact ⟨rfl, Or.inr ⟨_, _, rfl, rfl, rfl, Or.inr (Or.inl ⟨rfl, rfl⟩)⟩⟩
  · obtain ⟨rfl, rfl⟩ := h
    exact ⟨rfl, Or.inr ⟨_, _, rfl, rfl, rfl, Or.inr (Or.inr ⟨by simp, by simp, rfl⟩)⟩⟩

theorem exec_update (hfits : Fits c a) (h : exec a o c.shared = some (s', k)) :
    Update (figures c.shared.stats) a k (figures s'.stats) := by
  cases a with
  | deliver msg =>
    cases msg <;> cases h <;> exact .quiet not_false (by simp [OfLatency])
  | lock outcome =>
    simp only [exec, Option.ite_none_left_eq_some, Option.some.injEq, Prod.mk.injEq] at h
    obtain ⟨-, rfl, rfl⟩ := h
    exact .quiet not_false (by simp [OfLatency])
  | complete outcome =>
    cases h
    exact .quiet not_false (not_ofLatency_afterInsert _ outcome)
  | fetchAdd counter n =>
    cases h
    cases counter with
    | totalProcessingLatency =>
      have hsum : (c.shared.stats.total_processing_latency_ns + n).toNat =
          c.shared.stats.total_processing_latency_ns.toNat + n.toNat := by
        rw [UInt64.toNat_add]
        exact Nat.mod_eq_of_lt hfits
      have hfigures : figures (c.shared.stats.fetchAdd .totalProcessingLatency n) =
          { figures c.shared.stats with
            total := (figures c.shared.stats).total + n.toNat } := by
        simp only [figures, fetchAdd, hsum]
      rw [hfigures]
      exact .added n
    | latencySamples =>
      have hsum : (c.shared.stats.latency_samples + n).toNat =
          c.shared.stats.latency_samples.toNat + n.toNat := by
        rw [UInt64.toNat_add]
        exact Nat.mod_eq_of_lt hfits
      have hfigures : figures (c.shared.stats.fetchAdd .latencySamples n) =
          { figures c.shared.stats with
            samples := (figures c.shared.stats).samples + n.toNat } := by
        simp only [figures, fetchAdd, hsum]
      rw [hfigures]
      exact .sampled n
    | _ => exact .quiet not_false (by simp)
  | readClock p =>
    simp only [exec] at h
    split at h <;> cases h
    · exact .quiet not_false (by simp)
    · exact .measured p _
  | loadMax n =>
    cases h
    by_cases hlt : n > c.shared.stats.max_processing_latency_ns
    · rw [if_pos hlt]
      exact .exceeded n (UInt64.lt_iff_toNat_lt.1 hlt)
    · rw [if_neg hlt]
      exact .kept n (UInt64.le_iff_toNat_le.1 (UInt64.not_lt.1 hlt))
  | storeMax n =>
    cases h
    exact .stored n
  | unlock =>
    cases h
    exact .quiet not_false (by simp)
  | snapshot steps m =>
    obtain ⟨hstats, hk⟩ := exec_snapshot h
    rw [hstats]
    rcases hk with ⟨-, rfl, -⟩ | ⟨step, steps', -, rfl, -⟩
    · exact .quiet not_false (by simp)
    · exact .quiet not_false (by simp [OfLatency])

/-- What is still to come of a snapshot after a step. -/
structure Next (step : SnapshotStep) (steps : List SnapshotStep) : Prop where
  lock : step = .lock → .unlock ∈ steps ∧ .lock ∉ steps
  unlock : step = .unlock → .unlock ∉ steps ∧ .lock ∉ steps
  total : step = .load .totalProcessingLatency → .loadMax ∈ steps ∧ .load .latencySamples ∈ steps
  max : step = .loadMax → .load .latencySamples ∈ steps
  samples : step = .load .latencySamples → .loadMax ∉ steps

theorem next_of_suffix {step : SnapshotStep} (h : step :: steps <:+ snapshotSteps) :
    Next step steps := by
  have hall : ∀ t ∈ snapshotSteps.tails,
      (t.head? = some .lock → .unlock ∈ t.tail ∧ .lock ∉ t.tail) ∧
      (t.head? = some .unlock → .unlock ∉ t.tail ∧ .lock ∉ t.tail) ∧
      (t.head? = some (.load .totalProcessingLatency) →
        .loadMax ∈ t.tail ∧ .load .latencySamples ∈ t.tail) ∧
      (t.head? = some .loadMax → .load .latencySamples ∈ t.tail) ∧
      (t.head? = some (.load .latencySamples) → .loadMax ∉ t.tail) := by
    decide
  obtain ⟨hlock, hunlock, htotal, hmax, hsamples⟩ := hall _ ((List.mem_tails _ _).2 h)
  exact ⟨fun hx => hlock (congrArg some hx), fun hx => hunlock (congrArg some hx),
    fun hx => htotal (congrArg some hx), fun hx => hmax (congrArg some hx),
    fun hx => hsamples (congrArg some hx)⟩

/-! ## The lock -/

/-- The handler is in its update, or comes to it. -/
def updating : StatsAction → ℕ
  | .complete _ | .readClock _ | .loadMax _ | .storeMax _ => 1
  | _ => 0

/-- Whoever does the action holds the lock, to give it up there or later. -/
def held : StatsAction → ℕ
  | .complete _ | .unlock => 1
  | .snapshot steps _ => if .unlock ∈ steps ∧ .lock ∉ steps then 1 else 0
  | _ => 0

/-- On a stack, samples are counted before the maximum is raised, and that before the lock is given up. -/
def Nested : List StatsAction → Prop
  | [] => True
  | a :: t => weight sampling (a :: t) ≤ weight raising (a :: t) ∧
    weight updating (a :: t) ≤ weight held (a :: t) ∧ Nested t

theorem Nested.le (h : Nested t) :
    weight sampling t ≤ weight raising t ∧ weight updating t ≤ weight held t := by
  cases t with
  | nil => exact ⟨Nat.le_refl _, Nat.le_refl _⟩
  | cons a t => exact ⟨h.1, h.2.1⟩

theorem Nested.cons (h : Nested t) (hs : sampling a ≤ raising a) (hu : updating a ≤ held a) :
    Nested (a :: t) := by
  obtain ⟨h₁, h₂⟩ := h.le
  refine ⟨?_, ?_, h⟩
  · rw [weight_cons, weight_cons]
    omega
  · rw [weight_cons, weight_cons]
    omega

theorem nested_afterInsert (completed : Bool) (outcome : Terminal) (h : Nested rest) :
    Nested (afterInsert completed outcome ++ rest) := by
  have hunlock : Nested (.unlock :: rest) := h.cons (Nat.le_refl _) (Nat.zero_le _)
  have hadds : ∀ (l : List (Counter × UInt64)) (t : List StatsAction), Nested t →
      (∀ x ∈ l, x.1 ≠ .latencySamples) →
      Nested (l.map (fun x => .fetchAdd x.1 x.2) ++ t) := by
    intro l t ht hl
    induction l with
    | nil => exact ht
    | cons x l ih =>
      rw [List.forall_mem_cons] at hl
      refine (ih hl.2).cons ?_ (Nat.le_refl _)
      obtain ⟨counter, n⟩ := x
      cases counter <;> first | exact Nat.le_refl _ | exact absurd rfl hl.1
  unfold afterInsert
  rw [List.append_assoc, List.append_assoc]
  refine hadds _ _ ?_ ?_
  · cases outcome with
    | dropped drop => exact hunlock
    | processed p =>
      cases completed with
      | true => exact hunlock
      | false =>
        obtain ⟨h₁, h₂⟩ := h.le
        show Nested (.readClock p :: .unlock :: rest)
        refine ⟨?_, ?_, hunlock⟩
        · simp only [weight_cons, sampling, raising]
          omega
        · simp only [weight_cons, updating, held]
          omega
  · cases outcome <;> cases completed <;> simp [increments]

theorem Nested.step (h : exec a o s = some (s', k)) (ht : Nested (a :: rest)) : Nested (k ++ rest) := by
  obtain ⟨h₁, h₂, hrest⟩ := ht
  cases a with
  | deliver msg =>
    cases msg <;> cases h <;> exact hrest.cons (Nat.le_refl _) (Nat.le_refl _)
  | lock outcome =>
    simp only [exec, Option.ite_none_left_eq_some, Option.some.injEq, Prod.mk.injEq] at h
    obtain ⟨-, -, rfl⟩ := h
    exact hrest.cons (Nat.le_refl _) (Nat.le_refl _)
  | complete outcome =>
    cases h
    exact nested_afterInsert _ outcome hrest
  | readClock p =>
    simp only [weight_cons, sampling, raising, updating, held] at h₁ h₂
    simp only [exec] at h
    split at h <;> cases h
    · exact hrest
    · rename_i n hlatency
      have hone : UInt64.toNat 1 = 1 := rfl
      have hraise : Nested (.loadMax n :: rest) := by
        refine ⟨?_, ?_, hrest⟩
        · simp only [weight_cons, sampling, raising]
          omega
        · simp only [weight_cons, updating, held]
          omega
      have hsample : Nested (.fetchAdd .latencySamples 1 :: .loadMax n :: rest) := by
        refine ⟨?_, ?_, hraise⟩
        · simp only [weight_cons, sampling, raising, hone]
          omega
        · simp only [weight_cons, updating, held]
          omega
      exact hsample.cons (Nat.le_refl _) (Nat.le_refl _)
  | loadMax n =>
    cases h
    split_ifs
    · exact ⟨h₁, h₂, hrest⟩
    · exact hrest
  | snapshot steps m =>
    obtain ⟨-, ⟨-, rfl, -⟩ | ⟨step, steps', -, rfl, -⟩⟩ := exec_snapshot h
    · exact hrest
    · exact hrest.cons (Nat.le_refl _) (Nat.zero_le _)
  | fetchAdd counter n | storeMax n | unlock =>
    cases h
    exact hrest

theorem load_le_load {f g : StatsAction → ℕ} (h : ∀ t ∈ c.threads, weight f t ≤ weight g t) :
    c.load f ≤ c.load g := by
  unfold Config.load
  exact List.sum_le_sum h

/-- What `held` says of one step, by whoever holds the lock if it is one that needs it. -/
theorem exec_held (hsteps : ∀ steps m, a = .snapshot steps m → steps <:+ snapshotSteps)
    (hlocked : held a = 1 → s.locked = true) (h : exec a o s = some (s', k)) :
    (if s'.locked then 1 else 0) + held a = (if s.locked then 1 else 0) + weight held k := by
  cases a with
  | deliver msg => cases msg <;> cases h <;> rfl
  | lock outcome =>
    simp only [exec, Option.ite_none_left_eq_some, Option.some.injEq, Prod.mk.injEq] at h
    obtain ⟨hfree, rfl, rfl⟩ := h
    simp [hfree, held]
  | complete outcome =>
    cases h
    have hadds : ∀ l : List (Counter × UInt64),
        weight held (l.map (fun x => StatsAction.fetchAdd x.1 x.2)) = 0 := by
      intro l
      refine weight_eq_zero fun b hb => ?_
      obtain ⟨x, -, rfl⟩ := List.mem_map.1 hb
      rfl
    unfold afterInsert
    rw [weight_append, weight_append, hadds]
    cases outcome <;> split_ifs <;> rfl
  | unlock =>
    cases h
    simp [hlocked rfl, held]
  | readClock p =>
    simp only [exec] at h
    split at h <;> cases h <;> rfl
  | loadMax n =>
    cases h
    split_ifs <;> rfl
  | fetchAdd counter n | storeMax n =>
    cases h
    rfl
  | snapshot steps m =>
    have hsuffix := hsteps steps m rfl
    obtain ⟨-, ⟨rfl, rfl, heq, -⟩ | ⟨step, steps', rfl, rfl, -, heq⟩⟩ := exec_snapshot h
    · rw [heq]
      rfl
    · have hnext := next_of_suffix hsuffix
      rcases heq with ⟨rfl, hfree, htaken⟩ | ⟨rfl, hgiven⟩ | ⟨hlock, hunlock, hkept⟩
      · obtain ⟨hmem, hnot⟩ := hnext.lock rfl
        simp [held, hmem, hnot, hfree, htaken]
      · obtain ⟨hmem, hnot⟩ := hnext.unlock rfl
        have hbefore := hlocked (by simp [held, hnot])
        simp [held, hmem, hnot, hbefore, hgiven]
      · simp [held, hkept, Ne.symm hlock, Ne.symm hunlock]

/-! ## The figures -/

/-- The latencies of the updates that have come to their end are together no more than their number times the
maximum. -/
def Settled (x : Figures) (unadded unraised sampling raising : ℕ) : Prop :=
  ∃ total samples, x.total + unadded = total + unraised ∧ x.samples + sampling = samples + raising ∧
    total ≤ samples * x.max

/-- What a snapshot has read, as far as it has come. -/
structure Reading (x : Figures) (steps : List SnapshotStep) (m : PacketMetrics) : Prop where
  order : steps <:+ snapshotSteps
  total : .load .totalProcessingLatency ∉ steps → .loadMax ∈ steps →
    m.total_processing_latency_ns.toNat ≤ x.total
  max : .loadMax ∉ steps → .load .latencySamples ∈ steps →
    m.total_processing_latency_ns.toNat ≤ x.samples * m.max_processing_latency_ns.toNat
  samples : .load .latencySamples ∉ steps →
    m.total_processing_latency_ns.toNat ≤ m.latency_samples.toNat * m.max_processing_latency_ns.toNat

/-- What holds of the latency figures at every moment of a run whose snapshots are not torn. -/
structure Timed (c : Config StatsState StatsAction) : Prop where
  nested : c.Stacks Nested
  lock : c.load held = if c.shared.locked then 1 else 0
  settled : Settled (figures c.shared.stats) (c.load unadded) (c.load unraised) (c.load sampling)
    (c.load raising)
  storing : ∀ n, c.Pending (· = .storeMax n) → (figures c.shared.stats).max ≤ n.toNat
  reading : ∀ steps m, c.Pending (· = .snapshot steps m) → Reading (figures c.shared.stats) steps m
  taken : ∀ m ∈ c.shared.snapshots, LatencyConsistent m

theorem Timed.token (hc : Timed c) :
    c.load sampling ≤ c.load raising ∧ c.load raising ≤ c.load held ∧ c.load held ≤ 1 := by
  refine ⟨load_le_load fun t ht => (hc.nested t ht).le.1, ?_, ?_⟩
  · have hraising : c.load raising ≤ c.load updating := by
      refine load_le_load fun t _ => List.sum_le_sum fun a _ => ?_
      cases a <;> first | exact Nat.le_refl _ | exact Nat.zero_le _
    exact hraising.trans (load_le_load fun t ht => (hc.nested t ht).le.2)
  · rw [hc.lock]
    split_ifs <;> omega

/-- The total of a snapshot that is not torn belongs to updates that have ended. -/
theorem Timed.untorn (hc : Timed c)
    (h : m.total_processing_latency_ns.toNat + c.load unraised ≤
      c.shared.stats.total_processing_latency_ns.toNat + c.load unadded) :
    m.total_processing_latency_ns.toNat ≤
      (figures c.shared.stats).samples * (figures c.shared.stats).max := by
  obtain ⟨total, samples, htotal, hsamples, hle⟩ := hc.settled
  obtain ⟨htoken, -, -⟩ := hc.token
  have htotal' : m.total_processing_latency_ns.toNat ≤ total := by
    unfold figures at htotal
    simp only at htotal
    omega
  have hsamples' : samples ≤ (figures c.shared.stats).samples := by omega
  exact htotal'.trans (hle.trans (Nat.mul_le_mul_right _ hsamples'))

theorem weight_of_not_ofLatency (h : ∀ b ∈ k, ¬ OfLatency b) : weight unadded k = 0 ∧
    weight unraised k = 0 ∧ weight sampling k = 0 ∧ weight raising k = 0 := by
  have hno : ∀ b, ¬ OfLatency b → unadded b = 0 ∧ unraised b = 0 ∧ sampling b = 0 ∧ raising b = 0 := by
    intro b hb
    cases b with
    | fetchAdd counter n => cases counter <;> first | exact ⟨rfl, rfl, rfl, rfl⟩ | exact absurd trivial hb
    | loadMax n | storeMax n => exact absurd trivial hb
    | _ => exact ⟨rfl, rfl, rfl, rfl⟩
  exact ⟨weight_eq_zero fun b hb => (hno b (h b hb)).1, weight_eq_zero fun b hb => (hno b (h b hb)).2.1,
    weight_eq_zero fun b hb => (hno b (h b hb)).2.2.1, weight_eq_zero fun b hb => (hno b (h b hb)).2.2.2⟩

/-- An update keeps what has settled in order. -/
theorem Settled.update {x x' : Figures} (hx : Settled x (c.load unadded) (c.load unraised)
      (c.load sampling) (c.load raising)) (hr : Replaces a k c d) (hu : Update x a k x')
    (hstoring : ∀ n, a = .storeMax n → x.max ≤ n.toNat) :
    Settled x' (d.load unadded) (d.load unraised) (d.load sampling) (d.load raising) := by
  obtain ⟨total, samples, htotal, hsamples, hle⟩ := hx
  obtain ⟨y₁, h₁, h₁'⟩ := hr.load unadded
  obtain ⟨y₂, h₂, h₂'⟩ := hr.load unraised
  obtain ⟨y₃, h₃, h₃'⟩ := hr.load sampling
  obtain ⟨y₄, h₄, h₄'⟩ := hr.load raising
  have hone : UInt64.toNat 1 = 1 := rfl
  cases hu with
  | quiet ha hk =>
    obtain ⟨ha₁, ha₂, ha₃, ha₄⟩ := weight_of_not_ofLatency (k := [a]) (by simpa using ha)
    obtain ⟨hk₁, hk₂, hk₃, hk₄⟩ := weight_of_not_ofLatency hk
    simp only [weight_cons, weight_nil] at ha₁ ha₂ ha₃ ha₄
    exact ⟨total, samples, by omega, by omega, hle⟩
  | measured p n =>
    simp only [weight_cons, weight_nil, unadded, unraised, sampling, raising, hone] at *
    exact ⟨total, samples, by omega, by omega, hle⟩
  | added n | sampled n =>
    simp only [weight_nil, unadded, unraised, sampling, raising] at *
    refine ⟨total, samples, ?_, ?_, hle⟩
    · simp only
      omega
    · simp only
      omega
  | exceeded n hlt =>
    simp only [weight_cons, weight_nil, unadded, unraised, sampling, raising] at *
    exact ⟨total, samples, by omega, by omega, hle⟩
  | kept n hmax =>
    simp only [weight_nil, unadded, unraised, sampling, raising] at *
    refine ⟨total + n.toNat, samples + 1, by omega, by omega, ?_⟩
    rw [Nat.succ_mul]
    omega
  | stored n =>
    have hmax := hstoring n rfl
    have hgrow : samples * x.max ≤ samples * n.toNat := Nat.mul_le_mul_left _ hmax
    simp only [weight_nil, unadded, unraised, sampling, raising] at *
    refine ⟨total + n.toNat, samples + 1, ?_, ?_, ?_⟩
    · simp only
      omega
    · simp only
      omega
    · rw [Nat.succ_mul]
      simp only
      omega

/-! ## Snapshots -/

/-- The total and the number of samples only grow. -/
theorem Update.mono {x x' : Figures} (h : Update x a k x') :
    x.total ≤ x'.total ∧ x.samples ≤ x'.samples := by
  cases h with
  | added n => exact ⟨Nat.le_add_right _ _, Nat.le_refl _⟩
  | sampled n => exact ⟨Nat.le_refl _, Nat.le_add_right _ _⟩
  | _ => exact ⟨Nat.le_refl _, Nat.le_refl _⟩

theorem Reading.mono {x x' : Figures} (h : Reading x steps m) (htotal : x.total ≤ x'.total)
    (hsamples : x.samples ≤ x'.samples) : Reading x' steps m := by
  refine ⟨h.order, fun h₁ h₂ => (h.total h₁ h₂).trans htotal, fun h₁ h₂ => (h.max h₁ h₂).trans ?_, h.samples⟩
  exact Nat.mul_le_mul_right _ hsamples

/-- A step other than the loads of the three figures leaves them. -/
theorem read_figures {x : SnapshotStep} (p : PacketStats) :
    (x ≠ .load .totalProcessingLatency →
      (m.read p x).total_processing_latency_ns = m.total_processing_latency_ns) ∧
    (x ≠ .loadMax → (m.read p x).max_processing_latency_ns = m.max_processing_latency_ns) ∧
    (x ≠ .load .latencySamples → (m.read p x).latency_samples = m.latency_samples) := by
  cases x with
  | load counter => cases counter <;> simp [PacketMetrics.read]
  | _ => simp [PacketMetrics.read]

/-- The next load. -/
theorem Reading.step {p : PacketStats} {x : SnapshotStep} (h : Reading (figures p) (x :: steps) m)
    (hmax : x = .loadMax → m.total_processing_latency_ns.toNat ≤
      (figures p).samples * (figures p).max) : Reading (figures p) steps (m.read p x) := by
  have hnext := next_of_suffix h.order
  obtain ⟨htotal', hmax', hsamples'⟩ := read_figures (x := x) (m := m) p
  refine ⟨(List.suffix_cons x steps).trans h.order, fun hnot hmem => ?_, fun hnot hmem => ?_,
    fun hnot => ?_⟩
  · by_cases hx : x = .load .totalProcessingLatency
    · subst hx
      exact Nat.le_refl _
    · rw [htotal' hx]
      exact h.total (by simp [hnot, Ne.symm hx]) (List.mem_cons_of_mem _ hmem)
  · have hx : x ≠ .load .totalProcessingLatency := fun hx => hnot (hnext.total hx).1
    rw [htotal' hx]
    by_cases hload : x = .loadMax
    · have hle := hmax hload
      subst hload
      exact hle
    · rw [hmax' hload]
      exact h.max (by simp [hnot, Ne.symm hload]) (List.mem_cons_of_mem _ hmem)
  · have hx : x ≠ .load .totalProcessingLatency := fun hx => hnot (hnext.total hx).2
    have hload : x ≠ .loadMax := fun hx => hnot (hnext.max hx)
    rw [htotal' hx, hmax' hload]
    by_cases hlast : x = .load .latencySamples
    · have hle := h.max (by simp [hnext.samples hlast, Ne.symm hload]) (by simp [hlast])
      subst hlast
      exact hle
    · rw [hsamples' hlast]
      exact h.samples (by simp [hnot, Ne.symm hlast])

theorem LatencyConsistent.finish (h : m.total_processing_latency_ns.toNat ≤
    m.latency_samples.toNat * m.max_processing_latency_ns.toNat) : LatencyConsistent m.finish := by
  refine ⟨?_, h⟩
  show (if m.latency_samples ≠ 0 then m.total_processing_latency_ns / m.latency_samples else 0) ≤
    m.max_processing_latency_ns
  split_ifs with hzero
  · rw [UInt64.le_iff_toNat_le, UInt64.toNat_div]
    exact Nat.div_le_of_le_mul h
  · exact UInt64.zero_le

/-- Handlers take no snapshots. -/
theorem exec_snapshots (ha : ∀ steps m, a ≠ .snapshot steps m) (h : exec a o s = some (s', k)) :
    s'.snapshots = s.snapshots ∧ ∀ steps m, .snapshot steps m ∉ k := by
  cases a with
  | deliver msg => cases msg <;> cases h <;> exact ⟨rfl, by simp⟩
  | lock outcome =>
    simp only [exec, Option.ite_none_left_eq_some, Option.some.injEq, Prod.mk.injEq] at h
    obtain ⟨-, rfl, rfl⟩ := h
    exact ⟨rfl, by simp⟩
  | complete outcome =>
    cases h
    refine ⟨rfl, fun steps m hmem => ?_⟩
    unfold afterInsert at hmem
    simp only [List.mem_append, List.mem_map, reduceCtorEq, and_false, exists_false, false_or,
      List.mem_singleton, or_false] at hmem
    cases outcome <;> simp at hmem
  | readClock p =>
    simp only [exec] at h
    split at h <;> cases h <;> exact ⟨rfl, by simp⟩
  | loadMax n =>
    cases h
    refine ⟨rfl, fun steps m hmem => ?_⟩
    split_ifs at hmem <;> simp at hmem
  | snapshot steps m => exact absurd rfl (ha steps m)
  | fetchAdd counter n | storeMax n | unlock =>
    cases h
    exact ⟨rfl, by simp⟩

/-! ## Runs -/

theorem nested_of_isCall (h : ∀ a ∈ t, IsCall a) : Nested t := by
  induction t with
  | nil => trivial
  | cons a t ih =>
    rw [List.forall_mem_cons] at h
    refine (ih h.2).cons ?_ ?_
    · cases a <;> first | exact Nat.le_refl _ | exact h.1.elim
    · cases a <;> first | exact Nat.zero_le _ | exact h.1.elim

theorem timed_init {callers : List (List StatsAction)}
    (hcallers : ∀ t ∈ callers, ∀ a ∈ t, IsCall a) : Timed (init callers) := by
  have hzero : ∀ w : StatsAction → ℕ, (∀ a, IsCall a → w a = 0) → (init callers).load w = 0 :=
    fun w hw => load_eq_zero fun t ht a ha => hw a (hcallers t ht a ha)
  refine ⟨fun t ht => nested_of_isCall (hcallers t ht), ?_, ?_, ?_, ?_, by simp [init]⟩
  · refine hzero _ fun a ha => ?_
    cases a with
    | deliver msg => rfl
    | snapshot steps m =>
      obtain ⟨rfl, rfl⟩ := ha
      decide
    | _ => exact ha.elim
  · have hlatency : ∀ a, IsCall a → ¬ OfLatency a := by
      intro a ha
      cases a <;> first | exact not_false | exact ha.elim
    have hweights := fun a ha => weight_of_not_ofLatency (k := [a]) (by simpa using hlatency a ha)
    simp only [weight_cons, weight_nil, add_zero] at hweights
    rw [hzero _ fun a ha => (hweights a ha).1, hzero _ fun a ha => (hweights a ha).2.1,
      hzero _ fun a ha => (hweights a ha).2.2.1, hzero _ fun a ha => (hweights a ha).2.2.2]
    exact ⟨0, 0, rfl, rfl, Nat.zero_le _⟩
  · rintro n ⟨t, ht, a, ha, rfl⟩
    exact (hcallers t ht _ ha).elim
  · rintro steps m ⟨t, ht, a, ha, rfl⟩
    obtain ⟨rfl, rfl⟩ := hcallers t ht _ ha
    exact ⟨List.suffix_refl _, fun _ _ => Nat.zero_le _, fun _ _ => Nat.zero_le _, fun _ => Nat.zero_le _⟩

theorem Timed.step (hc : Timed c) (hfits : Fits c a) (huntorn : Untorn c a)
    (h : Step program c a d) : Timed d := by
  obtain ⟨o, k, he, hr⟩ := h.spec
  have he' : exec a o c.shared = some (d.shared, k) := he
  have hu := exec_update hfits he'
  obtain ⟨-, hraising, hheld⟩ := hc.token
  have hpending := hr.pending
  refine ⟨hr.stacks hc.nested fun rest ht => ht.step he', ?_, ?_, ?_, ?_, ?_⟩
  · obtain ⟨x, hcx, hdx⟩ := hr.load PacketStats.held
    have hlock := hc.lock
    have hlocked : PacketStats.held a = 1 → c.shared.locked = true := by
      intro ha
      by_contra hfree
      rw [if_neg hfree] at hlock
      omega
    have hsteps : ∀ steps m, a = .snapshot steps m → steps <:+ snapshotSteps := by
      rintro steps m rfl
      exact (hc.reading steps m hpending).order
    have hbalance := exec_held hsteps hlocked he'
    omega
  · refine hc.settled.update hr hu ?_
    rintro n rfl
    exact hc.storing n hpending
  · intro n hn
    rcases hr.pending_or hn with ⟨b, hb, rfl⟩ | hn'
    · generalize figures d.shared.stats = x at hu
      cases hu with
      | quiet ha hk => exact absurd trivial (hk _ hb)
      | exceeded n' hlt =>
        obtain rfl := StatsAction.storeMax.inj (List.mem_singleton.1 hb)
        exact hlt.le
      | measured p n' => simp at hb
      | _ => cases hb
    · have hle := hc.storing n hn'
      generalize hx : figures d.shared.stats = x at hu
      cases hu with
      | stored n' =>
        -- two handlers would raise the maximum at once
        obtain ⟨y, hcy, hdy⟩ := hr.load raising
        have hpos : 0 < d.load raising := by
          obtain ⟨t, ht, b, hb, rfl⟩ := hn
          exact load_pos ⟨t, ht, _, hb, Nat.one_ne_zero⟩
        simp only [weight_nil, raising] at hcy hdy
        omega
      | _ => exact hle
  · intro steps m hm
    rcases hr.pending_or hm with ⟨b, hb, rfl⟩ | hm'
    · by_cases ha : ∃ steps m, a = .snapshot steps m
      · obtain ⟨steps₀, m₀, rfl⟩ := ha
        have hreading := hc.reading _ _ hpending
        obtain ⟨hstats, ⟨-, rfl, -⟩ | ⟨x, steps', rfl, rfl, -⟩⟩ := exec_snapshot he'
        · cases hb
        · obtain ⟨rfl, rfl⟩ := StatsAction.snapshot.inj (List.mem_singleton.1 hb)
          rw [hstats]
          refine hreading.step ?_
          rintro rfl
          exact hc.untorn huntorn
      · exact absurd hb ((exec_snapshots (fun steps m h => ha ⟨steps, m, h⟩) he').2 steps m)
    · exact (hc.reading steps m hm').mono hu.mono.1 hu.mono.2
  · by_cases ha : ∃ steps m, a = .snapshot steps m
    · obtain ⟨steps, m, rfl⟩ := ha
      have hreading := hc.reading _ _ hpending
      obtain ⟨-, ⟨rfl, -, -, htaken⟩ | ⟨x, steps', -, -, htaken, -⟩⟩ := exec_snapshot he'
      · rw [htaken]
        refine List.forall_mem_append.2 ⟨hc.taken, fun m' hm' => ?_⟩
        rw [List.mem_singleton.1 hm']
        exact .finish (hreading.samples (by simp))
      · rw [htaken]
        exact hc.taken
    · rw [(exec_snapshots (fun steps m h => ha ⟨steps, m, h⟩) he').1]
      exact hc.taken

/-- The figures of every snapshot are consistent in a run that tears none. -/
theorem latencyConsistent {callers : List (List StatsAction)}
    (hcallers : ∀ t ∈ callers, ∀ a ∈ t, IsCall a)
    (h : Reaches program (fun c a => Fits c a ∧ Untorn c a) (init callers) c) :
    ∀ m ∈ c.shared.snapshots, LatencyConsistent m := by
  have hc : Timed c :=
    h.invariant (timed_init hcallers) fun _ _ _ hc hφ hs => hc.step hφ.1 hφ.2 hs
  exact hc.taken

/-- A packet that takes 100 ns is processed, and a snapshot is taken beside it. -/
def processedBeside : Config StatsState StatsAction :=
  init [[.deliver (.terminal (.processed { lifecycle_id := 1, ingress_timestamp_ns := 1 }))],
    [.snapshot snapshotSteps {}]]

/-- The snapshot has read everything up to the latency figures before the handler begins, and goes on when
the update is complete. -/
theorem latencyConsistent_beside : ∃ c,
    Reaches program (fun c a => Fits c a ∧ Untorn c a) processedBeside c ∧
    (c.shared.snapshots.map PacketMetrics.total_processing_latency_ns = [100] ∧
      ∀ m ∈ c.shared.snapshots, LatencyConsistent m) := by
  have hplay : ∃ c, play program (fun c a => Fits c a ∧ Untorn c a)
      (List.replicate 9 (1, 0) ++ List.replicate 7 (0, 0) ++ [(0, 101), (0, 0), (0, 0), (0, 0), (0, 0)] ++
        List.replicate 5 (1, 0)) processedBeside = some c ∧
      c.shared.snapshots.map PacketMetrics.total_processing_latency_ns = [100] := ⟨_, rfl, rfl⟩
  obtain ⟨c, hplay, htotal⟩ := hplay
  have hr := reaches_of_play hplay
  exact ⟨c, hr, htotal, latencyConsistent (by simp [IsCall]) hr⟩

/-- The snapshot goes on when the latency has been added to the total and nothing else has been done. -/
theorem latency_torn : ∃ c, Reaches program Fits processedBeside c ∧
    ∃ m ∈ c.shared.snapshots, m.total_processing_latency_ns = 100 ∧
      m.max_processing_latency_ns = 0 ∧ ¬ LatencyConsistent m := by
  have hplay : ∃ c, play program Fits
      (List.replicate 9 (1, 0) ++ List.replicate 7 (0, 0) ++ [(0, 101), (0, 0), (1, 0), (1, 0), (0, 0)] ++
        List.replicate 3 (1, 0)) processedBeside = some c ∧
      ∃ m, c.shared.snapshots = [m] ∧ m.total_processing_latency_ns = 100 ∧
        m.max_processing_latency_ns = 0 := ⟨_, rfl, _, rfl, rfl, rfl⟩
  obtain ⟨c, hplay, m, hm, htotal, hmax⟩ := hplay
  refine ⟨c, reaches_of_play hplay, m, by rw [hm]; exact List.mem_singleton.2 rfl, htotal, hmax, fun h => ?_⟩
  have hle := h.total
  rw [htotal, hmax] at hle
  revert hle
  simp

end PacketStats

end EdgeNetSwitch
