import EdgeNetSwitch.Failure.FailureSchedule

/-!
# Proofs: the injector follows its schedule

The counter of the injector is the number of packets without a rule so far, as long as it is used at all. A
packet with a rule leaves the injector as it is.
-/

namespace EdgeNetSwitch

open FailureInjector FailureConfig

variable {cfg : FailureConfig} {i : FailureInjector} {packet : Packet} {n : ℕ}

/-- The injector has counted the packets without a rule, if it counts them. -/
structure Counted (cfg : FailureConfig) (n : ℕ) (i : FailureInjector) : Prop where
  config : i.config = cfg
  seen : cfg.every_n_packets ≠ 0 → cfg.type ≠ .none → i.seen_packets.toNat = n

/-- The policy stays. -/
@[simp] theorem inject_config (i : FailureInjector) (p : Packet) : (i.inject p).2.config = i.config := by
  unfold FailureInjector.inject
  by_cases he : i.config.enabled
  · simp only [he, Bool.not_true, Bool.false_eq_true, if_false]
    split
    · rfl
    · by_cases hn : i.config.every_n_packets = 0
      · rw [if_pos hn]
      · by_cases ht : i.config.type = .none
        · rw [if_neg hn, if_pos ht]
        · rw [if_neg hn, if_neg ht]
          by_cases hm : (i.seen_packets + 1) % i.config.every_n_packets ≠ 0
          · simp only [if_pos hm]
          · simp only [if_neg hm]
  · simp [he]

theorem inject_matched (henabled : i.config.enabled = true) (h : i.config.unmatched packet = false) :
    (i.inject packet).2 = i := by
  cases hrule : i.config.rule? packet with
  | none => simp [unmatched, hrule] at h
  | some rule =>
    have hfind := hrule
    rw [rule?] at hfind
    simp [inject, henabled, hfind]

/-- What the injector makes of the type that is due. -/
theorem makeFailureResult_due (cfg : FailureConfig) (n : ℕ) (packet : Packet) :
    makeFailureResult (cfg.due n packet) cfg.delay_ms = cfg.scheduled n packet := by
  unfold makeFailureResult scheduled
  by_cases hnone : cfg.due n packet = .none
  · simp [hnone]
  · by_cases hdelay : cfg.due n packet = .artificialDelay
    · simp [hdelay]
    · simp [hnone, hdelay]

theorem Counted.inject (henabled : cfg.enabled = true) (hlt : n + 1 < 2 ^ 64) (hc : Counted cfg n i)
    (packet : Packet) :
    (i.inject packet).1 = cfg.scheduled (n + if cfg.unmatched packet then 1 else 0) packet ∧
      Counted cfg (n + if cfg.unmatched packet then 1 else 0) (i.inject packet).2 := by
  obtain ⟨rfl, hseen⟩ := hc
  rw [← makeFailureResult_due]
  have hnothing : ∀ delay_ms : ℚ, makeFailureResult .none delay_ms = { type := .none, is_terminal := false } :=
    fun _ => rfl
  cases hrule : i.config.rule? packet with
  | some rule =>
    have hmatched : i.config.unmatched packet = false := by simp [unmatched, hrule]
    rw [inject_matched henabled hmatched, hmatched, due, hrule]
    rw [rule?] at hrule
    refine ⟨?_, ⟨rfl, hseen⟩⟩
    simp [FailureInjector.inject, henabled, hrule]
  | none =>
    have hunmatched : i.config.unmatched packet = true := by simp [unmatched, hrule]
    rw [hunmatched, if_pos rfl, due, hrule]
    rw [rule?] at hrule
    by_cases hevery : i.config.every_n_packets = 0
    · simp only [FailureInjector.inject, henabled, hrule, hevery]
      exact ⟨by simp [hnothing], rfl, fun hne => absurd hevery hne⟩
    · by_cases htype : i.config.type = .none
      · simp only [FailureInjector.inject, henabled, hrule, hevery, htype]
        exact ⟨by simp [hnothing], rfl, fun _ hne => absurd htype hne⟩
      · have hnext : (i.seen_packets + 1).toNat = n + 1 := by
          rw [UInt64.toNat_add, hseen hevery htype]
          exact Nat.mod_eq_of_lt hlt
        have hmod : (i.seen_packets + 1) % i.config.every_n_packets = 0 ↔
            i.config.every_n_packets.toNat ∣ n + 1 := by
          rw [← UInt64.toNat_inj, UInt64.toNat_mod, hnext]
          exact (Nat.dvd_iff_mod_eq_zero).symm
        simp only [FailureInjector.inject, henabled, hrule, hevery, htype, ne_eq, hmod]
        by_cases hdvd : i.config.every_n_packets.toNat ∣ n + 1
        · simp only [hdvd]
          exact ⟨by simp, rfl, fun _ _ => hnext⟩
        · simp only [hdvd]
          exact ⟨by simp [hnothing], rfl, fun _ _ => hnext⟩

theorem Counted.injectAll (henabled : cfg.enabled = true) (packets : List Packet) :
    ∀ {n : ℕ} {i : FailureInjector}, n + packets.length < 2 ^ 64 → Counted cfg n i →
      i.injectAll packets = packets.mapIdx fun j packet =>
        cfg.scheduled (n + (packets.take (j + 1)).countP cfg.unmatched) packet := by
  induction packets with
  | nil => exact fun _ _ => rfl
  | cons packet packets ih =>
    intro n i hlt hc
    rw [List.length_cons] at hlt
    obtain ⟨hresult, hnext⟩ := hc.inject henabled (by omega) packet
    have hlt' : n + (if cfg.unmatched packet then 1 else 0) + packets.length < 2 ^ 64 := by
      split_ifs <;> omega
    rw [FailureInjector.injectAll, hresult, ih hlt' hnext, List.mapIdx_cons]
    congr 1
    · congr 1
      simp [List.countP_cons]
    · congr 1
      funext j packet'
      rw [List.take_succ_cons, List.countP_cons]
      congr 1
      omega

/-- Packets with a rule can be left out. -/
theorem injectAll_kept (henabled : cfg.enabled = true) (packets : List Packet) :
    ∀ {marks : List Bool} {i : FailureInjector}, i.config = cfg → marks.length = packets.length →
      (∀ x ∈ packets.zip marks, x.2 = true → cfg.unmatched x.1 = false) →
      i.injectAll (kept (packets.zip marks)) = kept ((i.injectAll packets).zip marks) := by
  induction packets with
  | nil => exact fun _ _ _ => rfl
  | cons packet packets ih =>
    intro marks i hconfig hlen hmarks
    cases marks with
    | nil => simp at hlen
    | cons mark marks =>
      rw [List.zip_cons_cons] at hmarks
      obtain ⟨hmark, hrest⟩ := List.forall_mem_cons.1 hmarks
      have hlen' : marks.length = packets.length := Nat.succ.inj hlen
      cases mark with
      | true =>
        have hsame : (i.inject packet).2 = i :=
          inject_matched (by rw [hconfig]; exact henabled) (by rw [hconfig]; exact hmark rfl)
        show i.injectAll (kept (packets.zip marks)) =
          kept (((i.inject packet).2.injectAll packets).zip marks)
        rw [hsame]
        exact ih hconfig hlen' hrest
      | false =>
        have hconfig' : (i.inject packet).2.config = cfg := by
          rw [inject_config, hconfig]
        show (i.inject packet).1 :: (i.inject packet).2.injectAll (kept (packets.zip marks)) =
          (i.inject packet).1 :: kept (((i.inject packet).2.injectAll packets).zip marks)
        rw [ih hconfig' hlen' hrest]

theorem terminal_scheduled (cfg : FailureConfig) (n : ℕ) (packet : Packet) :
    (cfg.scheduled n packet).is_terminal = true ↔
      (cfg.scheduled n packet).type ≠ .none ∧ (cfg.scheduled n packet).type ≠ .artificialDelay :=
  decide_eq_true_iff

/-- Of fewer than 2^64 packets, every one gets what the schedule says. -/
theorem follows_schedule (cfg : FailureConfig) (henabled : cfg.enabled = true) (packets : List Packet)
    (hlen : packets.length < 2 ^ 64) : FollowsSchedule cfg packets := by
  have hstart : Counted cfg 0 { config := cfg } := ⟨rfl, fun _ _ => rfl⟩
  have hresults : FailureInjector.injectAll { config := cfg } packets = packets.mapIdx fun j packet =>
      cfg.scheduled ((packets.take (j + 1)).countP cfg.unmatched) packet := by
    rw [hstart.injectAll henabled packets (by omega)]
    simp only [Nat.zero_add]
  refine ⟨hresults, fun marks => injectAll_kept henabled packets rfl, ?_⟩
  intro result hresult
  rw [hresults] at hresult
  obtain ⟨j, hj, rfl⟩ := List.mem_mapIdx.1 hresult
  exact terminal_scheduled _ _ _

/-- A rule for the second of three packets, of which every second one without a rule is lost. -/
theorem follows_schedule_mixed : ∃ (cfg : FailureConfig) (packets : List Packet),
    FailureInjector.injectAll { config := cfg } packets =
      [⟨.none, false, 0⟩, ⟨.malformedPacket, true, 0⟩, ⟨.simulatedLoss, true, 0⟩] ∧
    FollowsSchedule cfg packets :=
  ⟨{ type := .simulatedLoss, enabled := true, every_n_packets := 2,
      lifecycle_rules := [⟨2, .malformedPacket⟩, ⟨2, .none⟩] },
    [{ lifecycle_id := 1 }, { lifecycle_id := 2 }, { lifecycle_id := 3 }], rfl,
    follows_schedule _ rfl _ (by decide)⟩

end EdgeNetSwitch
