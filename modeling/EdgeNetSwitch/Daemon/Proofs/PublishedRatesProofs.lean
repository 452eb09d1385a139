import EdgeNetSwitch.Daemon.PublishedRates
import EdgeNetSwitch.Runs.Runs
import EdgeNetSwitch.Telemetry.Proofs.WindowedEwmaRateSmootherProofs

/-!
# Proofs: the rates in the snapshots

The status builder has observed what was read for the snapshots, until the last status (`Rated`); what a smoother
shows then is an average of its windows (`showsRate`).
-/

namespace EdgeNetSwitch

/-! ## A smoother -/

namespace WindowedEwmaRateSmoother

variable {config : RateSmootherConfig} {l : List Observation} {w : RateWindow}

/-- The raw rate is that of the last window. -/
theorem raw_of_last (hw : (current config l).getLast? = some w) :
    (observeAll config l).last_snapshot.raw_per_sec = w.raw_per_sec := by
  induction l using List.reverseRecOn generalizing w with
  | nil => cases hw
  | append_singleton l o ih =>
    rw [current_concat] at hw
    rw [observeAll_concat]
    by_cases hd : Decreases (observeAll config l, o)
    · rw [if_pos hd] at hw
      cases hw
    · rw [if_neg hd] at hw
      by_cases hu : Updates (observeAll config l, o)
      · rw [window?_updates hu, Option.toList_some, List.getLast?_concat] at hw
        obtain rfl := Option.some.inj hw
        rw [step_updates hu]
      · rw [window?_eq_none hu, Option.toList_none, List.append_nil] at hw
        have hlast : (step (observeAll config l) o).last_snapshot = (observeAll config l).last_snapshot := by
          by_cases hp : (observeAll config l).has_prev = true
          · rw [step_ignored hp hd hu]
          · rw [step_first (Bool.eq_false_iff.2 hp)]
        rw [hlast]
        exact ih hw

end WindowedEwmaRateSmoother

namespace MainLoop

open Runs WindowedEwmaRateSmoother

variable {config : RateSmootherConfig} {l : List Observation} {m m' : MainLoop} {w : Reading} {label : MainLabel}
  {k : ℕ} {status : RuntimeStatus}

/-- What a smoother shows. -/
theorem showsRate (h₀ : 0 ≤ config.alpha) (h₁ : config.alpha ≤ 1) (l : List Observation) :
    let r := (observeAll config l).snapshot
    ShowsRate config l (if r.valid then r.smoothed_per_sec else 0) (if r.valid then r.raw_per_sec else 0) := by
  intro r
  have hs := smoothing config l
  by_cases hv : r.valid = true
  · have hsome : current config l ≠ [] := hs.valid_iff.1 hv
    rw [if_pos hv, if_pos hv]
    refine ⟨fun hnil => absurd hnil hsome, fun w hw => raw_of_last hw, fun _ hrates => ?_⟩
    have hraws : (current config l).map RateWindow.raw_per_sec =
        ((current config l).map RateWindow.rate).map perSec := by
      rw [List.map_map]
      exact List.map_congr_left fun w hw => (hs.raws w hw).2
    have hrange : ∀ q ∈ (current config l).map RateWindow.rate, q ∈ Set.Ico (0 : ℚ) (2 ^ 63) := by
      intro q hq
      obtain ⟨w, hw, rfl⟩ := List.mem_map.1 hq
      exact ⟨(hs.raws w hw).1, hrates w (current_subset config l hw)⟩
    have hbetween := hs.between h₀ h₁ hv
    obtain ⟨lo, hi, hlo, hhi, hle, hge⟩ := id hbetween
    have hmem : (observeAll config l).smoothed ∈ Set.Ico (0 : ℚ) (2 ^ 63) :=
      ⟨(hrange lo hlo.1).1.trans hle, hge.trans_lt (hrange hi hhi.1).2⟩
    rw [show r.smoothed_per_sec = perSec (observeAll config l).smoothed from hs.published hv, hraws]
    exact hbetween.map (fun a ha b hb hab => perSec_mono ha.1 hab hb.2) hrange hmem
  · have hnone : current config l = [] := by
      by_contra hsome
      exact hv (hs.valid_iff.2 hsome)
    rw [if_neg hv, if_neg hv]
    refine ⟨fun _ => ⟨rfl, rfl⟩, fun w hw => ?_, fun hsome => absurd hnone hsome⟩
    rw [hnone] at hw
    cases hw

/-! ## The status builder -/

/-- The builder after what was read for some snapshots. -/
def builderAfter (config : RateSmootherConfig) (readings : List Reading) : RuntimeStatusBuilder where
  rx_packet_rate := observeAll config (readings.map packetsAt)
  rx_bytes_rate := observeAll config (readings.map bytesAt)

/-- The packets of a status are what was read, with the rates the smoothers show. -/
theorem build_packet (b : RuntimeStatusBuilder) (telemetry : Telemetry) (monitor : HealthMonitor)
    (raw : PacketMetrics) (state : RuntimeState) (now second third : UInt64) :
    let packets := (b.rx_packet_rate.observe raw.rx_packets now).snapshot
    let bytes := (b.rx_bytes_rate.observe raw.rx_bytes now).snapshot
    (b.build telemetry monitor raw state now second third).1.packet =
      { raw with
        rx_packets_per_sec := if packets.valid then packets.smoothed_per_sec else 0
        rx_packets_per_sec_raw := if packets.valid then packets.raw_per_sec else 0
        rx_bytes_per_sec := if bytes.valid then bytes.smoothed_per_sec else 0
        rx_bytes_per_sec_raw := if bytes.valid then bytes.raw_per_sec else 0 } := by
  intro packets bytes
  unfold RuntimeStatusBuilder.build
  dsimp only
  cases packets.valid <;> cases bytes.valid <;> rfl

/-- A status shows the rates of what was read for it and for those before. -/
theorem showsRates_build (h₀ : 0 ≤ config.alpha) (h₁ : config.alpha ≤ 1) (readings : List Reading) (w : Reading)
    (telemetry : Telemetry) (monitor : HealthMonitor) (state : RuntimeState) :
    ShowsRates config (readings ++ [w]) ((builderAfter config readings).build telemetry monitor w.raw_metrics state
      w.first w.second w.third).1.packet := by
  rw [build_packet]
  have hpackets := showsRate h₀ h₁ ((readings ++ [w]).map packetsAt)
  have hbytes := showsRate h₀ h₁ ((readings ++ [w]).map bytesAt)
  rw [List.map_append, List.map_singleton, observeAll_concat, ← List.map_singleton, ← List.map_append]
    at hpackets hbytes
  exact ⟨⟨w, List.getLast?_concat, rfl⟩, hpackets, hbytes⟩

theorem build_builder (readings : List Reading) (w : Reading) (telemetry : Telemetry) (monitor : HealthMonitor)
    (state : RuntimeState) : ((builderAfter config readings).build telemetry monitor w.raw_metrics state
      w.first w.second w.third).2 = builderAfter config (readings ++ [w]) := by
  unfold builderAfter
  rw [List.map_append, List.map_append, List.map_singleton, List.map_singleton, observeAll_concat, observeAll_concat]
  rfl

/-! ## Every run -/

/-- What the builder has observed, and the snapshots it has built. -/
structure Rated (config : RateSmootherConfig) (m : MainLoop) : Prop where
  builder : m.point ≠ .stopped → m.statusBuilder = builderAfter config m.readings
  readings : m.readings.length = m.published.length
  rates : ∀ k status, m.published[k]? = some status → ShowsRates config (m.readings.take (k + 1)) status.packet

/-- Nothing is built where `main` only goes on. -/
theorem Rated.move (h : Rated config m) (hpoint : m.point ≠ .stopped) (hbuilder : m'.statusBuilder = m.statusBuilder)
    (hreadings : m'.readings = m.readings) (hpublished : m'.published = m.published) : Rated config m' where
  builder _ := by rw [hbuilder, hreadings, h.builder hpoint]
  readings := by rw [hreadings, hpublished, h.readings]
  rates := by
    rw [hreadings, hpublished]
    exact h.rates

theorem Rated.publish (h₀ : 0 ≤ config.alpha) (h₁ : config.alpha ≤ 1) (h : Rated config m)
    (hpoint : m.point ≠ .stopped) : Rated config (m.publish w) := by
  have hbuilder := h.builder hpoint
  refine ⟨fun _ => ?_, ?_, fun k status hk => ?_⟩
  · show (m.build w).2 = builderAfter config (m.readings ++ [w])
    rw [build, hbuilder, build_builder]
  · show (m.readings ++ [_]).length = (m.published ++ [_]).length
    rw [List.length_append, List.length_append, h.readings]
    rfl
  · change (m.published ++ [_])[k]? = some status at hk
    show ShowsRates config ((m.readings ++ [w]).take (k + 1)) status.packet
    by_cases hlt : k < m.published.length
    · rw [List.getElem?_append_left hlt] at hk
      rw [List.take_append_of_le_length (by rw [h.readings]; exact hlt)]
      exact h.rates k status hk
    · rw [List.getElem?_append_right (Nat.not_lt.1 hlt)] at hk
      have hlast : k = m.published.length := by
        have hbound := (List.getElem?_eq_some_iff.1 hk).1
        rw [List.length_singleton] at hbound
        omega
      subst hlast
      rw [Nat.sub_self] at hk
      obtain rfl := Option.some.inj hk
      rw [← h.readings, List.take_of_length_le (by rw [List.length_append]; exact Nat.le_refl _)]
      show ShowsRates config _ (m.build w).1.packet
      rw [build, hbuilder]
      exact showsRates_build h₀ h₁ m.readings w m.telemetry m.healthMonitor m.runtimeState

theorem Rated.main (h₀ : 0 ≤ config.alpha) (h₁ : config.alpha ≤ 1) (h : Rated config m)
    (hstep : m.main w = some m') : Rated config m' := by
  unfold MainLoop.main at hstep
  cases hpoint : m.point with
  | starting | publishing =>
    simp only [hpoint] at hstep
    obtain rfl := Option.some.inj hstep
    have hgoing : m.point ≠ .stopped := by
      rw [hpoint]
      decide
    have hpublished := h.publish (w := w) h₀ h₁ hgoing
    exact ⟨fun _ => hpublished.builder hgoing, hpublished.readings, hpublished.rates⟩
  | announcing | requested | ticking | monitoring | sleeping =>
    simp only [hpoint] at hstep
    obtain rfl := Option.some.inj hstep
    exact h.move (by rw [hpoint]; decide) rfl rfl rfl
  | interrupted | terminated =>
    simp only [hpoint] at hstep
    split_ifs at hstep
    all_goals
      obtain rfl := Option.some.inj hstep
      exact h.move (by rw [hpoint]; decide) rfl rfl rfl
  | stopping =>
    simp only [hpoint] at hstep
    obtain rfl := Option.some.inj hstep
    exact ⟨fun hne => absurd rfl hne, h.readings, h.rates⟩
  | stopped =>
    simp only [hpoint] at hstep
    cases hstep

theorem Rated.step (h₀ : 0 ≤ config.alpha) (h₁ : config.alpha ≤ 1) (h : Rated config m)
    (hstep : MainLoop.step label m = some m') : Rated config m' := by
  cases label with
  | main w => exact h.main h₀ h₁ hstep
  | signal s =>
    obtain rfl := Option.some.inj hstep
    exact ⟨h.builder, h.readings, h.rates⟩

end MainLoop

end EdgeNetSwitch
