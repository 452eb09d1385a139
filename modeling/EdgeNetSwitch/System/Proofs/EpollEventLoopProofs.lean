import EdgeNetSwitch.System.EpollEventLoop
import EdgeNetSwitch.Threads.Proofs.ProgramProofs

/-!
# Proofs: shutting the event loop down

`run()` sets the flag unconditionally, so a `stop()` that comes first is forgotten. Once the store
has been executed, a cleared flag stays cleared, and a loop that has seen it set still has a
notification to read (`Stopping`).
-/

namespace EdgeNetSwitch

open Threads

namespace EpollEventLoop

variable {c d : Config LoopState LoopAction} {a : LoopAction}

/-- The actions of `run()`: one of them is pending as long as it has not returned. -/
def loopToken : LoopAction → ℕ
  | .start | .test | .wait | .blocked | .dispatch _ => 1
  | _ => 0

/-- The actions of a `stop()` that was called and has not returned. -/
def stopToken : LoopAction → ℕ
  | .exchange | .notify | .stopped => 1
  | _ => 0

/-- What holds in a run whose stops all come after the store of `run()`. -/
structure Stopping (c : Config LoopState LoopAction) : Prop where
  token : c.load loopToken ≤ 1
  calls : c.shared.stops_called = c.shared.stops_returned + c.load stopToken
  running : c.Pending (· = .start) ∨ c.shared.running = true →
    c.shared.stops_returned = 0 ∧ ¬ c.Pending fun a => a = .notify ∨ a = .stopped
  woken : c.shared.running = false → (c.Pending fun a => a = .wait ∨ a = .blocked) →
    c.shared.shutdown_event ≠ 0 ∨ c.Pending (· = .notify)

theorem load_init (w : LoopAction → ℕ) (hw : w .stop = 0) (callers : List ℕ) :
    (init callers).load w = w .start := by
  have h0 : (Config.mk (σ := LoopState) {} (callers.map fun n => List.replicate n .stop)).load w =
      0 := by
    apply load_eq_zero
    intro t ht a ha
    obtain ⟨n, -, rfl⟩ := List.mem_map.1 ht
    rw [List.eq_of_mem_replicate ha, hw]
  unfold init
  rw [load_mk_cons, h0]
  simp

theorem stopping_init (callers : List ℕ) : Stopping (init callers) := by
  have hpend : ∀ p : LoopAction → Prop, (init callers).Pending p → p .start ∨ p .stop := by
    rintro p ⟨t, ht, a, ha, hp⟩
    rcases List.mem_cons.1 ht with rfl | ht
    · rw [List.mem_singleton.1 ha] at hp
      exact Or.inl hp
    · obtain ⟨n, -, rfl⟩ := List.mem_map.1 ht
      rw [List.eq_of_mem_replicate ha] at hp
      exact Or.inr hp
  refine ⟨by rw [load_init _ rfl]; rfl, by rw [load_init _ rfl]; rfl, fun _ => ⟨rfl, fun hp => ?_⟩,
    fun _ hp => ?_⟩
  · simpa using hpend _ hp
  · simpa using hpend _ hp

theorem notified_ne_zero (counter : UInt64) : notified counter ≠ 0 := by
  unfold notified
  have hlt := counter.toNat_lt
  split_ifs with h
  · intro h0
    have : (counter + 1).toNat = 0 := by rw [h0]; rfl
    rw [UInt64.toNat_add] at this
    simp at this
    omega
  · intro h0
    rw [h0] at h
    simp at h

section Step

variable {k : List LoopAction}

theorem Stopping.token_of (hc : Stopping c) (hr : Replaces a k c d)
    (hk : weight loopToken k ≤ loopToken a) : d.load loopToken ≤ 1 := by
  obtain ⟨x, hlc, hld⟩ := hr.load loopToken
  have := hc.token
  omega

/-- Once a call of `stop()` is past its exchange, the flag is cleared for good. -/
theorem Stopping.cleared (hc : Stopping c) (hp : c.Pending (· = a)) (ha : a = .notify ∨ a = .stopped) :
    ¬ (c.Pending (· = .start) ∨ c.shared.running = true) := by
  intro hst
  obtain ⟨-, hn⟩ := hc.running hst
  obtain ⟨t, ht, b, hb, rfl⟩ := hp
  exact hn ⟨t, ht, b, hb, ha⟩

/-- An action of the loop that leaves the flag, the counter and the calls alone, and does not bring
the loop to `wait`. -/
theorem Stopping.frame_loop (hc : Stopping c) (hr : Replaces a k c d) (ha : loopToken a = 1)
    (hk : weight loopToken k ≤ 1)
    (hwait : ∀ b ∈ k, loopToken b = 1 ∧ b ≠ .start ∧ b ≠ .wait ∧ b ≠ .blocked)
    (hrun : d.shared.running = c.shared.running)
    (hcalled : d.shared.stops_called = c.shared.stops_called)
    (hreturned : d.shared.stops_returned = c.shared.stops_returned) : Stopping d := by
  have hstop : ∀ b, loopToken b = 1 → stopToken b = 0 := by
    intro b hb
    cases b <;> first | rfl | cases hb
  refine ⟨hc.token_of hr (by omega), ?_, fun hs => ?_, fun _ hp => ?_⟩
  · refine hr.balance hc.calls (δ := 0) (by omega) ?_
    rw [hstop a ha, weight_eq_zero fun b hb => hstop b (hwait b hb).1]
    omega
  · rw [hrun] at hs
    have hs' : c.Pending (· = .start) ∨ c.shared.running = true := by
      refine hs.imp_left fun hp => ?_
      exact (hr.pending_or hp).resolve_left fun ⟨b, hb, he⟩ => (hwait b hb).2.1 he
    obtain ⟨h0, hn⟩ := hc.running hs'
    refine ⟨by omega, hr.not_pending (fun b hb => ?_) hn⟩
    rintro (rfl | rfl) <;> cases (hwait _ hb).1
  · have hloop : ∀ b, b = .wait ∨ b = .blocked → loopToken b ≠ 0 := by
      rintro b (rfl | rfl) <;> simp [loopToken]
    obtain ⟨b, hb, rfl | rfl⟩ := hr.token hc.token ha hp hloop
    · exact absurd rfl (hwait _ hb).2.2.1
    · exact absurd rfl (hwait _ hb).2.2.2

/-- Every step preserves `Stopping` when no exchange comes before the store. -/
theorem Stopping.step (hc : Stopping c) (hφ : StoppedAfterStart c a) (h : Step program c a d) :
    Stopping d := by
  obtain ⟨o, k, he, hr⟩ := h.spec
  have he' : exec a o c.shared = some (d.shared, k) := he
  cases a with
  | start =>
    simp only [exec, Option.some.injEq, Prod.mk.injEq] at he'
    obtain ⟨hs, rfl⟩ := he'
    obtain ⟨h0, hn⟩ := hc.running (Or.inl hr.pending)
    refine ⟨hc.token_of hr (by simp [loopToken]), ?_, fun _ => ⟨by rw [← hs]; exact h0, ?_⟩,
      fun hf => ?_⟩
    · exact hr.balance hc.calls (δ := 0) (by rw [← hs]; rfl) (by rw [← hs]; simp [stopToken])
    · exact hr.not_pending (by simp) hn
    · rw [← hs] at hf
      cases hf
  | test =>
    simp only [exec, Option.some.injEq, Prod.mk.injEq] at he'
    obtain ⟨hs, hk⟩ := he'
    by_cases hrun : c.shared.running
    · rw [if_pos hrun] at hk
      subst hk
      refine ⟨hc.token_of hr (by simp [loopToken]), ?_, fun _ => ?_, fun hf => ?_⟩
      · exact hr.balance hc.calls (δ := 0) (by rw [hs]; rfl) (by rw [hs]; simp [stopToken])
      · obtain ⟨h0, hn⟩ := hc.running (Or.inr hrun)
        exact ⟨by rw [← hs]; exact h0, hr.not_pending (by simp) hn⟩
      · rw [← hs, hrun] at hf
        cases hf
    · rw [if_neg hrun] at hk
      subst hk
      exact hc.frame_loop hr rfl (by simp) (by simp) (by rw [hs]) (by rw [hs])
        (by rw [hs])
  | wait =>
    simp only [exec, Option.some.injEq, Prod.mk.injEq] at he'
    obtain ⟨hs, rfl⟩ := he'
    refine ⟨hc.token_of hr (by simp [loopToken]), ?_, fun hst => ?_, fun hf _ => ?_⟩
    · exact hr.balance hc.calls (δ := 0) (by rw [hs]; rfl) (by rw [hs]; simp [stopToken])
    · rw [← hs] at hst ⊢
      obtain ⟨h0, hn⟩ := hc.running (hst.imp_left fun hp => by
        simpa using hr.pending_or hp)
      exact ⟨h0, hr.not_pending (by simp) hn⟩
    · rw [← hs] at hf ⊢
      have hw : c.Pending fun a => a = .wait ∨ a = .blocked := by
        obtain ⟨t, ht, b, hb, rfl⟩ := hr.pending
        exact ⟨t, ht, _, hb, Or.inl rfl⟩
      exact (hc.woken hf hw).imp_right (hr.pending_mono (by simp))
  | blocked =>
    simp only [exec, Option.ite_none_left_eq_some, Option.some.injEq, Prod.mk.injEq] at he'
    obtain ⟨-, hs, rfl⟩ := he'
    exact hc.frame_loop hr rfl (by simp [loopToken]) (by simp [loopToken])
      (by rw [hs]) (by rw [hs]) (by rw [hs])
  | dispatch events =>
    rcases events with _ | ⟨_ | fd, events⟩ <;>
      simp only [exec, Option.some.injEq, Prod.mk.injEq] at he' <;>
      obtain ⟨hs, rfl⟩ := he'
    · exact hc.frame_loop hr rfl (by simp [loopToken]) (by simp [loopToken])
        (by rw [hs]) (by rw [hs]) (by rw [hs])
    · exact hc.frame_loop hr rfl (by simp [loopToken]) (by simp [loopToken])
        (by rw [← hs]) (by rw [← hs]) (by rw [← hs])
    · exact hc.frame_loop hr rfl (by simp [loopToken]) (by simp [loopToken])
        (by rw [hs]) (by rw [hs]) (by rw [hs])
  | stop =>
    simp only [exec, Option.some.injEq, Prod.mk.injEq] at he'
    obtain ⟨hs, rfl⟩ := he'
    refine ⟨hc.token_of hr (by simp [loopToken]), ?_, fun hst => ?_, fun hf hp => ?_⟩
    · refine hr.balance hc.calls (δ := 1) (by rw [← hs]) ?_
      rw [← hs]
      simp [stopToken]
    · rw [← hs] at hst ⊢
      obtain ⟨h0, hn⟩ := hc.running (hst.imp_left fun hp => by simpa using hr.pending_or hp)
      exact ⟨h0, hr.not_pending (by simp) hn⟩
    · rw [← hs] at hf ⊢
      exact (hc.woken hf (by simpa using hr.pending_or hp)).imp_right (hr.pending_mono (by simp))
  | exchange =>
    simp only [exec, Option.some.injEq, Prod.mk.injEq] at he'
    obtain ⟨hs, rfl⟩ := he'
    refine ⟨hc.token_of hr (by split_ifs <;> simp [loopToken]), ?_, fun hst => ?_, fun _ hp => ?_⟩
    · refine hr.balance hc.calls (δ := 0) (by rw [← hs]; rfl) ?_
      rw [← hs]
      split_ifs <;> simp [stopToken]
    · -- the flag is cleared for good
      rw [← hs] at hst
      refine absurd (hst.resolve_right (by simp)) (hr.not_pending (fun b hb => ?_) (hφ rfl))
      split_ifs at hb <;> simp at hb <;> simp [hb]
    · by_cases hrun : c.shared.running
      · exact Or.inr (hr.pending_of_mem (by rw [if_pos hrun]; exact List.mem_singleton_self _) rfl)
      · rw [if_neg hrun] at hr
        rw [← hs]
        refine (hc.woken (Bool.eq_false_iff.2 hrun) ?_).imp_right (hr.pending_mono (by simp))
        simpa using hr.pending_or hp
  | notify =>
    simp only [exec, Option.some.injEq, Prod.mk.injEq] at he'
    obtain ⟨hs, rfl⟩ := he'
    refine ⟨hc.token_of hr (by simp [loopToken]), ?_, fun hst => ?_, fun _ _ => ?_⟩
    · exact hr.balance hc.calls (δ := 0) (by rw [← hs]; rfl) (by rw [← hs]; simp [stopToken])
    · rw [← hs] at hst
      exact absurd (hst.imp_left fun hp => by simpa using hr.pending_or hp)
        (hc.cleared hr.pending (Or.inl rfl))
    · rw [← hs]
      exact Or.inl (notified_ne_zero _)
  | stopped =>
    simp only [exec, Option.some.injEq, Prod.mk.injEq] at he'
    obtain ⟨hs, rfl⟩ := he'
    refine ⟨hc.token_of hr (by simp [loopToken]), ?_, fun hst => ?_, fun hf hp => ?_⟩
    · exact hr.balance hc.calls (δ := 0) (by rw [← hs]; rfl) (by rw [← hs]; simp [stopToken])
    · rw [← hs] at hst
      exact absurd (hst.imp_left fun hp => by simpa using hr.pending_or hp)
        (hc.cleared hr.pending (Or.inr rfl))
    · rw [← hs] at hf ⊢
      exact (hc.woken hf (by simpa using hr.pending_or hp)).imp_right (hr.pending_mono (by simp))

end Step

/-- In every run whose stops come after the store of `run()`, no shutdown is lost. -/
theorem not_shutdownLost {callers : List ℕ} (h : Reaches program StoppedAfterStart (init callers) c) :
    ¬ ShutdownLost c := by
  have hinv : Stopping c :=
    h.invariant (stopping_init callers) fun _ _ _ hc hφ hs => hc.step hφ hs
  rintro ⟨hpos, hret, ⟨-, hrun⟩ | ⟨hp, hrun, h0⟩⟩
  · have := (hinv.running (Or.inr hrun)).1
    omega
  · -- the notification is still to come from a `stop()` that has not returned
    have hwait : c.Pending fun a => a = .wait ∨ a = .blocked := by
      obtain ⟨t, ht, b, hb, rfl⟩ := hp
      exact ⟨t, ht, _, hb, Or.inr rfl⟩
    obtain ⟨t, ht, b, hb, rfl⟩ := (hinv.woken hrun hwait).resolve_left fun h => h h0
    have hload : 0 < c.load stopToken := load_pos ⟨t, ht, _, hb, by simp [stopToken]⟩
    have := hinv.calls
    omega

/-- A stop that follows the store wakes the loop. -/
theorem not_shutdownLost_after_start : ¬ ShutdownLost
    ⟨{ running := false, shutdown_event := 1, stops_called := 1, stops_returned := 1 },
      [[.blocked], []]⟩ := by
  have hrun : Reaches program StoppedAfterStart (init [1])
      ⟨{ running := false, shutdown_event := 1, stops_called := 1, stops_returned := 1 },
        [[.blocked], []]⟩ := by
    refine Reaches.move 0 [] rfl ?_ (Reaches.move 0 [] rfl ?_ (Reaches.move 0 [] rfl ?_
      (Reaches.move 1 [] rfl ?_ (Reaches.move 1 [] rfl ?_ (Reaches.move 1 [] rfl ?_
        (Reaches.move 1 [] rfl ?_ (Reaches.refl _)))))))
    all_goals simp [StoppedAfterStart, Config.next, Config.Pending, init]
  exact not_shutdownLost hrun

/-- A `stop()` that comes before the store of `run()` is forgotten. -/
theorem shutdown_lost : ∃ c, Reaches program anyStep (init [1]) c ∧ ShutdownLost c := by
  have hplay : play program anyStep [(1, []), (1, []), (1, []), (0, []), (0, []), (0, [])] (init [1]) =
      some ⟨{ running := true, stops_called := 1, stops_returned := 1 }, [[.blocked], []]⟩ := rfl
  refine ⟨_, reaches_of_play hplay, by decide, rfl, Or.inl ⟨?_, rfl⟩⟩
  exact ⟨[.blocked], by simp, .blocked, by simp, Or.inr rfl⟩

end EpollEventLoop

end EdgeNetSwitch
