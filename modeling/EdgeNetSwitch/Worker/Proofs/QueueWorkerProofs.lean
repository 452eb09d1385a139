import EdgeNetSwitch.Worker.QueueWorker
import EdgeNetSwitch.Threads.Proofs.ProgramProofs
import EdgeNetSwitch.Packet.Packet

/-!
# Proofs: stopping a queue worker

Neither the flag nor the notification is under the mutex, so `notify_all` can fall between the
worker's evaluation of its predicate and its going to sleep, and is lost there. When it never does,
a worker that sleeps, or is about to, after the flag was cleared has the notification still ahead of
it (`Stoppable`).
-/

namespace EdgeNetSwitch

open Threads

namespace QueueState

variable {α : Type*} {owner : QueueOwner} {c d : Config (QueueState α) (QueueAction α)}
  {a : QueueAction α}

/-- A stopping thread that has cleared the flag is in `notify_all` or past it; and as long as the
worker sleeps or is about to, no stopping thread is past it. -/
structure Stoppable (c : Config (QueueState α) (QueueAction α)) : Prop where
  stopped : c.Pending (fun a => a = .notifyAll ∨ a = .join) → c.shared.running = false
  asleep : c.shared.waiter = .sleeping → c.shared.running = false → ¬ c.Pending (· = .join)
  window : c.Pending (· = .sleep) → c.shared.running = false → ¬ c.Pending (· = .join)

theorem stoppable_start {callers : List (List (QueueAction α))}
    (h : ∀ t ∈ callers, ∀ a ∈ t, IsCall a) : Stoppable (start callers) := by
  have hnot : ∀ p : QueueAction α → Prop, (∀ a, p a → ¬ IsCall a) → ¬ p .acquire →
      ¬ (start callers).Pending p := by
    rintro p hp hacq ⟨t, ht, a, ha, hpa⟩
    rcases List.mem_cons.1 ht with rfl | ht
    · rw [List.mem_singleton.1 ha] at hpa
      exact hacq hpa
    · exact hp a hpa (h t ht a ha)
  refine ⟨fun hp => absurd hp (hnot _ ?_ (by simp)), fun hw => absurd hw (by simp [start]),
    fun hp => absurd hp (hnot _ ?_ (by simp))⟩
  · rintro a (rfl | rfl) hc <;> exact hc
  · rintro a rfl hc
    exact hc

/-- An action that leaves the flag alone, sends nobody to sleep and adds nothing to a stopping
thread. -/
theorem Stoppable.frame (hc : Stoppable c) {k : List (QueueAction α)}
    (hk : ∀ b ∈ k, b ≠ .notifyAll ∧ b ≠ .join ∧ b ≠ .sleep)
    (hrun : d.shared.running = c.shared.running)
    (hwait : d.shared.waiter = .sleeping → c.shared.waiter = .sleeping)
    (hd : Replaces a k c d) : Stoppable d := by
  have hjoin : ¬ c.Pending (· = .join) → ¬ d.Pending (· = .join) :=
    hd.not_pending fun b hb => (hk b hb).2.1
  refine ⟨fun hp => ?_, fun hw hr => ?_, fun hp hr => ?_⟩
  · rw [hrun]
    rcases hd.pending_or hp with ⟨b, hb, rfl | rfl⟩ | hp
    · exact absurd rfl (hk _ hb).1
    · exact absurd rfl (hk _ hb).2.1
    · exact hc.stopped hp
  · exact hjoin (hc.asleep (hwait hw) (hrun ▸ hr))
  · rcases hd.pending_or hp with ⟨b, hb, rfl⟩ | hp
    · exact absurd rfl (hk _ hb).2.2
    · exact hjoin (hc.window hp (hrun ▸ hr))

theorem notify_waiter (s : QueueState α) : s.notify.waiter ≠ .sleeping := by
  unfold notify
  split_ifs with h
  · simp
  · exact h

/-- Clearing the flag while it is set. -/
theorem Stoppable.stop (hc : Stoppable c) {k : List (QueueAction α)}
    (hk : ∀ b ∈ k, b = .notifyAll) (hshared : d.shared = { c.shared with running := false })
    (hd : Replaces a k c d) : Stoppable d := by
  have hjoin : ¬ c.Pending (· = .join) → ¬ d.Pending (· = .join) :=
    hd.not_pending fun b hb => by rw [hk b hb]; simp
  by_cases hrun : c.shared.running = false
  · refine ⟨fun _ => by rw [hshared], fun hw _ => ?_, fun hp _ => ?_⟩
    · rw [hshared] at hw
      exact hjoin (hc.asleep hw hrun)
    · rcases hd.pending_or hp with ⟨b, hb, rfl⟩ | hp
      · cases hk _ hb
      · exact hjoin (hc.window hp hrun)
  · have hn : ¬ c.Pending (· = .join) := by
      rintro ⟨t, ht, b, hb, rfl⟩
      exact hrun (hc.stopped ⟨t, ht, _, hb, Or.inr rfl⟩)
    exact ⟨fun _ => by rw [hshared], fun _ _ => hjoin hn, fun _ _ => hjoin hn⟩

/-- Every step that keeps `notify_all` out of the window preserves `Stoppable`. -/
theorem Stoppable.step (hc : Stoppable c) (hφ : NotifiedOutsideWindow c a)
    (h : Step (program owner) c a d) : Stoppable d := by
  obtain ⟨w, k, he, hd⟩ := h.spec
  have he' : exec owner a w c.shared = some (d.shared, k) := he
  cases a with
  | acquire =>
    simp only [exec, Option.ite_none_left_eq_some, Option.some.injEq, Prod.mk.injEq] at he'
    obtain ⟨-, hs, rfl⟩ := he'
    exact hc.frame (by simp) (by rw [← hs]) (by rw [← hs]; exact id) hd
  | evaluate =>
    simp only [exec, Option.some.injEq, Prod.mk.injEq] at he'
    obtain ⟨hs, rfl⟩ := he'
    by_cases hr : c.shared.ready
    · rw [if_pos hr] at hd
      exact hc.frame (by simp) (by rw [hs]) (by rw [hs]; exact id) hd
    · -- the predicate is false, so the flag is still set
      have hrun : d.shared.running = true := by
        rw [← hs]
        by_contra hf
        exact hr (by simp [ready, hf])
      rw [if_neg hr] at hd
      refine ⟨fun hp => ?_, fun _ hf => ?_, fun _ hf => ?_⟩
      · rcases hd.pending_or hp with ⟨b, hb, hb'⟩ | hp
        · rw [List.mem_singleton.1 hb] at hb'
          rcases hb' with hb' | hb' <;> cases hb'
        · rw [← hs]
          exact hc.stopped hp
      · rw [hrun] at hf; cases hf
      · rw [hrun] at hf; cases hf
  | sleep =>
    simp only [exec, Option.some.injEq, Prod.mk.injEq] at he'
    obtain ⟨hs, rfl⟩ := he'
    have hjoin : d.shared.running = false → ¬ d.Pending (· = .join) := by
      intro hr hp
      rcases hd.pending_or hp with ⟨b, hb, rfl⟩ | hp
      · cases List.mem_singleton.1 hb
      · exact hc.window hd.pending (by rw [← hs] at hr; exact hr) hp
    refine ⟨fun hp => ?_, fun _ => hjoin, fun _ => hjoin⟩
    rw [← hs]
    rcases hd.pending_or hp with ⟨b, hb, hb'⟩ | hp
    · rw [List.mem_singleton.1 hb] at hb'
      rcases hb' with hb' | hb' <;> cases hb'
    · exact hc.stopped hp
  | wake =>
    simp only [exec, Option.ite_none_left_eq_some, Option.some.injEq, Prod.mk.injEq] at he'
    obtain ⟨-, hs, rfl⟩ := he'
    exact hc.frame (by simp) (by rw [← hs]) (by rw [← hs]; simp) hd
  | take =>
    simp only [exec] at he'
    split_ifs at he'
    · simp only [Option.some.injEq, Prod.mk.injEq] at he'
      obtain ⟨hs, rfl⟩ := he'
      exact hc.frame (by simp) (by rw [← hs]) (by rw [← hs]; exact id) hd
    · split at he'
      · simp only [Option.some.injEq, Prod.mk.injEq] at he'
        obtain ⟨hs, rfl⟩ := he'
        exact hc.frame (by simp) (by rw [← hs]) (by rw [← hs]; exact id) hd
      · cases he'
  | process item =>
    simp only [exec, Option.some.injEq, Prod.mk.injEq] at he'
    obtain ⟨hs, rfl⟩ := he'
    refine hc.frame ?_ (by rw [hs]) (by rw [hs]; exact id) hd
    intro b hb
    rcases List.mem_append.1 hb with hb | hb
    · obtain ⟨x, -, rfl⟩ := List.mem_map.1 hb
      simp
    · rw [List.mem_singleton.1 hb]
      simp
  | enqueue item =>
    simp only [exec] at he'
    split_ifs at he'
    split at he' <;> simp only [Option.some.injEq, Prod.mk.injEq] at he' <;> obtain ⟨hs, rfl⟩ := he'
    · exact hc.frame (by simp) (by rw [← hs]) (by rw [← hs]; exact id) hd
    · exact hc.frame (by simp) (by rw [hs]) (by rw [hs]; exact id) hd
  | notifyOne =>
    simp only [exec, Option.some.injEq, Prod.mk.injEq] at he'
    obtain ⟨hs, rfl⟩ := he'
    refine hc.frame (by simp) (by rw [← hs]; rfl) (fun hw => ?_) hd
    rw [← hs] at hw
    exact absurd hw (notify_waiter _)
  | stop =>
    simp only [exec] at he'
    split at he'
    · simp only [Option.some.injEq, Prod.mk.injEq] at he'
      obtain ⟨hs, rfl⟩ := he'
      exact hc.stop (by simp) hs.symm hd
    · split_ifs at he' <;> simp only [Option.some.injEq, Prod.mk.injEq] at he' <;>
        obtain ⟨hs, rfl⟩ := he'
      · exact hc.stop (by simp) hs.symm hd
      · exact hc.frame (by simp) (by rw [hs]) (by rw [hs]; exact id) hd
  | notifyAll =>
    simp only [exec, Option.some.injEq, Prod.mk.injEq] at he'
    obtain ⟨hs, rfl⟩ := he'
    have hrun : c.shared.running = false := by
      obtain ⟨t, ht, b, hb, rfl⟩ := hd.pending
      exact hc.stopped ⟨t, ht, _, hb, Or.inl rfl⟩
    refine ⟨fun _ => by rw [← hs]; exact hrun, fun hw => ?_, fun hp => ?_⟩
    · rw [← hs] at hw
      exact absurd hw (notify_waiter _)
    · rcases hd.pending_or hp with ⟨b, hb, rfl⟩ | hp
      · cases List.mem_singleton.1 hb
      · exact absurd hp (hφ rfl)
  | join =>
    simp only [exec, Option.ite_none_right_eq_some, Option.some.injEq, Prod.mk.injEq] at he'
    obtain ⟨-, hs, rfl⟩ := he'
    exact hc.frame (by simp) (by rw [hs]) (by rw [hs]; exact id) hd

/-- In every run that keeps `notify_all` out of the worker's window, the stopping thread is never
left waiting for a worker that sleeps. -/
theorem not_stuck (owner : QueueOwner) {callers : List (List (QueueAction α))}
    (hcallers : ∀ t ∈ callers, ∀ a ∈ t, IsCall a)
    (h : Reaches (program owner) NotifiedOutsideWindow (start callers) c) : ¬ Stuck c := by
  have hinv : Stoppable c :=
    h.invariant (stoppable_start hcallers) fun _ _ _ hc hφ hs => hc.step hφ hs
  rintro ⟨⟨t, ht, hhead⟩, hw, -, -⟩
  have hmem : QueueAction.join ∈ t := List.mem_of_mem_head? hhead
  exact hinv.asleep hw (hinv.stopped ⟨t, ht, _, hmem, Or.inr rfl⟩) ⟨t, ht, _, hmem, rfl⟩

/-- A stop that finds the worker before its first evaluation. -/
theorem not_stuck_early_stop : ¬ Stuck
    (⟨{ running := false }, [[.acquire], [.join]]⟩ :
      Config (QueueState Packet) (QueueAction Packet)) := by
  have hcalls : ∀ t ∈ [[QueueAction.stop]], ∀ a ∈ t, IsCall (α := Packet) a := by simp [IsCall]
  refine not_stuck .packetProcessor hcalls
    (Reaches.move 1 {} rfl ?_ (Reaches.move 1 {} rfl ?_ (Reaches.refl _)))
  · simp [NotifiedOutsideWindow, Config.next, start]
  · simp [NotifiedOutsideWindow, Config.Pending, start]

/-- The window can be hit: the worker of an idle owner finds nothing to do, is stopped and notified,
and only then goes to sleep. -/
theorem lost_wakeup (owner : QueueOwner) :
    ∃ c, Reaches (program owner) anyStep (start (α := α) [[.stop]]) c ∧ Stuck c := by
  refine ⟨⟨{ running := false, waiter := .sleeping }, [[.wake], [.join]]⟩, ?_, ?_⟩
  · have hplay : play (program (α := α) owner) anyStep [(0, {}), (0, {}), (1, {}), (1, {}), (0, {})]
        (start [[.stop]]) = some ⟨{ running := false, waiter := .sleeping }, [[.wake], [.join]]⟩ := by
      cases owner <;> rfl
    exact reaches_of_play hplay
  · exact ⟨⟨[.join], by simp, rfl⟩, rfl, rfl, by simp [Config.Pending]⟩

/-- `~PacketProcessor` on an idle processor can wait forever. -/
theorem packetProcessor_stuck : ∃ c,
    Reaches (program .packetProcessor) anyStep (start (α := Packet) [[.stop]]) c ∧ Stuck c :=
  lost_wakeup _

end QueueState

end EdgeNetSwitch
