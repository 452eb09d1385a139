import EdgeNetSwitch.Daemon.Proofs.RuntimeProofs

/-!
# Proofs: a thread on its own comes to an end

Only the worker's loop and the two joins can be blocked. Every other action leaves actions of lower
rank, so the epoll thread can handle all its requests, and then the worker the packets in the queue
(`drain`).
-/

namespace EdgeNetSwitch

namespace Runtime

open Threads PacketProcessor

variable {s s' : Runtime} {a : Action} {w : Env} {k : List Action} {subs : List Subscriber}

/-- The actions that are never blocked, on a bus that stays as it is. -/
def Runs : Action → Prop
  | .processLoop | .joinEpoll | .joinWorker | .subscribe _ | .deliver (.client _) _ => False
  | _ => True

/-- An action leaves actions of lower rank. -/
def rank : Action → ℕ
  | .deliver .packetProcessor _ => 5
  | .deliver _ _ => 1
  | .publish _ msg => if msg.type = .packetRx then 6 else 2
  | .enqueue _ _ | .processPacket _ => 3
  | .inject _ => 4
  | .handleReadable _ | .publishSynthetic _ _ => 7
  | .sendPacket _ => 8
  | .replay records => 7 + records.length
  | _ => 0

theorem rank_publish_le (src : Source) (msg : Message) : rank (.publish src msg) ≤ 6 := by
  show (if msg.type = .packetRx then 6 else 2) ≤ 6
  split_ifs <;> omega

theorem rank_publish_of_type {src : Source} {msg : Message} (h : msg.type ≠ .packetRx) :
    rank (.publish src msg) = 2 := if_neg h

theorem exec_of_runs (ha : Runs a) (w : Env) (s : Runtime) : ∃ s' k, exec a w s = some (s', k) := by
  cases a with
  | deliver sub msg =>
    simp only [exec]
    split_ifs
    · exact ⟨_, _, rfl⟩
    · exact ⟨_, _, rfl⟩
  | processPacket p =>
    simp only [exec]
    split
    · exact ⟨_, _, rfl⟩
    · split <;> exact ⟨_, _, rfl⟩
  | enqueue p t =>
    simp only [exec]
    split_ifs <;> exact ⟨_, _, rfl⟩
  | replay records => cases records <;> exact ⟨_, _, rfl⟩
  | processLoop | joinEpoll | joinWorker | subscribe sub => exact ha.elim
  | _ => exact ⟨_, _, rfl⟩

theorem rank_lt_of_leaves {b : Action} (h : Leaves a b) (ha : Runs a) : rank b < rank a := by
  cases a with
  | publish src msg =>
    cases b with
    | deliver sub m =>
      obtain ⟨rfl, htype⟩ := h
      by_cases hrx : m.type = .packetRx
      · rw [show rank (.publish src m) = 6 from if_pos hrx]
        cases sub <;> simp [rank]
      · rw [rank_publish_of_type hrx]
        cases sub <;> first | simp [rank]; done | skip
        exact absurd (by simpa [Subscriber.types] using htype) hrx
    | _ => exact h.elim
  | deliver sub msg =>
    cases sub <;> first | exact ha.elim | skip
    all_goals cases b <;> first | exact h.elim | simp [rank]
  | inject p =>
    cases b <;> first | exact h.elim | simp [rank]; done | skip
    rename_i src msg
    cases src <;> first | exact h.elim | skip
    obtain ⟨reason, t, rfl⟩ := h
    rw [rank_publish_of_type (by simp [dropMessage])]
    simp [rank]
  | enqueue p t =>
    cases b <;> first | exact h.elim | skip
    rename_i src msg
    cases src <;> first | exact h.elim | skip
    obtain ⟨reason, t, rfl⟩ := h
    rw [rank_publish_of_type (by simp [dropMessage])]
    simp [rank]
  | processPacket p =>
    cases b <;> first | exact h.elim | simp [rank]; done | skip
    rename_i src msg
    cases src <;> first | exact h.elim | skip
    rw [rank_publish_of_type]
    · simp [rank]
    · rcases h with ⟨reason, t, rfl⟩ | rfl | ⟨decision, rfl⟩ <;>
        simp [dropMessage, processedMessage, forwardingMessage]
  | handleReadable recv | publishSynthetic arg p =>
    cases b <;> first | exact h.elim | skip
    rename_i src msg
    have := rank_publish_le src msg
    simp only [rank] at this ⊢
    omega
  | sendPacket arg =>
    cases b <;> first | exact h.elim | simp [rank]
  | replay records =>
    cases b <;> first | exact h.elim | skip
    · rename_i src msg
      have := rank_publish_le src msg
      simp only [rank] at this ⊢
      omega
    · cases records
      · obtain ⟨record, h⟩ := h
        cases h
      · obtain ⟨record, h⟩ := h
        cases h
        simp [rank]
  | processLoop => exact ha.elim
  | _ => cases b <;> exact h.elim

theorem runs_of_leaves {b : Action} (h : Leaves a b) (ha : Runs a)
    (hclient : ∀ type msg, b ≠ .deliver (.client type) msg) : Runs b := by
  cases b with
  | deliver sub msg => cases sub <;> first | trivial | exact absurd rfl (hclient _ _)
  | processLoop => exact eq_processLoop_of_leaves h ▸ ha
  | joinEpoll | joinWorker | subscribe sub =>
    cases a <;> first | exact h.elim | skip
    rename_i sub msg
    cases sub <;> exact h.elim
  | _ => trivial

/-- Without callbacks of other code such a thread comes to an end, and keeps what its actions
keep. -/
theorem solo_of_runs (hs : ∀ type, Subscriber.client type ∉ subs) {S : Action → Prop}
    {J : Runtime → Prop} (hruns : ∀ a, S a → Runs a)
    (hleaves : ∀ a b, S a → Leaves a b → Runs b → S b)
    (hJ : ∀ a w s s' k, S a → exec a w s = some (s', k) → J s → J s') {t : List Action}
    (ht : ∀ a ∈ t, S a) : Solo program (fun s => s.subscribers = subs ∧ J s) t
      fun s => s.subscribers = subs ∧ J s := by
  refine Solo.of_rank rank (fun a s ha hI => ?_) ht
  have hrun := hruns a ha
  obtain ⟨s', k, he⟩ := exec_of_runs hrun {} s
  refine ⟨{}, s', k, he, ⟨?_, hJ _ _ _ _ _ ha he hI.2⟩, fun b hb =>
    ⟨hleaves a b ha (exec_leaves he b hb) ?_, rank_lt_of_leaves (exec_leaves he b hb) hrun⟩⟩
  · rw [(exec_frame he).subscribers (by rintro sub rfl; exact hrun), hI.1]
  · exact runs_of_leaves (exec_leaves he b hb) hrun
      (not_deliver_client (fun type => hI.1 ▸ hs type) he hb)

/-- The worker is done with a packet at some time, and has left the queue alone. -/
theorem solo_processPacket (hs : ∀ type, Subscriber.client type ∉ subs) (p : Packet)
    (q : List Packet) : Solo program (fun s => s.subscribers = subs ∧ s.queue = q)
      [.processPacket p] fun s => s.subscribers = subs ∧ s.queue = q := by
  refine solo_of_runs hs (S := fun a => Runs a ∧ (rank a ≤ 2 ∨ ∃ p, a = .processPacket p))
    (fun a ha => ha.1) (fun a b ha hb hrun => ⟨hrun, Or.inl ?_⟩) (fun a w s s' k ha he hq => ?_)
    (fun a ha => ?_)
  · have hlt := rank_lt_of_leaves hb ha.1
    rcases ha.2 with hle | ⟨p, rfl⟩
    · omega
    · exact Nat.lt_succ_iff.1 hlt
  · rw [(exec_frame he).queue ?_ ?_, hq]
    · rintro p t rfl
      rcases ha.2 with hle | ⟨q, hq⟩
      · simp [rank] at hle
      · cases hq
    · rintro rfl
      exact ha.1
  · rw [List.mem_singleton.1 ha]
    exact ⟨trivial, Or.inr ⟨p, rfl⟩⟩

/-- Once the other thread rests, the worker can empty the queue. -/
theorem drain {Φ : List Packet → Runtime → Prop} {Ψ : Packet → List Packet → Runtime → Prop}
    (hqueue : ∀ q s, Φ q s → s.queue = q)
    (hpop : ∀ p q s, Φ (p :: q) s → Ψ p q { s with queue := q })
    (hwork : ∀ p q, Solo program (Ψ p q) [.processPacket p] (Φ q)) (t : List Action)
    (q : List Packet) (s : Runtime) (hs : Φ q s) : ∃ s', Φ [] s' ∧
      Reaches program anyStep ⟨s, [[.processLoop], t]⟩ ⟨s', [[.processLoop], t]⟩ := by
  induction q generalizing s with
  | nil => exact ⟨s, hs, Reaches.refl _⟩
  | cons p q ih =>
    have hq := hqueue _ _ hs
    have hpopped : program.exec .processLoop {} s =
        some ({ s with queue := q }, [.processPacket p, .processLoop]) := by
      simp only [program, exec, hq]
    have hstep : Step program ⟨s, [] ++ ([Action.processLoop]) :: [t]⟩ .processLoop
        ⟨{ s with queue := q }, [] ++ ([.processPacket p, .processLoop] ++ []) :: [t]⟩ :=
      Step.run [] [t] hpopped
    obtain ⟨s₁, hs₁, hr₁⟩ := (hwork p q).reaches (hpop p q s hs) [] [t] [.processLoop]
    obtain ⟨s', hs', hr'⟩ := ih s₁ hs₁
    exact ⟨s', hs', (((Reaches.refl _).tail hstep trivial).trans hr₁).trans hr'⟩

end Runtime

end EdgeNetSwitch
