import EdgeNetSwitch.Daemon.WorkerRounds
import EdgeNetSwitch.Daemon.Proofs.RuntimeProofs

/-!
# Proofs: the worker goes round by round

The actions of a round are on the stack of the worker only, above its loop, and one packet is begun
when the last one is done. So what the trace has of the worker, with what is still on its stack, is a
list of rounds (`InRounds`).
-/

namespace EdgeNetSwitch

namespace Runtime

open Threads PacketProcessor

variable {s s' : Runtime} {a : Action} {w : Env} {k rest : List Action}
  {c d : Config Runtime Action} {pre post : List (List Action)}

/-- The actions of a round. -/
def OfRound : Action → Prop
  | .processPacket _ | .transmit _ _ | .publish .worker _ => True
  | _ => False

/-- A stack of the worker ends with its loop, and begins a packet with nothing else to do. -/
def RoundStack (t : List Action) : Prop :=
  (∀ b ∈ t, ¬ OfRound b ∧ b ≠ .processLoop) ∨
    ∃ u, t = u ++ [.processLoop] ∧ .processLoop ∉ u ∧ ∀ p, .processPacket p ∈ u → u = [.processPacket p]

theorem isEntry_isCall (h : IsEntry a) : IsCall a := by
  cases a <;> first | exact h | exact h.elim

theorem not_ofRound_of_isEntry (h : IsEntry a) : ¬ OfRound a ∧ a ≠ .processLoop := by
  refine ⟨fun hr => ?_, fun he => ?_⟩
  · cases a <;> first | exact h.elim | exact hr.elim | skip
    rename_i src msg
    cases src <;> first | exact hr.elim | exact h.2 rfl
  · subst he
    exact h

theorem ofRound_of_leaves {b : Action} (h : Leaves a b) (hb : OfRound b) :
    OfRound a ∨ a = .processLoop := by
  cases b with
  | processPacket p =>
    cases a <;> first | exact Or.inr rfl | exact h.elim | skip
    rename_i sub msg
    cases sub <;> exact h.elim
  | transmit port p =>
    cases a <;> first | exact Or.inl trivial | exact h.elim | skip
    rename_i sub msg
    cases sub <;> exact h.elim
  | publish src msg =>
    cases src <;> first | exact hb.elim | skip
    cases a <;> first | exact Or.inl trivial | exact h.elim | skip
    rename_i sub msg
    cases sub <;> exact h.elim
  | _ => exact hb.elim

/-- Only the loop begins a packet. -/
theorem eq_processLoop_of_leaves_processPacket {p : Packet} (h : Leaves a (.processPacket p)) :
    a = .processLoop := by
  cases a <;> first | rfl | exact h.elim | skip
  rename_i sub msg
  cases sub <;> exact h.elim

theorem RoundStack.step (h : exec a w s = some (s', k)) (ht : RoundStack (a :: rest)) :
    RoundStack (k ++ rest) := by
  have hleaves := exec_leaves h
  rcases ht with ht | ⟨u, hu, hloop, hbegin⟩
  · exact Or.inl (free_of_leaves ofRound_of_leaves hleaves ht)
  · cases u with
    | nil =>
      obtain ⟨rfl, rfl⟩ := List.cons.inj hu
      rw [List.append_nil]
      rcases exec_processLoop h with ⟨p, queue, -, -, rfl⟩ | ⟨-, -, -, rfl⟩
      · exact Or.inr ⟨[.processPacket p], rfl, by simp, by simp⟩
      · exact Or.inl (by simp)
    | cons b u =>
      obtain ⟨rfl, rfl⟩ := List.cons.inj hu
      refine Or.inr ⟨k ++ u, (List.append_assoc _ _ _).symm, processLoop_not_mem_of_leaves hleaves hloop,
        fun p hp => ?_⟩
      rw [List.mem_cons, not_or] at hloop
      rcases List.mem_append.1 hp with hp | hp
      · exact absurd (eq_processLoop_of_leaves_processPacket (hleaves _ hp)).symm hloop.1
      · have hsingle := hbegin p (List.mem_cons_of_mem _ hp)
        rw [(List.cons.inj hsingle).2] at hp
        cases hp

/-- One thread is the worker. -/
structure OneWorker (c : Config Runtime Action) : Prop where
  worker : WorkerThread c
  shape : c.Stacks RoundStack

theorem oneWorker_start {callers : List (List Action)} (hs : s.exited = false)
    (hcallers : ∀ t ∈ callers, ∀ a ∈ t, IsEntry a) : OneWorker (start s callers) := by
  refine ⟨workerThread_start hs fun t ht a ha => isEntry_isCall (hcallers t ht a ha), fun t ht => ?_⟩
  rcases List.mem_cons.1 ht with rfl | ht
  · exact Or.inr ⟨[], rfl, by simp, by simp⟩
  · exact Or.inl fun b hb => not_ofRound_of_isEntry (hcallers t ht b hb)

theorem OneWorker.step (hc : OneWorker c) (h : Step program c a d) : OneWorker d := by
  refine ⟨hc.worker.step h, ?_⟩
  obtain ⟨w, k, he, hr⟩ := step_spec h
  exact hr.stacks hc.shape fun rest ht => ht.step he

/-- While the worker moves, no other thread has an action of a round. -/
theorem OneWorker.others (hc : OneWorker c) (ht : c.threads = pre ++ (a :: rest) :: post)
    (ha : OfRound a ∨ a = .processLoop) : ∀ t ∈ pre ++ post, ∀ b ∈ t, ¬ OfRound b := by
  obtain ⟨s, ts⟩ := c
  subst ht
  have htoken := hc.worker.token
  rw [load_mk_append] at htoken
  have hmoving : 0 < weight loopToken (a :: rest) := by
    rcases hc.shape (a :: rest) (by simp) with hn | ⟨u, hu, -⟩
    · exact absurd (hn a (by simp)) (by tauto)
    · rw [hu, weight_append]
      simp [loopToken]
  intro t ht b hb hround
  rcases hc.shape t (by simp only [List.mem_append, List.mem_cons] at ht ⊢; tauto) with
    hn | ⟨u, rfl, -⟩
  · exact (hn b hb).1 hround
  · have := load_pos (c := Config.mk s (pre ++ post)) (w := loopToken)
      ⟨_, ht, .processLoop, by simp, by simp [loopToken]⟩
    omega

/-! ## What is on the stack of the worker -/

section Pending

variable {β : Type*} {f : Action → List β}

/-- The entries of the pending actions. -/
def pending (f : Action → List β) (c : Config Runtime Action) : List β :=
  c.threads.flatMap (List.flatMap f)

theorem flatMap_eq_nil {t : List Action} (hf : ∀ a, ¬ OfRound a → f a = [])
    (ht : ∀ b ∈ t, ¬ OfRound b) : t.flatMap f = [] := by
  rw [List.flatMap_eq_nil_iff]
  exact fun b hb => hf b (ht b hb)

/-- A step of the worker replaces the entries of its action. -/
theorem pending_of_round (hf : ∀ a, ¬ OfRound a → f a = []) (hc : OneWorker c)
    (hr : Replaces a k c d) (ha : OfRound a ∨ a = .processLoop) : ∃ r,
    pending f c = f a ++ r ∧ pending f d = k.flatMap f ++ r ∧
      ((∃ p, a = .processPacket p) ∨ a = .processLoop → r = []) := by
  obtain ⟨pre, rest, post, hct, hdt⟩ := hr
  have hothers := hc.others hct ha
  have hpre : pre.flatMap (List.flatMap f) = [] := by
    rw [List.flatMap_eq_nil_iff]
    exact fun t ht => flatMap_eq_nil hf (hothers t (List.mem_append_left _ ht))
  have hpost : post.flatMap (List.flatMap f) = [] := by
    rw [List.flatMap_eq_nil_iff]
    exact fun t ht => flatMap_eq_nil hf (hothers t (List.mem_append_right _ ht))
  refine ⟨rest.flatMap f, ?_, ?_, fun hbegin => ?_⟩
  · rw [pending, hct, List.flatMap_append, List.flatMap_cons, hpre, hpost, List.flatMap_cons]
    simp
  · rw [pending, hdt, List.flatMap_append, List.flatMap_cons, hpre, hpost, List.flatMap_append]
    simp
  · have hloop : f .processLoop = [] := hf _ (by simp [OfRound])
    rcases hc.shape (a :: rest) (by simp [hct]) with hn | ⟨u, hu, hnot, hsingle⟩
    · exact absurd (hn a (by simp)) (by tauto)
    · cases u with
      | nil =>
        rw [(List.cons.inj hu).2]
        rfl
      | cons b u =>
        obtain ⟨rfl, rfl⟩ := List.cons.inj hu
        rcases hbegin with ⟨p, rfl⟩ | rfl
        · have hu' := hsingle p (by simp)
          rw [(List.cons.inj hu').2]
          simp [hloop]
        · simp at hnot

/-- The steps of the other threads, and of the worker in its callbacks, leave the entries alone. -/
theorem pending_of_other (hf : ∀ a, ¬ OfRound a → f a = []) (he : exec a w s = some (s', k))
    (hr : Replaces a k c d) (ha : ¬ OfRound a) (ha' : a ≠ .processLoop) :
    pending f d = pending f c := by
  obtain ⟨pre, rest, post, hct, hdt⟩ := hr
  have hk : k.flatMap f = [] := flatMap_eq_nil hf fun b hb hround =>
    (ofRound_of_leaves (exec_leaves he b hb) hround).elim ha ha'
  rw [pending, pending, hct, hdt]
  simp only [List.flatMap_append, List.flatMap_cons, hk, hf a ha, List.nil_append]

end Pending

/-! ## The queue follows its specification -/

variable {tr : List (Runtime × Action)}

theorem fifo_append (tr : List (Runtime × Action)) (s : Runtime) (a : Action) :
    fifo (tr ++ [(s, a)]) = match a with
      | .enqueue p _ => BoundedFifo.step maxQueueSize (fifo tr) (.offer p)
      | .processLoop => BoundedFifo.step maxQueueSize (fifo tr) .poll
      | _ => fifo tr := by
  have hops : queueOps (tr ++ [(s, a)]) = queueOps tr ++ (match a with
      | .enqueue p _ => some (BoundedFifo.Op.offer p)
      | .processLoop => some .poll
      | _ => none).toList := by
    unfold queueOps
    rw [List.filterMap_append]
    congr 1
  unfold fifo
  rw [hops]
  cases a <;> first | exact BoundedFifo.run_append .. | rw [Option.toList_none, List.append_nil]

theorem fifo_enqueue (tr : List (Runtime × Action)) (s : Runtime) (p : Packet) (t : UInt64) :
    fifo (tr ++ [(s, .enqueue p t)]) = BoundedFifo.step maxQueueSize (fifo tr) (.offer p) :=
  fifo_append tr s _

theorem fifo_processLoop (tr : List (Runtime × Action)) (s : Runtime) :
    fifo (tr ++ [(s, .processLoop)]) = BoundedFifo.step maxQueueSize (fifo tr) .poll :=
  fifo_append tr s _

theorem fifo_append_other (ha : ∀ p t, a ≠ .enqueue p t) (ha' : a ≠ .processLoop) :
    fifo (tr ++ [(s, a)]) = fifo tr := by
  rw [fifo_append]
  cases a <;> first | rfl | exact absurd rfl (ha _ _) | exact absurd rfl ha'

theorem queue_step (hq : s.queue = (fifo tr).queue) (h : exec a w s = some (s', k)) :
    s'.queue = (fifo (tr ++ [(s, a)])).queue := by
  by_cases hloop : a = .processLoop
  · subst hloop
    rw [fifo_append]
    rcases exec_processLoop h with ⟨p, q, hpq, rfl, -⟩ | ⟨hnil, -, rfl, -⟩
    · rw [BoundedFifo.step_poll_cons (hq ▸ hpq)]
    · rw [BoundedFifo.step_poll_nil (hq ▸ hnil)]
      exact hq
  · by_cases henq : ∃ p t, a = .enqueue p t
    · obtain ⟨p, t, rfl⟩ := henq
      rw [fifo_enqueue]
      rcases exec_enqueue h with ⟨hfull, rfl, -⟩ | ⟨hlt, rfl, -⟩
      · rw [BoundedFifo.step_offer_of_full (hq ▸ hfull)]
        exact hq
      · rw [BoundedFifo.step_offer_of_lt (hq ▸ hlt)]
        simp only [hq]
    · have hne : ∀ p t, a ≠ .enqueue p t := fun p t ha => henq ⟨p, t, ha⟩
      rw [fifo_append_other hne hloop, (exec_frame h).queue hne hloop, hq]

/-! ## Rounds -/

/-- The effect an action has. -/
def effect (a : Action) : List Action := [a].filter isEffect

/-- What a trace records as published. -/
def published (tr : List (Runtime × Action)) : List (Source × Message) :=
  tr.filterMap fun x =>
    match x.2 with
    | .publish src msg => some (src, msg)
    | _ => none

theorem begun_of_not_ofRound (ha : ¬ OfRound a) : begun a = [] := by
  cases a <;> first | rfl | exact absurd trivial ha

theorem isEffect_of_ofRound (ha : OfRound a) (hp : ∀ p, a ≠ .processPacket p) :
    isEffect a = true := by
  cases a <;> first | rfl | exact ha.elim | exact absurd rfl (hp _) | skip
  rename_i src msg
  cases src <;> first | rfl | exact ha.elim

theorem isEffect_of_not_ofRound (ha : ¬ OfRound a) : isEffect a = false := by
  cases a <;> first | rfl | exact absurd trivial ha | skip
  rename_i src msg
  cases src <;> first | rfl | exact absurd trivial ha

theorem effect_of_not_ofRound (ha : ¬ OfRound a) : effect a = [] := by
  simp [effect, isEffect_of_not_ofRound ha]

theorem flatMap_effect (t : List Action) : t.flatMap effect = t.filter isEffect := by
  induction t with
  | nil => rfl
  | cons a t ih => rw [List.flatMap_cons, ih, effect, ← List.filter_append]; rfl

theorem effects_append (tr : List (Runtime × Action)) (s : Runtime) (a : Action) :
    effects (tr ++ [(s, a)]) = effects tr ++ effect a := by
  simp [effects, effect]

theorem published_append (tr : List (Runtime × Action)) (s : Runtime) (a : Action) :
    published (tr ++ [(s, a)]) = published tr ++ published [(s, a)] := by
  rw [published, List.filterMap_append]
  rfl

theorem filter_isBegin_append (tr : List (Runtime × Action)) (s : Runtime) (a : Action) :
    (tr ++ [(s, a)]).filter (fun x => isBegin x.2) =
      tr.filter (fun x => isBegin x.2) ++ (begun a).map fun p => (s, .processPacket p) := by
  rw [List.filter_append]
  congr 1
  cases a <;> rfl

/-- What the worker leaves when it begins a packet are effects. -/
theorem filter_processPacket {p : Packet} (h : exec (.processPacket p) w s = some (s', k)) :
    k.filter isEffect = k := by
  rw [List.filter_eq_self]
  intro b hb
  have hlb := exec_leaves h b hb
  cases b <;> first | rfl | exact hlb.elim | skip
  rename_i src msg
  cases src <;> first | rfl | exact hlb.elim

/-- The trace of the worker is a list of rounds, the last one perhaps under way. -/
structure InRounds (tr : List (Runtime × Action)) (c : Config Runtime Action) (rounds : List Round) :
    Prop where
  one : OneWorker c
  queue : c.shared.queue = (fifo tr).queue
  log : c.shared.log = published tr
  effects : effects tr ++ pending effect c = rounds.flatMap Round.effects
  last : pending effect c = [] ∨ ∃ r ∈ rounds.getLast?, pending effect c <:+ r.effects
  begins : rounds.map (fun r => (r.state, Action.processPacket r.packet)) =
    tr.filter (fun x => isBegin x.2)
  packets : rounds.map Round.packet ++ pending begun c = (fifo tr).polled
  exec : ∀ r ∈ rounds, ∃ w s', exec (.processPacket r.packet) w r.state = some (s', r.effects)

theorem log_step (hlog : s.log = published tr) (h : exec a w s = some (s', k)) :
    s'.log = published (tr ++ [(s, a)]) := by
  rw [published_append]
  by_cases hpub : ∃ src msg, a = .publish src msg
  · obtain ⟨src, msg, rfl⟩ := hpub
    rw [(exec_publish h).1, ← hlog]
    rfl
  · rw [(exec_frame h).log fun src msg ha => hpub ⟨src, msg, ha⟩, hlog]
    cases a <;> first | exact (List.append_nil _).symm | exact absurd ⟨_, _, rfl⟩ hpub

theorem InRounds.step {rounds : List Round} (hc : InRounds tr c rounds) (h : Step program c a d) :
    ∃ rounds', InRounds (tr ++ [(c.shared, a)]) d rounds' := by
  have hone := hc.one.step h
  obtain ⟨w, k, he, hr⟩ := step_spec h
  have hqueue := queue_step hc.queue he
  have hlog := log_step hc.log he
  by_cases hround : OfRound a
  · obtain ⟨r₁, hc₁, hd₁, hr₁⟩ :=
      pending_of_round (f := effect) (fun _ => effect_of_not_ofRound) hc.one hr (Or.inl hround)
    obtain ⟨r₂, hc₂, hd₂, hr₂⟩ :=
      pending_of_round (f := begun) (fun _ => begun_of_not_ofRound) hc.one hr (Or.inl hround)
    have hfifo : fifo (tr ++ [(c.shared, a)]) = fifo tr :=
      fifo_append_other (by rintro p t rfl; exact hround) (by rintro rfl; exact hround)
    by_cases hbegin : ∃ p, a = .processPacket p
    · -- a new round
      obtain ⟨p, rfl⟩ := hbegin
      rw [hr₁ (Or.inl ⟨p, rfl⟩), List.append_nil] at hc₁ hd₁
      rw [hr₂ (Or.inl ⟨p, rfl⟩), List.append_nil] at hc₂ hd₂
      rw [flatMap_effect, filter_processPacket he] at hd₁
      have hk : k.flatMap begun = [] := by
        rw [List.flatMap_eq_nil_iff]
        intro b hb
        have hlb := exec_leaves he b hb
        cases b <;> first | rfl | exact hlb.elim
      refine ⟨rounds ++ [⟨c.shared, p, k⟩], hone, hqueue, hlog, ?_, ?_, ?_, ?_, ?_⟩
      · have heffects := hc.effects
        rw [hc₁] at heffects
        rw [effects_append, hd₁, List.flatMap_append, ← heffects]
        simp [effect, isEffect]
      · rw [hd₁]
        exact Or.inr ⟨⟨c.shared, p, k⟩, by simp, List.suffix_refl _⟩
      · rw [List.map_append, hc.begins, filter_isBegin_append]
        rfl
      · have hpackets := hc.packets
        rw [hc₂] at hpackets
        rw [hd₂, hk, hfifo, ← hpackets]
        simp [begun]
      · intro r hmem
        rcases List.mem_append.1 hmem with hmem | hmem
        · exact hc.exec r hmem
        · rw [List.mem_singleton.1 hmem]
          exact ⟨w, d.shared, he⟩
    · -- the next effect of the round
      have hne : ∀ p, a ≠ .processPacket p := fun p ha => hbegin ⟨p, ha⟩
      have heffect : effect a = [a] := by simp [effect, isEffect_of_ofRound hround hne]
      have hk : ∀ b ∈ k, ¬ OfRound b := by
        intro b hb hbr
        have hlb := exec_leaves he b hb
        cases a <;> first | exact hround.elim | exact hne _ rfl | skip
        · cases b <;> first | exact hlb.elim | exact hbr.elim
        · cases b <;> exact hlb.elim
      rw [flatMap_eq_nil (fun _ => effect_of_not_ofRound) hk, List.nil_append] at hd₁
      rw [flatMap_eq_nil (fun _ => begun_of_not_ofRound) hk, List.nil_append] at hd₂
      have hbegun : begun a = [] := by
        cases a <;> first | rfl | exact absurd rfl (hne _)
      refine ⟨rounds, hone, hqueue, hlog, ?_, ?_, ?_, ?_, hc.exec⟩
      · rw [effects_append, List.append_assoc, hd₁, ← hc₁]
        exact hc.effects
      · rw [hd₁]
        rcases hc.last with hnil | ⟨r, hr, hsuffix⟩
        · rw [hc₁, heffect] at hnil
          cases hnil
        · rw [hc₁] at hsuffix
          exact Or.inr ⟨r, hr, (List.suffix_append _ _).trans hsuffix⟩
      · rw [filter_isBegin_append, hbegun, ← hc.begins]
        simp
      · rw [hd₂, hfifo, ← hc.packets, hc₂, hbegun]
        rfl
  · by_cases hloop : a = .processLoop
    · -- the worker takes a packet, or exits
      subst hloop
      obtain ⟨r₁, hc₁, hd₁, hr₁⟩ :=
        pending_of_round (f := effect) (fun _ => effect_of_not_ofRound) hc.one hr (Or.inr rfl)
      obtain ⟨r₂, hc₂, hd₂, hr₂⟩ :=
        pending_of_round (f := begun) (fun _ => begun_of_not_ofRound) hc.one hr (Or.inr rfl)
      rw [hr₁ (Or.inr rfl), List.append_nil] at hc₁ hd₁
      rw [hr₂ (Or.inr rfl), List.append_nil] at hc₂ hd₂
      have hnil : pending effect c = [] := hc₁
      have hpackets := hc.packets
      rw [show pending begun c = [] from hc₂, List.append_nil] at hpackets
      have hnil' : pending effect d = [] := by
        rw [hd₁]
        refine List.flatMap_eq_nil_iff.2 fun b hb => ?_
        have hlb := exec_leaves he b hb
        cases b <;> first | rfl | exact hlb.elim
      refine ⟨rounds, hone, hqueue, hlog, ?_, Or.inl hnil', ?_, ?_, hc.exec⟩
      · rw [effects_append, hnil', ← hc.effects, hnil]
        simp [effect, isEffect]
      · rw [filter_isBegin_append, ← hc.begins]
        simp [begun]
      · rw [hd₂, hpackets, fifo_processLoop]
        have hq := hc.queue
        rcases exec_processLoop he with ⟨p, q, hpq, -, rfl⟩ | ⟨hempty, -, -, rfl⟩
        · rw [BoundedFifo.step_poll_cons (hq ▸ hpq)]
          rfl
        · rw [BoundedFifo.step_poll_nil (hq ▸ hempty)]
          simp
    · have h₁ := pending_of_other (f := effect) (fun _ => effect_of_not_ofRound) he hr hround hloop
      have h₂ :=
        pending_of_other (f := begun) (fun _ => begun_of_not_ofRound) he hr hround hloop
      refine ⟨rounds, hone, hqueue, hlog, ?_, ?_, ?_, ?_, hc.exec⟩
      · rw [effects_append, effect_of_not_ofRound hround, List.append_nil, h₁]
        exact hc.effects
      · rw [h₁]
        exact hc.last
      · rw [filter_isBegin_append, begun_of_not_ofRound hround, ← hc.begins]
        simp
      · rw [h₂, hc.packets]
        by_cases henq : ∃ p t, a = .enqueue p t
        · obtain ⟨p, t, rfl⟩ := henq
          rw [fifo_enqueue]
          by_cases hlt : (fifo tr).queue.length < maxQueueSize
          · rw [BoundedFifo.step_offer_of_lt hlt]
          · rw [BoundedFifo.step_offer_of_full (Nat.not_lt.1 hlt)]
        · rw [fifo_append_other (fun p t ha => henq ⟨p, t, ha⟩) hloop]

theorem inRounds_of_trace {callers : List (List Action)}
    (hcallers : ∀ t ∈ callers, ∀ a ∈ t, IsEntry a) (hs : s.exited = false) (hqueue : s.queue = [])
    (hlog : s.log = []) (h : Trace program (start s callers) tr c) :
    ∃ rounds, InRounds tr c rounds := by
  refine h.invariant (I := fun tr c => ∃ rounds, InRounds tr c rounds) ?_
    fun tr c a d ⟨rounds, hc⟩ hstep => hc.step hstep
  have hpending : ∀ {β : Type} (f : Action → List β), (∀ a, ¬ OfRound a → f a = []) →
      pending f (start s callers) = [] := by
    intro β f hf
    rw [pending, List.flatMap_eq_nil_iff]
    intro t ht
    refine flatMap_eq_nil hf fun b hb => ?_
    rcases List.mem_cons.1 ht with rfl | ht
    · rw [List.mem_singleton.1 hb]
      exact id
    · exact (not_ofRound_of_isEntry (hcallers t ht b hb)).1
  have heffect := hpending effect fun _ => effect_of_not_ofRound
  have hbegun := hpending begun fun _ => begun_of_not_ofRound
  refine ⟨[], oneWorker_start hs hcallers, hqueue, hlog, ?_, Or.inl heffect, rfl, ?_, by simp⟩
  · rw [heffect]
    rfl
  · rw [hbegun]
    rfl

end Runtime

end EdgeNetSwitch
