import EdgeNetSwitch.Daemon.EpollThread
import EdgeNetSwitch.Control.Proofs.ControlServerProofs
import EdgeNetSwitch.Network.Proofs.UdpIngressProofs
import EdgeNetSwitch.Threads.Proofs.ProgramProofs

/-!
# Proofs: the epoll thread

What a step of the thread does is said once, in `Next`. The loop, the control server and the UDP receiver go
through the runs that they have alone, so that what they keep there is kept on the thread.
-/

namespace EdgeNetSwitch

open Control UdpReceiver Runs

namespace EpollThread

variable {p : Platform} {ctx : ControlContext} {read : Read} {ready events : List Handler}
  {s t : EpollThread} {l : EpollLabel} {labels : List EpollLabel}

/-- What the next step of the thread does. -/
inductive Next (p : Platform) (ready : List Handler) (ctx : ControlContext) (read : Read) (s : EpollThread) :
    EpollThread → Prop where
  | goOn (hplace : s.place = .testing) (hrunning : s.loop.running = true) :
      Next p ready ctx read s { s with place := .waiting }
  | leave (hplace : s.place = .testing) (hrunning : s.loop.running = false) :
      Next p ready ctx read s { s with place := .returned }
  | wake (hplace : s.place = .waiting) (hready : s.Ready ready) :
      Next p ready ctx read s { s with place := .dispatching ready }
  | round (hplace : s.place = .dispatching []) : Next p ready ctx read s { s with place := .testing }
  | shutdown {events : List Handler} (hplace : s.place = .dispatching (.shutdownWakeup :: events)) :
      Next p ready ctx read s
        { s with loop := { s.loop with shutdown_event := 0 }, place := .dispatching events }
  | udp {events : List Handler} (hplace : s.place = .dispatching (.udpReady :: events)) :
      Next p ready ctx read s { s with place := .receiving maxPacketsPerWakeup events }
  | control {events : List Handler} (hplace : s.place = .dispatching (.controlReady :: events)) :
      Next p ready ctx read s
        { s with control := { s.control with phase := .accepting }, place := .serving events }
  | spent {events : List Handler} (hplace : s.place = .receiving 0 events) :
      Next p ready ctx read s { s with place := .dispatching events }
  | read {left : ℕ} {events : List Handler} {place : Place} (hplace : s.place = .receiving (left + 1) events)
      (hnext : place = .receiving left events ∨ place = .dispatching events) :
      Next p ready ctx read s { s with ingress := (s.ingress.read read).2, place }
  | serve {events : List Handler} (hplace : s.place = .serving events)
      (hphase : (s.control.serve p ctx).phase ≠ .waiting) :
      Next p ready ctx read s { s with control := s.control.serve p ctx, place := .serving events }
  | drained {events : List Handler} (hplace : s.place = .serving events)
      (hphase : (s.control.serve p ctx).phase = .waiting) :
      Next p ready ctx read s { s with control := s.control.serve p ctx, place := .dispatching events }

theorem next_cases (h : s.next p ready ctx read = some t) : Next p ready ctx read s t := by
  unfold next at h
  split at h
  case h_1 hplace =>
    obtain rfl := Option.some.inj h
    cases hrunning : s.loop.running
    · exact .leave hplace hrunning
    · exact .goOn hplace hrunning
  case h_2 hplace =>
    split_ifs at h with hready
    obtain rfl := Option.some.inj h
    exact .wake hplace hready
  case h_8 hplace =>
    split at h
    rename_i result ingress hread
    have hingress : ingress = (s.ingress.read read).2 := by rw [hread]
    subst hingress
    split at h
    all_goals obtain rfl := Option.some.inj h
    · exact .read hplace (Or.inl rfl)
    all_goals exact .read hplace (Or.inr rfl)
  case h_9 hplace =>
    dsimp only at h
    split at h
    · obtain rfl := Option.some.inj h
      exact .drained hplace ‹_›
    · obtain rfl := Option.some.inj h
      exact .serve hplace ‹_›
  case h_10 => exact absurd h nofun
  all_goals obtain rfl := Option.some.inj h
  · exact .round ‹_›
  · exact .shutdown ‹_›
  · exact .udp ‹_›
  · exact .control ‹_›
  · exact .spent ‹_›

/-- A step is one of the thread, or something from outside. -/
theorem step_cases (h : s.step p l = some t) :
    (∃ ready ctx read, l = .epoll ready ctx read ∧ s.control.alive = true ∧ Next p ready ctx read s t) ∨
    (∃ l' control, l = .client l' ∧ l'.IsServer = false ∧ s.control.step p l' = some control ∧
      t = { s with control }) ∨
    (∃ d, l = .datagram d ∧ t = { s with ingress := { s.ingress with pending := s.ingress.pending ++ [d] } }) ∨
    (l = .exchange ∧ t = { s with loop := { s.loop with running := false } }) ∨
    l = .notify ∧ t = { s with
      loop := { s.loop with shutdown_event := EpollEventLoop.notified s.loop.shutdown_event } } := by
  cases l with
  | epoll ready ctx read =>
    simp only [step] at h
    split_ifs at h with halive
    exact Or.inl ⟨ready, ctx, read, rfl, halive, next_cases h⟩
  | client l' =>
    simp only [step] at h
    split_ifs at h with hserver
    obtain ⟨control, hcontrol, rfl⟩ := Option.map_eq_some_iff.1 h
    exact Or.inr (Or.inl ⟨l', control, rfl, by simpa using hserver, hcontrol, rfl⟩)
  | datagram d => exact Or.inr (Or.inr (Or.inl ⟨d, rfl, (Option.some.inj h).symm⟩))
  | exchange => exact Or.inr (Or.inr (Or.inr (Or.inl ⟨rfl, (Option.some.inj h).symm⟩)))
  | notify => exact Or.inr (Or.inr (Or.inr (Or.inr ⟨rfl, (Option.some.inj h).symm⟩)))

/-! ## The handlers take turns -/

/-- The control server waits unless its handler has been called, no event is handled twice in a round, and a
client that made the control socket ready is still there. -/
def Consistent (s : EpollThread) : Prop :=
  match s.place with
  | .dispatching events => s.control.phase = .waiting ∧ events.Nodup ∧
      (.controlReady ∈ events → s.control.backlog ≠ [])
  | .receiving left events => s.control.phase = .waiting ∧ (.udpReady :: events).Nodup ∧
      (.controlReady ∈ events → s.control.backlog ≠ []) ∧ left ≤ maxPacketsPerWakeup
  | .serving events => s.control.phase ≠ .waiting ∧ (.controlReady :: events).Nodup
  | .testing | .waiting | .returned => s.control.phase = .waiting

theorem consistent_initial : Consistent {} := rfl

/-- The call of the handler wakes the control server. -/
theorem serve_waiting (p : Platform) (ctx : ControlContext) {c : ControlState} (hphase : c.phase = .waiting)
    (hbacklog : c.backlog ≠ []) : c.serve p ctx = { c with phase := .accepting } := by
  rw [ControlState.serve, hphase]
  exact if_neg hbacklog

/-- Clients and the socket do not touch the control server. -/
theorem outside {c d : ControlState} {l' : ControlLabel} (h : c.step p l' = some d) (hl : l'.IsServer = false) :
    d.phase = c.phase ∧ (c.backlog ≠ [] → d.backlog ≠ []) ∧ d.alive = c.alive := by
  rcases Control.step_cases h with ⟨ctx, rfl, -⟩ | ⟨request, -, rfl⟩ | ⟨-, i, f, -, rfl⟩
  · exact absurd hl nofun
  · exact ⟨rfl, fun _ => by simp, rfl⟩
  · exact ⟨rfl, id, rfl⟩

theorem Next.consistent (h : Next p ready ctx read s t) (hs : Consistent s) : Consistent t := by
  unfold Consistent at hs
  cases h with
  | goOn hplace | leave hplace =>
    rw [hplace] at hs
    exact hs
  | wake hplace hready =>
    rw [hplace] at hs
    exact ⟨hs, hready.1, hready.2.1.1⟩
  | round hplace =>
    rw [hplace] at hs
    exact hs.1
  | shutdown hplace =>
    rw [hplace] at hs
    exact ⟨hs.1, hs.2.1.of_cons, fun hmem => hs.2.2 (List.mem_cons_of_mem _ hmem)⟩
  | udp hplace =>
    rw [hplace] at hs
    exact ⟨hs.1, hs.2.1, fun hmem => hs.2.2 (List.mem_cons_of_mem _ hmem), Nat.le_refl _⟩
  | control hplace =>
    rw [hplace] at hs
    exact ⟨nofun, hs.2.1⟩
  | spent hplace =>
    rw [hplace] at hs
    exact ⟨hs.1, hs.2.1.of_cons, hs.2.2.1⟩
  | read hplace hnext =>
    rw [hplace] at hs
    rcases hnext with rfl | rfl
    · exact ⟨hs.1, hs.2.1, hs.2.2.1, Nat.le_of_succ_le hs.2.2.2⟩
    · exact ⟨hs.1, hs.2.1.of_cons, hs.2.2.1⟩
  | serve hplace hphase =>
    rw [hplace] at hs
    exact ⟨hphase, hs.2⟩
  | drained hplace hphase =>
    rw [hplace] at hs
    exact ⟨hphase, hs.2.of_cons, fun hmem => absurd hmem (List.nodup_cons.1 hs.2).1⟩

theorem Consistent.step (h : s.step p l = some t) (hs : Consistent s) : Consistent t := by
  rcases step_cases h with ⟨ready, ctx, read, -, -, hnext⟩ | ⟨l', control, -, hl, hcontrol, rfl⟩ |
    ⟨d, -, rfl⟩ | ⟨-, rfl⟩ | ⟨-, rfl⟩
  · exact hnext.consistent hs
  · obtain ⟨hphase, hbacklog, -⟩ := outside hcontrol hl
    unfold Consistent at hs ⊢
    dsimp only
    split at hs
    · rw [hphase]
      exact ⟨hs.1, hs.2.1, fun hmem => hbacklog (hs.2.2 hmem)⟩
    · rw [hphase]
      exact ⟨hs.1, hs.2.1, fun hmem => hbacklog (hs.2.2.1 hmem), hs.2.2.2⟩
    all_goals
      rw [hphase]
      exact hs
  · exact hs
  · exact hs
  · exact hs

/-- To the control server, a step of the thread is the call that its label stands for, or nothing. -/
theorem control_step (h : s.step p l = some t) (hs : Consistent s) :
    l.control? s = none ∧ t.control = s.control ∨
      ∃ l', l.control? s = some l' ∧ l'.IsServer = l.IsEpoll ∧ s.control.step p l' = some t.control := by
  rcases step_cases h with ⟨ready, ctx, read, rfl, halive, hnext⟩ | ⟨l', control, rfl, hl, hcontrol, rfl⟩ |
    ⟨d, rfl, rfl⟩ | ⟨rfl, rfl⟩ | ⟨rfl, rfl⟩
  · have hcall : ∀ control, s.control.serve p ctx = control →
        s.control.step p (.server ctx) = some control := by
      intro control hserve
      rw [ControlState.step, if_pos halive, hserve]
    unfold Consistent at hs
    cases hnext with
    | control hplace =>
      rw [hplace] at hs
      have hserve := serve_waiting p ctx hs.1 (hs.2.2 List.mem_cons_self)
      exact Or.inr ⟨.server ctx, by rw [EpollLabel.control?, call?, hplace], rfl, hcall _ hserve⟩
    | serve hplace | drained hplace =>
      exact Or.inr ⟨.server ctx, by rw [EpollLabel.control?, call?, hplace], rfl, hcall _ rfl⟩
    | goOn hplace | leave hplace | wake hplace | round hplace | shutdown hplace | udp hplace | spent hplace
    | read hplace =>
      exact Or.inl ⟨by rw [EpollLabel.control?, call?, hplace], rfl⟩
  · exact Or.inr ⟨l', rfl, hl, hcontrol⟩
  · exact Or.inl ⟨rfl, rfl⟩
  · exact Or.inl ⟨rfl, rfl⟩
  · exact Or.inl ⟨rfl, rfl⟩

/-- What the call of the control server keeps is kept by the step of the thread. -/
theorem keepsControl_step {I : ControlState → Prop} (h : s.step p l = some t) (hs : Consistent s)
    (hI : I s.control)
    (hcall : ∀ l', l.control? s = some l' → s.control.step p l' = some t.control → I t.control) : I t.control := by
  rcases control_step h hs with ⟨-, hsame⟩ | ⟨l', hl', -, hcontrol⟩
  · rw [hsame]
    exact hI
  · exact hcall l' hl' hcontrol

/-- What every step of the control server keeps is kept on the thread. -/
theorem Run.keepsControl {φ : ControlState → ControlLabel → Prop} {I : ControlState → Prop}
    (hstep : ∀ {c d : ControlState} {l' : ControlLabel}, I c → φ c l' → c.step p l' = some d → I d)
    (h : Run (step p) (OnControl φ) s labels t) (hs : Consistent s) (hI : I s.control) :
    Consistent t ∧ I t.control := by
  apply h.keeps (I := fun s => Consistent s ∧ I s.control)
  · intro s t l hs hφ h
    refine ⟨hs.1.step h, keepsControl_step h hs.1 hs.2 ?_⟩
    intro l' hl' hcontrol
    exact hstep hs.2 (hφ l' hl') hcontrol
  · exact ⟨hs, hI⟩

/-! ## Each handler alone -/

/-- The thread goes through the loop as `run()` does without handlers. -/
theorem Next.loop (fd : Handler → ℕ) (h : Next p ready ctx read s t) :
    Threads.Alone EpollEventLoop.program (loopActions fd s.place) s.loop (loopActions fd t.place) t.loop := by
  have hexec : ∀ {a} w {k} {loop : EpollEventLoop.LoopState}, EpollEventLoop.exec a w s.loop = some (loop, k) →
      Threads.Alone EpollEventLoop.program [a] s.loop k loop := by
    intro a w k loop hexec
    apply Threads.Alone.move w hexec
    rw [List.append_nil]
    exact Threads.Alone.refl k loop
  cases h with
  | goOn hplace hrunning =>
    rw [hplace]
    have htest : EpollEventLoop.exec .test [] s.loop = some (s.loop, [.wait]) := by
      rw [EpollEventLoop.exec, if_pos hrunning]
    have hwait : EpollEventLoop.exec .wait [] s.loop = some (s.loop, [.blocked]) := rfl
    exact (hexec _ htest).trans (hexec _ hwait)
  | leave hplace hrunning =>
    rw [hplace]
    have htest : EpollEventLoop.exec .test [] s.loop = some (s.loop, []) := by
      rw [EpollEventLoop.exec, if_neg (by simp [hrunning])]
    exact hexec _ htest
  | wake hplace hready =>
    rw [hplace]
    have hblocked : EpollEventLoop.exec .blocked (ready.map (source fd)) s.loop =
        some (s.loop, [.dispatch (ready.map (source fd))]) := by
      rw [EpollEventLoop.exec, if_neg]
      rintro ⟨hmem, hzero⟩
      obtain ⟨handler, hhandler, hsource⟩ := List.mem_map.1 hmem
      have hwakeup : handler = .shutdownWakeup := by
        cases handler with
        | shutdownWakeup => rfl
        | udpReady | controlReady => exact absurd hsource nofun
      exact hready.2.2.1.1 (hwakeup ▸ hhandler) hzero
    exact hexec _ hblocked
  | round hplace | shutdown hplace | spent hplace | drained hplace =>
    rw [hplace]
    exact hexec [] rfl
  | udp hplace | control hplace | serve hplace =>
    rw [hplace]
    exact .refl _ _
  | read hplace hnext =>
    rw [hplace]
    rcases hnext with rfl | rfl
    · exact .refl _ _
    · exact hexec [] rfl

variable {queue delivered : List Datagram}

theorem Next.served (h : Next p ready ctx read s t) (hs : Served queue s.ingress delivered)
    (hsize : ∀ d ∈ queue, d.data.length ≤ bufferSize) : ∃ delivered', Served queue t.ingress delivered' := by
  cases h with
  | read => exact hs.read hsize _
  | _ => exact ⟨delivered, hs⟩

/-- The datagrams that arrive are behind those that are pending. -/
theorem ingress_step (h : s.step p l = some t) (hs : Served queue s.ingress delivered)
    (hsize : ∀ d ∈ queue ++ l.datagram?.toList, d.data.length ≤ bufferSize) :
    ∃ delivered', Served (queue ++ l.datagram?.toList) t.ingress delivered' := by
  rcases step_cases h with ⟨ready, ctx, read, rfl, -, hnext⟩ | ⟨l', control, rfl, -, -, rfl⟩ |
    ⟨d, rfl, rfl⟩ | ⟨rfl, rfl⟩ | ⟨rfl, rfl⟩
  · simp only [EpollLabel.datagram?, Option.toList_none, List.append_nil] at hsize ⊢
    exact hnext.served hs hsize
  · exact ⟨delivered, by simpa [EpollLabel.datagram?] using hs⟩
  · refine ⟨delivered, ?_, hs.counter_eq, hs.outcomes_eq⟩
    rw [hs.queue_eq, List.append_assoc]
    rfl
  · exact ⟨delivered, by simpa [EpollLabel.datagram?] using hs⟩
  · exact ⟨delivered, by simpa [EpollLabel.datagram?] using hs⟩

theorem Run.served {φ : EpollThread → EpollLabel → Prop} (h : Run (step p) φ s labels t)
    (hs : Served queue s.ingress delivered)
    (hsize : ∀ d ∈ queue ++ labels.filterMap EpollLabel.datagram?, d.data.length ≤ bufferSize) :
    ∃ delivered', Served (queue ++ labels.filterMap EpollLabel.datagram?) t.ingress delivered' := by
  induction h generalizing queue delivered with
  | nil s => exact ⟨delivered, by simpa using hs⟩
  | @cons s t u l labels _ hstep _ ih =>
    have hsplit : queue ++ (l :: labels).filterMap EpollLabel.datagram? =
        queue ++ l.datagram?.toList ++ labels.filterMap EpollLabel.datagram? := by
      cases hl : l.datagram? <;> simp [hl]
    rw [hsplit] at hsize ⊢
    obtain ⟨delivered', hs'⟩ := ingress_step hstep hs fun d hd => hsize d (List.mem_append_left _ hd)
    exact ih hs' hsize

/-- The context of a call in the control server is that of the step. -/
theorem context_of_control? {l' : ControlLabel} (h : l' ∈ l.control? s) {ctx : ControlContext}
    (hctx : ctx ∈ l'.context?) : ctx ∈ l.context? := by
  cases l with
  | client l =>
    obtain rfl := Option.some.inj h
    exact hctx
  | epoll ready ctx' read =>
    have hcall : s.call? ctx' = some l' := h
    unfold call? at hcall
    split at hcall
    · obtain rfl := Option.some.inj hcall
      exact hctx
    · obtain rfl := Option.some.inj hcall
      exact hctx
    · cases hcall
  | datagram | exchange | notify => cases h

/-- Whatever order clients, datagrams and `stop()` come in, the clients that wait get the answers to the requests
that they have sent, and the datagrams their messages in the order of arrival. -/
theorem handlers_take_turns (h : Run (step p) (OnControl ReadsWhole) {} labels s)
    (hsize : ∀ d ∈ labels.filterMap EpollLabel.datagram?, d.data.length ≤ bufferSize) :
    AnswersAsSent p (labels.filterMap EpollLabel.context?) s.control ∧
      TakesInOrder (labels.filterMap EpollLabel.datagram?) s := by
  constructor
  · have hlabels : Run (step p) (OnControl fun c l' => ReadsWhole c l' ∧
        ∀ ctx ∈ l'.context?, ctx ∈ labels.filterMap EpollLabel.context?) {} labels s := by
      apply h.with_mem.mono
      intro s l ⟨hwhole, hmem⟩ l' hl'
      exact ⟨hwhole l' hl', fun ctx hctx => List.mem_filterMap.2 ⟨l, hmem, context_of_control? hl' hctx⟩⟩
    obtain ⟨-, hkept⟩ := Run.keepsControl (fun hc hφ hstep => Answering.step hstep hc hφ.1 hφ.2) hlabels
      consistent_initial answering_initial
    exact hkept.asSent
  · have hstart : Served [] (EpollThread.ingress {}) [] := ⟨rfl, rfl, rfl⟩
    obtain ⟨delivered, hserved⟩ := Run.served h hstart (by simpa using hsize)
    exact ⟨delivered, by simpa using hserved.queue_eq, hserved.outcomes_eq⟩

/-- A client and a datagram, that one round of the loop handles. -/
theorem handlers_take_turns_round :
    let d : Datagram := ⟨[], (10, 0, 0, 1), 9000⟩
    ∃ s, play (step printing) (OnControl ReadsWhole)
        (.client (.connect (bytesOf "1.2|version\n")) :: .client (.write 0 12) :: .client (.arrive 0 12) ::
          .datagram d :: List.replicate 12 (.epoll [.udpReady, .controlReady] {} {})) {} = some s ∧
      s.control.served = [0] ∧ s.ingress.pending = [] ∧ AnswersAsSent printing (List.replicate 12 {}) s.control ∧
      TakesInOrder [d] s := by
  intro d
  have hplay : (play (step printing) (OnControl ReadsWhole)
      (.client (.connect (bytesOf "1.2|version\n")) :: .client (.write 0 12) :: .client (.arrive 0 12) ::
        .datagram d :: List.replicate 12 (.epoll [.udpReady, .controlReady] {} {})) {}).map
        (fun s => (s.control.served, s.ingress.pending)) = some ([0], []) := by decide
  obtain ⟨s, hs, hend⟩ := Option.map_eq_some_iff.1 hplay
  obtain ⟨hserved, hpending⟩ := Prod.mk.inj hend
  exact ⟨s, hs, hserved, hpending, handlers_take_turns (run_of_play hs) (by decide)⟩

end EpollThread

end EdgeNetSwitch
