import EdgeNetSwitch.Daemon.Proofs.EpollThreadProofs
import Mathlib.Algebra.Order.BigOperators.Group.List

/-!
# Proofs: how long the epoll thread takes

The events that a round of the loop may still handle bound how long a client waits for the control server, and
how long `stop()` waits for the thread. Clients that keep connecting hold up both the datagrams and `stop()`.
-/

namespace EdgeNetSwitch

open Control UdpReceiver Runs

namespace EpollThread

variable {p : Platform} {ctx : ControlContext} {read : Read} {ready events : List Handler}
  {s t : EpollThread} {l : EpollLabel}

/-! ## Datagrams do not starve clients -/

/-- The steps that the thread takes for an event at most, with `calls` for the control server. -/
def eventSteps (calls : ℕ) : Handler → ℕ
  | .shutdownWakeup => 1
  | .udpReady => maxPacketsPerWakeup + 2
  | .controlReady => calls

/-- No event comes twice in a round. -/
theorem sum_eventSteps_le (calls : ℕ) (h : events.Nodup) :
    (events.map (eventSteps calls)).sum ≤ 259 + calls := by
  have hsubset : events ⊆ [.shutdownWakeup, .udpReady, .controlReady] := by
    intro handler _
    cases handler <;> simp
  obtain ⟨sorted, hperm, hsub⟩ := h.subperm hsubset
  have hall : ([Handler.shutdownWakeup, .udpReady, .controlReady].map (eventSteps calls)).sum = 259 + calls := by
    simp only [List.map_cons, List.map_nil, List.sum_cons, List.sum_nil, eventSteps, maxPacketsPerWakeup]
    omega
  rw [← (hperm.map (eventSteps calls)).sum_eq, ← hall]
  exact (hsub.map (eventSteps calls)).sum_le_sum fun _ _ => Nat.zero_le _

/-- The steps left before the handler of the control server is called, once a client is waiting: those for the
other events of the round, and, if the round is without it, for the next one, up to it. -/
def stepsToControl : List Handler → ℕ
  | [] => 262
  | .controlReady :: _ => 0
  | handler :: events => eventSteps 0 handler + stepsToControl events

/-- The steps left until client `i` has been served. -/
def stepsUntil (i : ℕ) (s : EpollThread) : ℕ :=
  callsUntil i s.control + match s.place with
    | .testing => 261
    | .waiting => 260
    | .dispatching events => stepsToControl events
    | .receiving left events => left + 1 + stepsToControl events
    | .serving _ | .returned => 0

/-- As many steps as for all events of a round, or those and the steps up to the next round. -/
theorem stepsToControl_le (events : List Handler) : stepsToControl events ≤
    (events.map (eventSteps 0)).sum + if .controlReady ∈ events then 0 else 262 := by
  induction events with
  | nil => simp [stepsToControl]
  | cons handler events ih =>
    cases handler with
    | controlReady => exact Nat.zero_le _
    | shutdownWakeup | udpReady =>
      simp only [stepsToControl, List.map_cons, List.sum_cons, List.mem_cons, reduceCtorEq, false_or]
      omega

/-- The handler of the control server comes back when no client is waiting. -/
theorem drained_of_call {c d : ControlState} (h : Call p ctx c d) (hc : c.phase ≠ .waiting)
    (hd : d.phase = .waiting) : c.phase = .accepting ∧ c.backlog = [] ∧ d = { c with phase := .waiting } := by
  cases h with
  | leave hphase hbacklog => exact ⟨hphase, hbacklog, rfl⟩
  | idle | lost | kill => exact absurd hd hc
  | throw hphase => exact absurd (hphase.symm.trans hd) nofun
  | _ => exact absurd hd nofun

variable {i : ℕ}

/-- A step of the thread brings every client closer that has not been served. -/
theorem Next.closer (h : Next p ready ctx read s t) (hs : Consistent s) (hl : Ledger s.control)
    (hrunning : s.loop.running = true) (halive : t.control.alive = true)
    (hi : s.control.phase.client? = some i ∨ i ∈ s.control.backlog) :
    i ∈ t.control.served ∨ stepsUntil i t + 1 ≤ stepsUntil i s := by
  have hbacklog : s.control.phase = .waiting → s.control.backlog ≠ [] := by
    intro hphase
    rw [hphase] at hi
    exact List.ne_nil_of_mem (hi.resolve_left nofun)
  unfold Consistent at hs
  cases h with
  | goOn hplace | round hplace =>
    right
    simp only [stepsUntil, hplace, stepsToControl]
    omega
  | leave hplace hleft => exact absurd (hrunning.symm.trans hleft) nofun
  | wake hplace hready =>
    rw [hplace] at hs
    have hmem : .controlReady ∈ ready := hready.2.1.2 (hbacklog hs)
    have hsteps := stepsToControl_le ready
    have hsum := sum_eventSteps_le 0 hready.1
    rw [if_pos hmem] at hsteps
    right
    simp only [stepsUntil, hplace]
    omega
  | shutdown hplace | udp hplace =>
    right
    simp only [stepsUntil, hplace, stepsToControl, eventSteps]
    omega
  | control hplace =>
    rw [hplace] at hs
    have hcall := serve_call p ctx s.control
    rw [serve_waiting p ctx hs.1 (hs.2.2 List.mem_cons_self)] at hcall
    rcases hcall.closer hl halive hi with hserved | hcloser
    · exact Or.inl hserved
    · right
      simp only [stepsUntil, hplace, stepsToControl]
      exact hcloser
  | spent hplace =>
    right
    simp only [stepsUntil, hplace]
    omega
  | read hplace hnext =>
    right
    rcases hnext with rfl | rfl
    all_goals
      simp only [stepsUntil, hplace]
      omega
  | serve hplace =>
    rcases (serve_call p ctx s.control).closer hl halive hi with hserved | hcloser
    · exact Or.inl hserved
    · right
      simp only [stepsUntil, hplace]
      exact hcloser
  | drained hplace hphase =>
    rw [hplace] at hs
    obtain ⟨haccepting, hnil, -⟩ := drained_of_call (serve_call p ctx s.control) hs.1 hphase
    rw [haccepting, hnil] at hi
    exact absurd hi (by simp [Phase.client?])

theorem closer_step (h : s.step p l = some t) (hs : Consistent s) (hl : Ledger s.control)
    (hrunning : s.loop.running = true) (halive : t.control.alive = true)
    (hi : i < s.control.connections.length) :
    i ∈ t.control.served ∨ stepsUntil i t + (if l.IsEpoll then 1 else 0) ≤ stepsUntil i s := by
  rcases step_cases h with ⟨ready, ctx, read, rfl, -, hnext⟩ | ⟨l', control, rfl, hserver, hcontrol, rfl⟩ |
    ⟨d, rfl, rfl⟩ | ⟨rfl, rfl⟩ | ⟨rfl, rfl⟩
  · rcases hl.mem_iff.1 hi with hserved | hpending
    · left
      apply keepsControl_step (I := fun c => i ∈ c.served) h hs hserved
      intro l' _ hcontrol
      exact served_step hcontrol hserved
    · exact hnext.closer hs hl hrunning halive hpending
  · rcases Control.closer_step hcontrol hl halive hi with hserved | hcloser
    · exact Or.inl hserved
    · right
      rw [hserver] at hcloser
      exact Nat.add_le_add_right hcloser _
  all_goals exact Or.inr (Nat.le_refl _)

/-- The thread has at most two rounds of events before it, with the calls for the clients. -/
theorem stepsUntil_le (hs : Consistent s)
    (hi : s.control.phase.client? = some i ∨ i ∈ s.control.backlog) :
    stepsUntil i s ≤ 521 + 5 * (s.control.backlog.length + 1) := by
  have hcalls : callsUntil i s.control ≤ 5 * (s.control.backlog.length + 1) := callsUntil_le hi
  have hevents : ∀ events : List Handler, events.Nodup → stepsToControl events ≤ 521 := by
    intro events hnodup
    have hsteps := stepsToControl_le events
    have hsum := sum_eventSteps_le 0 hnodup
    split_ifs at hsteps
    all_goals omega
  unfold Consistent at hs
  unfold stepsUntil
  cases hplace : s.place with
  | dispatching events =>
    rw [hplace] at hs
    have hsteps := hevents events hs.2.1
    dsimp only
    omega
  | receiving left events =>
    rw [hplace] at hs
    have hsteps := hevents (.udpReady :: events) hs.2.1
    have hleft := hs.2.2.2
    simp only [stepsToControl, eventSteps] at hsteps
    dsimp only
    omega
  | _ =>
    dsimp only
    omega

theorem running_step (h : s.step p l = some t) (hl : l ≠ .exchange) : t.loop.running = s.loop.running := by
  rcases step_cases h with ⟨ready, ctx, read, -, -, hnext⟩ | ⟨l', control, -, -, -, rfl⟩ | ⟨d, -, rfl⟩ |
    ⟨rfl, -⟩ | ⟨-, rfl⟩
  · cases hnext <;> rfl
  · rfl
  · rfl
  · exact absurd rfl hl
  · rfl

/-- The thread is where it should be, and the daemon is alive. -/
structure Sound (s : EpollThread) : Prop where
  consistent : Consistent s
  ledger : Ledger s.control
  alive : s.control.alive = true

theorem sound_initial : Sound {} := ⟨consistent_initial, ledger_initial, rfl⟩

theorem Sound.step (hp : p.dump.Strict) (h : s.step p l = some t) (hspared : OnControl Spared s l)
    (hs : Sound s) : Sound t := by
  refine ⟨hs.consistent.step h, keepsControl_step h hs.consistent hs.ledger ?_, ?_⟩
  · intro l' _ hcontrol
    exact hs.ledger.step hcontrol
  · apply keepsControl_step (I := fun c => c.alive = true) h hs.consistent hs.alive
    intro l' hl' hcontrol
    exact alive_step hp hcontrol (hspared l' hl') hs.alive

/-- What is ready can always be told. -/
theorem exists_ready (s : EpollThread) : ∃ ready, s.Ready ready := by
  refine ⟨(if s.loop.shutdown_event ≠ 0 then [.shutdownWakeup] else []) ++ .udpReady ::
    if s.control.backlog ≠ [] then [.controlReady] else [], ?_⟩
  unfold Ready
  split_ifs with hshutdown hbacklog hbacklog
  all_goals simp [hshutdown, hbacklog]

theorem Sound.canGoOn (hs : Sound s) (hplace : s.place ≠ .returned) : CanGoOn p s := by
  intro ctx read
  obtain ⟨ready, hready⟩ := exists_ready s
  refine ⟨ready, ?_⟩
  rw [EpollThread.step, if_pos hs.alive]
  unfold next
  split
  case h_2 => simp [hready]
  case h_8 =>
    dsimp only
    split <;> rfl
  case h_9 =>
    dsimp only
    split <;> rfl
  case h_10 hreturned => exact absurd hreturned hplace
  all_goals rfl

/-- Nothing has told the thread to leave `run()`, and it has not. -/
structure Running (s : EpollThread) : Prop extends Sound s where
  running : s.loop.running = true
  inside : s.place ≠ .returned

theorem running_initial : Running {} := ⟨sound_initial, rfl, nofun⟩

theorem Running.step (hp : p.dump.Strict) (h : s.step p l = some t) (hφ : Unstopped s l) (hs : Running s) :
    Running t := by
  refine ⟨hs.toSound.step hp h hφ.1, (running_step h hφ.2).trans hs.running, ?_⟩
  rcases step_cases h with ⟨ready, ctx, read, -, -, hnext⟩ | ⟨l', control, -, -, -, rfl⟩ | ⟨d, -, rfl⟩ |
    ⟨-, rfl⟩ | ⟨-, rfl⟩
  · cases hnext with
    | leave hplace hleft => exact absurd (hs.running.symm.trans hleft) nofun
    | read hplace hnext =>
      rcases hnext with rfl | rfl
      · exact nofun
      · exact nofun
    | _ => exact nofun
  all_goals exact hs.inside

/-- However many datagrams come, the thread serves every client that has connected, as long as the control
server is spared and `stop()` is not called: after two rounds of the events that may be ready, and five calls
for each client that was waiting and for the one in service. -/
theorem flood_cannot_starve (hp : p.dump.Strict) (h : Run (step p) Unstopped {} labels s) :
    CanGoOn p s ∧ ∀ {later t}, Run (step p) Unstopped s later t →
      521 + 5 * (s.control.backlog.length + 1) ≤ later.countP EpollLabel.IsEpoll →
      ∀ i < s.control.connections.length, i ∈ t.control.served := by
  have hrunning : Running s := h.keeps (fun hs hφ hstep => hs.step hp hstep hφ) running_initial
  refine ⟨hrunning.toSound.canGoOn hrunning.inside, ?_⟩
  intro later t hlater hcount i hi
  let I : EpollThread → Prop := fun s => Running s ∧ i < s.control.connections.length
  let G : EpollThread → Prop := fun s => Consistent s ∧ i ∈ s.control.served
  have hkeep : ∀ {s t : EpollThread} {l : EpollLabel}, I s → Unstopped s l → s.step p l = some t → I t := by
    intro s t l hs hφ hstep
    refine ⟨hs.1.step hp hstep hφ, ?_⟩
    apply keepsControl_step (I := fun c => i < c.connections.length) hstep hs.1.consistent hs.2
    intro l' _ hcontrol
    exact Nat.lt_of_lt_of_le hs.2 (connections_step hcontrol)
  have hgoal : ∀ {s t : EpollThread} {l : EpollLabel}, G s → Unstopped s l → s.step p l = some t → G t := by
    intro s t l hs _ hstep
    refine ⟨hs.1.step hstep, ?_⟩
    apply keepsControl_step (I := fun c => i ∈ c.served) hstep hs.1 hs.2
    intro l' _ hcontrol
    exact served_step hcontrol hs.2
  have hpositive : ∀ {s : EpollThread}, I s → stepsUntil i s = 0 → G s := by
    intro s _ hzero
    have hcalls := callsUntil_pos i s.control
    unfold stepsUntil at hzero
    omega
  rcases hrunning.ledger.mem_iff.1 hi with hserved | hpending
  · exact (hlater.keeps (I := G) hgoal ⟨hrunning.consistent, hserved⟩).2
  · have hsteps : stepsUntil i s ≤ later.countP EpollLabel.IsEpoll :=
      (stepsUntil_le hrunning.consistent hpending).trans hcount
    have hthere : G t := by
      refine hlater.reaches hkeep hgoal hpositive ?_ ⟨hrunning, hi⟩ hsteps
      intro s t l hs hφ hstep
      have ht := hs.1.step hp hstep hφ
      exact (closer_step hstep hs.1.consistent hs.1.ledger hs.1.running ht.alive hs.2).imp_left
        fun hserved => ⟨ht.consistent, hserved⟩
    exact hthere.2

/-- A round of the loop in which nothing is ready changes nothing. -/
theorem idle_rounds (hplace : s.place = .testing) (hrunning : s.loop.running = true)
    (halive : s.control.alive = true) (hready : s.Ready []) (n : ℕ) :
    Run (step p) Unstopped s (List.replicate n (List.replicate 3 (.epoll [] {} {}))).flatten s := by
  induction n with
  | zero => exact .nil s
  | succ n ih =>
    obtain ⟨control, ingress, loop, place⟩ := s
    dsimp only at hplace
    subst hplace
    rw [List.replicate_succ, List.flatten_cons]
    refine Run.append ?_ ih
    have hfree : ∀ {s : EpollThread}, EpollLabel.control? s (.epoll [] {} {}) = none →
        Unstopped s (.epoll [] {} {}) := by
      intro s hnone
      exact ⟨fun l' hl' => absurd (hnone.symm.trans hl') nofun, nofun⟩
    have hstep : ∀ {place place' : Place}, next p [] {} {} ⟨control, ingress, loop, place⟩ =
        some ⟨control, ingress, loop, place'⟩ →
        step p (.epoll [] {} {}) ⟨control, ingress, loop, place⟩ = some ⟨control, ingress, loop, place'⟩ := by
      intro place place' hnext
      rw [step]
      exact (if_pos halive).trans hnext
    have htest : next p [] {} {} ⟨control, ingress, loop, .testing⟩ =
        some ⟨control, ingress, loop, .waiting⟩ := by
      dsimp only at hrunning
      simp [next, hrunning]
    have hwait : next p [] {} {} ⟨control, ingress, loop, .waiting⟩ =
        some ⟨control, ingress, loop, .dispatching []⟩ := if_pos hready
    have hround : next p [] {} {} ⟨control, ingress, loop, .dispatching []⟩ =
        some ⟨control, ingress, loop, .testing⟩ := rfl
    exact .cons (hfree rfl) (hstep htest) (.cons (hfree rfl) (hstep hwait)
      (.cons (hfree rfl) (hstep hround) (.nil _)))

/-- A client that connects, its request, and enough rounds of the loop. -/
theorem flood_cannot_starve_version : ∃ s later t,
    play (step printing) Unstopped [.client (.connect (bytesOf "1.2|version\n"))] {} = some s ∧
    Run (step printing) Unstopped s later t ∧ 531 ≤ later.countP EpollLabel.IsEpoll ∧
    0 ∈ t.control.served := by
  let s : EpollThread := {
    control := {
      connections := [{ request := bytesOf "1.2|version\n", unsent := bytesOf "1.2|version\n" }]
      backlog := [0] } }
  have hplay : play (step printing) Unstopped [.client (.connect (bytesOf "1.2|version\n"))] {} =
      some s := rfl
  let served : List EpollLabel := .client (.write 0 12) :: .client (.arrive 0 12) ::
    List.replicate 10 (.epoll [.controlReady] {} {})
  have hserved : (play (step printing) Unstopped served s).map
      (fun u => (u.place, u.loop.running, u.control.alive, decide (u.Ready []))) =
      some (.testing, true, true, true) := by decide
  obtain ⟨u, hu, hend⟩ := Option.map_eq_some_iff.1 hserved
  simp only [Prod.mk.injEq, decide_eq_true_eq] at hend
  obtain ⟨hplace, hrunning, halive, hready⟩ := hend
  have hidle := idle_rounds (p := printing) hplace hrunning halive hready 174
  have hlater := (run_of_play hu).append hidle
  have hcount : 531 ≤ (served ++ (List.replicate 174
      (List.replicate 3 (EpollLabel.epoll [] {} {}))).flatten).countP EpollLabel.IsEpoll := by
    rw [List.countP_append, List.countP_flatten, List.map_replicate, List.sum_replicate]
    decide
  obtain ⟨-, hall⟩ := flood_cannot_starve printing_strict (run_of_play hplay)
  exact ⟨s, _, u, hplay, hlater, hcount, hall hlater hcount 0 (by decide)⟩

/-! ## The thread returns when it has been stopped -/

/-- The steps left until the thread has returned, if it has been stopped and no further client connects. -/
def stepsToReturn (s : EpollThread) : ℕ :=
  5 * s.control.backlog.length + match s.place with
    | .testing => 1
    | .waiting => 264
    | .dispatching events => (events.map (eventSteps 2)).sum + 2
    | .receiving left events => left + 1 + (events.map (eventSteps 2)).sum + 2
    | .serving events => s.control.phase.callsLeft + 1 + (events.map (eventSteps 2)).sum + 2
    | .returned => 0

theorem callsLeft_of_call {c d : ControlState} (h : Call p ctx c d) (hl : Ledger c) (halive : d.alive = true)
    (hc : c.phase ≠ .waiting) (hd : d.phase ≠ .waiting) :
    d.phase.callsLeft + 5 * d.backlog.length + 1 ≤ c.phase.callsLeft + 5 * c.backlog.length := by
  cases h with
  | idle hphase | wake hphase => exact absurd hphase hc
  | leave => exact absurd rfl hd
  | lost hclient hconnection =>
    have hlt := hl.mem_iff.2 (Or.inr (Or.inl hclient))
    exact absurd (List.getElem?_eq_none_iff.1 hconnection) (by omega)
  | throw | kill => exact absurd halive nofun
  | accept hphase hbacklog =>
    simp only [hphase, hbacklog, Phase.callsLeft, List.length_cons]
    omega
  | readNothing hphase | read hphase | dispatch hphase | write hphase | close hphase =>
    simp only [hphase, Phase.callsLeft, ControlState.onConnection]
    omega

/-- Every step of the thread brings it closer. -/
theorem Next.nearer (h : Next p ready ctx read s t) (hs : Consistent s) (hl : Ledger s.control)
    (hstopped : s.loop.running = false) (halive : t.control.alive = true) :
    stepsToReturn t + 1 ≤ stepsToReturn s := by
  unfold Consistent at hs
  cases h with
  | goOn hplace hrunning => exact absurd (hrunning.symm.trans hstopped) nofun
  | wake hplace hready =>
    have hsum := sum_eventSteps_le 2 hready.1
    simp only [stepsToReturn, hplace]
    omega
  | leave hplace | round hplace | shutdown hplace | udp hplace | spent hplace =>
    simp only [stepsToReturn, hplace, List.map_cons, List.map_nil, List.sum_cons, List.sum_nil, eventSteps]
    omega
  | control hplace =>
    simp only [stepsToReturn, hplace, List.map_cons, List.sum_cons, eventSteps, Phase.callsLeft]
    omega
  | read hplace hnext =>
    rcases hnext with rfl | rfl
    all_goals
      simp only [stepsToReturn, hplace]
      omega
  | serve hplace hphase =>
    rw [hplace] at hs
    have hcalls := callsLeft_of_call (serve_call p ctx s.control) hl halive hs.1 hphase
    simp only [stepsToReturn, hplace]
    omega
  | drained hplace hphase =>
    rw [hplace] at hs
    obtain ⟨haccepting, hnil, hserve⟩ := drained_of_call (serve_call p ctx s.control) hs.1 hphase
    simp only [stepsToReturn, hplace, hserve, haccepting, hnil, Phase.callsLeft]
    omega

/-- A client that connects has to be served before that. -/
theorem nearer_step (h : s.step p l = some t) (hs : Consistent s) (hl : Ledger s.control)
    (hstopped : s.loop.running = false) (halive : t.control.alive = true) :
    stepsToReturn t + (if l.IsEpoll then 1 else 0) ≤ stepsToReturn s + (if l.IsConnect then 5 else 0) := by
  rcases step_cases h with ⟨ready, ctx, read, rfl, -, hnext⟩ | ⟨l', control, rfl, hserver, hcontrol, rfl⟩ |
    ⟨d, rfl, rfl⟩ | ⟨rfl, rfl⟩ | ⟨rfl, rfl⟩
  · exact hnext.nearer hs hl hstopped halive
  · rcases Control.step_cases hcontrol with ⟨ctx, rfl, -⟩ | ⟨request, rfl, rfl⟩ | ⟨-, i, f, -, rfl⟩
    · exact absurd hserver nofun
    · simp only [stepsToReturn, List.length_append, List.length_singleton, EpollLabel.IsEpoll,
        EpollLabel.IsConnect]
      simp only [Bool.false_eq_true, if_false, if_true]
      omega
    · exact Nat.le_add_right _ _
  all_goals exact Nat.le_refl _

theorem stepsToReturn_le (hs : Consistent s) : stepsToReturn s ≤ 266 + 5 * s.control.backlog.length := by
  unfold Consistent at hs
  unfold stepsToReturn
  cases hplace : s.place with
  | dispatching events =>
    rw [hplace] at hs
    have hsum := sum_eventSteps_le 2 hs.2.1
    dsimp only
    omega
  | receiving left events =>
    rw [hplace] at hs
    have hsum := sum_eventSteps_le 2 hs.2.1
    have hleft := hs.2.2.2
    simp only [List.map_cons, List.sum_cons, eventSteps] at hsum
    dsimp only
    omega
  | serving events =>
    rw [hplace] at hs
    have hsum := sum_eventSteps_le 2 hs.2
    have hcalls : s.control.phase.callsLeft ≤ 4 := by cases s.control.phase <;> simp [Phase.callsLeft]
    simp only [List.map_cons, List.sum_cons, eventSteps] at hsum
    dsimp only
    omega
  | _ =>
    dsimp only
    omega

/-- `stop()` is final. -/
theorem stopped_step (h : s.step p l = some t) (hstopped : s.loop.running = false) :
    t.loop.running = false := by
  by_cases hl : l = .exchange
  · subst hl
    obtain rfl := Option.some.inj h
    rfl
  · exact (running_step h hl).trans hstopped

/-- Once `stop()` has cleared the flag, the thread returns, as long as the control server is spared: it can go on
until it has, but not for more steps than for one round of events, the clients that were waiting, and those that
have still connected. -/
theorem returns_after_stop (hp : p.dump.Strict) (h : Run (step p) (OnControl Spared) {} labels s)
    (hstopped : s.loop.running = false) {later : List EpollLabel}
    (hlater : Run (step p) (OnControl Spared) s later t) :
    (t.place ≠ .returned → CanGoOn p t) ∧ later.countP EpollLabel.IsEpoll ≤
      266 + 5 * (s.control.backlog.length + later.countP EpollLabel.IsConnect) := by
  have hsound : Sound s := h.keeps (fun hs hφ hstep => hs.step hp hstep hφ) sound_initial
  have hkeep : ∀ {s t : EpollThread} {l : EpollLabel}, Sound s ∧ s.loop.running = false →
      OnControl Spared s l → s.step p l = some t → Sound t ∧ t.loop.running = false :=
    fun hs hφ hstep => ⟨hs.1.step hp hstep hφ, stopped_step hstep hs.2⟩
  refine ⟨fun hplace => (hlater.keeps hkeep ⟨hsound, hstopped⟩).1.canGoOn hplace, ?_⟩
  have hcount : later.countP EpollLabel.IsEpoll + stepsToReturn t ≤
      stepsToReturn s + 5 * later.countP EpollLabel.IsConnect := by
    refine hlater.countP_add_le_fed hkeep ?_ ⟨hsound, hstopped⟩
    intro s t l hs hφ hstep
    exact nearer_step hstep hs.1.consistent hs.1.ledger hs.2 (hs.1.step hp hstep hφ).alive
  have hstart := stepsToReturn_le hsound.consistent
  omega

/-- A thread that is stopped in `epoll_wait`. -/
theorem returns_after_stop_waiting : ∃ s t,
    play (step printing) (OnControl Spared) [.epoll [] {} {}, .exchange] {} = some s ∧
    play (step printing) (OnControl Spared) (.notify :: List.replicate 4 (.epoll [.shutdownWakeup] {} {})) s =
      some t ∧ t.place = .returned ∧ (t.place ≠ .returned → CanGoOn printing t) := by
  let s : EpollThread := { loop := { running := false }, place := .waiting }
  have hplay : play (step printing) (OnControl Spared) [.epoll [] {} {}, .exchange] {} = some s := rfl
  have hlater : (play (step printing) (OnControl Spared)
      (.notify :: List.replicate 4 (.epoll [.shutdownWakeup] {} {})) s).map EpollThread.place =
        some .returned := by decide
  obtain ⟨t, ht, hplace⟩ := Option.map_eq_some_iff.1 hlater
  exact ⟨s, t, hplay, ht, hplace,
    (returns_after_stop printing_strict (run_of_play hplay) rfl (run_of_play ht)).1⟩

/-! ## Clients hold up the thread -/

/-- The thread is about to call `accept4`, and no client is waiting. -/
structure Held (events : List Handler) (s : EpollThread) : Prop where
  alive : s.control.alive = true
  phase : s.control.phase = .accepting
  backlog : s.control.backlog = []
  place : s.place = .serving events
  stopped : s.loop.running = false

/-- A client that connects just then, and writes nothing, keeps it there. -/
theorem Held.client (h : Held events s) : ∃ t, Run (step p) (OnControl Spared) s
    (.client (.connect []) :: List.replicate 3 (.epoll [] {} {})) t ∧ Held events t ∧
      t.ingress = s.ingress := by
  obtain ⟨⟨connections, backlog, phase, alive, done⟩, ingress, loop, place⟩ := s
  obtain ⟨halive, hphase, hbacklog, hplace, hstopped⟩ := h
  dsimp only at halive hphase hbacklog hplace hstopped
  subst halive hphase hbacklog hplace
  let c : Connection := { request := [], unsent := [] }
  have hc : (connections ++ [c])[connections.length]? = some c := List.getElem?_concat_length
  have hplay : play (step p) (OnControl Spared)
      (.client (.connect []) :: List.replicate 3 (.epoll [] {} {}))
      ⟨⟨connections, [], .accepting, true, done⟩, ingress, loop, .serving events⟩ =
      some ⟨⟨(connections ++ [c]).modify connections.length Connection.read, [], .accepting, true,
        done ++ [.closed connections.length]⟩, ingress, loop, .serving events⟩ := by
    simp [play, step, next, OnControl, EpollLabel.control?, call?, Spared, ControlLabel.IsServer,
      ControlState.step, ControlState.serve, ControlState.onConnection, Phase.dispatching?, Phase.writing?,
      readBuffer, List.replicate, c]
  exact ⟨_, run_of_play hplay, ⟨rfl, rfl, rfl, rfl, hstopped⟩, rfl⟩

theorem Held.clients (h : Held events s) (n : ℕ) : ∃ labels t, Run (step p) (OnControl Spared) s labels t ∧
    Held events t ∧ t.ingress = s.ingress ∧ 3 * n ≤ labels.countP EpollLabel.IsEpoll := by
  induction n generalizing s with
  | zero => exact ⟨[], s, .nil s, h, rfl, Nat.zero_le _⟩
  | succ n ih =>
    obtain ⟨t, hrun, ht, hingress⟩ := h.client (p := p)
    obtain ⟨labels, u, hrest, hu, hingress', hcount⟩ := ih ht
    refine ⟨_, u, hrun.append hrest, hu, hingress'.trans hingress, ?_⟩
    have hthree : (EpollLabel.client (.connect []) :: List.replicate 3 (.epoll [] {} {})).countP
        EpollLabel.IsEpoll = 3 := rfl
    rw [List.countP_append, hthree]
    omega

/-- As long as clients keep connecting, the thread does not come back to the loop: neither `stop()` nor a datagram
is heeded. -/
theorem clients_hold_up (p : Platform) (d : Datagram) (n : ℕ) : ∃ labels s,
    Run (step p) (OnControl Spared) {} labels s ∧ s.loop.running = false ∧ s.ingress.pending = [d] ∧
      s.place ≠ .returned ∧ 3 * n ≤ labels.countP EpollLabel.IsEpoll := by
  let start : List EpollLabel := .client (.connect []) :: .datagram d ::
    List.replicate 6 (.epoll [.controlReady, .udpReady] {} {}) ++ [.exchange]
  let held : EpollThread := {
    control := {
      connections := [{ request := [], unsent := [] }]
      phase := .accepting
      events := [.closed 0] }
    ingress := { pending := [d] }
    loop := { running := false }
    place := .serving [.udpReady] }
  have hplay : play (step p) (OnControl Spared) start {} = some held := rfl
  have hheld : Held [.udpReady] held := ⟨rfl, rfl, rfl, rfl, rfl⟩
  obtain ⟨labels, s, hrun, hs, hingress, hcount⟩ := hheld.clients (p := p) n
  refine ⟨_, s, (run_of_play hplay).append hrun, hs.stopped, ?_, ?_, ?_⟩
  · rw [hingress]
  · rw [hs.place]
    exact nofun
  · rw [List.countP_append]
    exact Nat.le_add_left_of_le hcount

end EpollThread

end EdgeNetSwitch
