import EdgeNetSwitch.Daemon.Teardown
import EdgeNetSwitch.Daemon.Proofs.RuntimeProofs

/-!
# Proofs: callbacks of destroyed objects

The epoll thread has been joined before anything is destroyed, so the only messages published during
the end of the scope are those of the worker, and the only object they are delivered to is
`PacketStats`. No callback of a destroyed object is invoked if the worker has nothing left to do when
`PacketStats` goes.
-/

namespace EdgeNetSwitch

namespace Runtime

open Threads PacketProcessor

variable {s s' : Runtime} {a b : Action} {w : Env} {k : List Action} {c d : Config Runtime Action}

/-- The actions that have nothing to do with the end of the scope or with the worker's loop. -/
def Ordinary : Action → Prop
  | .processLoop | .epollExit | .joinEpoll | .stopProcessor | .joinWorker | .destroy _ => False
  | .deliver (.client _) _ | .subscribe (.client _) => False
  | _ => True

/-- The last message of `main`, and its callbacks. -/
def OfShutdown : Action → Prop
  | .publish .main msg => msg.type = .systemShutdown
  | .deliver (.client _) _ => False
  | .deliver sub msg => msg.type = .systemShutdown ∧ msg.type ∈ sub.types
  | _ => False

theorem ordinary_of_leaves (h : Leaves a b) (ha : Ordinary a)
    (hclient : ∀ type msg, b ≠ .deliver (.client type) msg) : Ordinary b := by
  cases b with
  | deliver sub msg => cases sub <;> first | trivial | exact absurd rfl (hclient _ _)
  | processLoop => exact eq_processLoop_of_leaves h ▸ ha
  | epollExit | joinEpoll | stopProcessor | joinWorker | destroy object | subscribe sub =>
    cases a <;> first | exact h.elim | skip
    rename_i sub msg
    cases sub <;> exact h.elim
  | _ => trivial

theorem ofShutdown_of_leaves (h : Leaves a b) (ha : OfShutdown a)
    (hclient : ∀ type msg, b ≠ .deliver (.client type) msg) : OfShutdown b := by
  cases a with
  | publish src msg =>
    cases src <;> first | exact ha.elim | skip
    cases b <;> first | exact h.elim | skip
    rename_i sub m
    obtain ⟨rfl, htype⟩ := h
    cases sub <;> first | exact ⟨ha, htype⟩ | exact absurd rfl (hclient _ _)
  | deliver sub msg =>
    cases sub <;> first | exact ha.elim | skip
    all_goals cases b <;> first | exact h.elim | skip
    all_goals
      obtain ⟨hm, htype⟩ := ha
      simp [hm, Subscriber.types] at htype
  | _ => exact ha.elim

/-- Only a callback of a destroyed object dangles. -/
theorem exec_dangling (h : exec a w s = some (s', k))
    (hlive : ∀ sub msg, a = .deliver sub msg → ∀ o ∈ sub.captures, o ∉ s.destroyed) :
    s'.dangling = s.dangling := by
  by_cases hdel : ∃ sub msg, a = .deliver sub msg
  · obtain ⟨sub, msg, rfl⟩ := hdel
    have hnot : ¬ sub.captures.any (· ∈ s.destroyed) := by
      simpa using hlive sub msg rfl
    simp only [exec, if_neg hnot, Option.some.injEq] at h
    have hs' : s' = (s.callback msg w sub).1 := by rw [h]
    rw [hs']
    cases sub <;> simp only [callback] <;> split <;> rfl
  · exact (exec_frame h).dangling fun sub msg ha => hdel ⟨sub, msg, ha⟩

/-- The epoll thread: its requests are done when it exits. -/
inductive EpollStack (s : Runtime) : List Action → Prop
  | running (u : List Action) (hu : ∀ a ∈ u, Ordinary a) (hs : s.epoll_exited = false) :
    EpollStack s (u ++ [.epollExit])
  | exited : EpollStack s []

/-- The main thread, before it has joined the epoll thread and after that. -/
inductive MainStack (s : Runtime) (epoll : List Action) : List Action → Prop
  | before (u : List Action) (stop_ms : UInt64) (hu : ∀ a ∈ u, Ordinary a)
    (hs : s.destroyed = []) : MainStack s epoll (u ++ shutdown stop_ms)
  | after (u rest : List Action) (hu : ∀ a ∈ u, OfShutdown a) (hrest : rest <:+ scopeEnd)
    (hepoll : epoll = []) : MainStack s epoll (u ++ rest)

/-- What holds in the scope of `main` as long as `PacketStats` is destroyed in time. -/
structure Scope (worker epoll main : List Action) (c : Config Runtime Action) : Prop where
  threads : c.threads = [worker, epoll, main]
  onWorker : ∀ a ∈ worker, OnWorker a
  epollStack : EpollStack c.shared epoll
  mainStack : MainStack c.shared epoll main
  subscribers : ∀ type, Subscriber.client type ∉ c.shared.subscribers
  stats : .packetStats ∈ c.shared.destroyed → c.shared.queue = [] ∧ ∀ a ∈ worker, ¬ WorkerBusy a
  dangling : c.shared.dangling = []

variable {worker epoll main rest : List Action}

theorem EpollStack.congr (h : EpollStack s epoll) (hs : s'.epoll_exited = s.epoll_exited) :
    EpollStack s' epoll := by
  cases h with
  | running u hu hx => exact .running u hu (hs.trans hx)
  | exited => exact .exited

theorem MainStack.congr (h : MainStack s epoll main) (hs : s'.destroyed = s.destroyed) :
    MainStack s' epoll main := by
  cases h with
  | before u stop_ms hu hd => exact .before u stop_ms hu (hs.trans hd)
  | after u rest hu hrest hepoll => exact .after u rest hu hrest hepoll

/-- An ordinary action keeps the lifetime of the objects out of it. -/
theorem exec_ordinary (ha : Ordinary a) (h : exec a w s = some (s', k)) :
    s'.destroyed = s.destroyed ∧ s'.epoll_exited = s.epoll_exited := by
  have hframe := exec_frame h
  exact ⟨hframe.destroyed (by rintro o rfl; exact ha), hframe.epoll_exited (by rintro rfl; exact ha)⟩

theorem subscribers_of_ordinary (hs : ∀ type, Subscriber.client type ∉ s.subscribers)
    (ha : ∀ type, a ≠ .subscribe (.client type)) (h : exec a w s = some (s', k)) :
    ∀ type, Subscriber.client type ∉ s'.subscribers := by
  intro type hmem
  by_cases hsub : ∃ sub, a = .subscribe sub
  · obtain ⟨sub, rfl⟩ := hsub
    cases h
    rcases List.mem_append.1 hmem with hmem | hmem
    · exact hs type hmem
    · rw [List.mem_singleton] at hmem
      exact ha type (by rw [hmem])
  · rw [(exec_frame h).subscribers fun sub ha => hsub ⟨sub, ha⟩] at hmem
    exact hs type hmem

/-- Only a busy worker stays busy, until it takes another packet. -/
theorem workerBusy_of_leaves (h : Leaves a b) (ha : OnWorker a) (hb : WorkerBusy b) :
    WorkerBusy a ∨ a = .processLoop := by
  cases a with
  | publish src msg =>
    cases src <;> first | exact ha.elim | exact Or.inl trivial
  | deliver sub msg =>
    cases sub <;> first | exact ha.elim | skip
    all_goals cases b <;> first | exact h.elim | exact hb.elim
  | processPacket p => exact Or.inl trivial
  | processLoop => exact Or.inr rfl
  | transmit port p => cases b <;> exact h.elim
  | appendOutcome o => cases b <;> exact h.elim
  | _ => exact ha.elim

theorem Scope.stats_worker (hc : Scope (a :: rest) epoll main c) (ha : OnWorker a)
    (h : exec a w c.shared = some (d.shared, k)) (hmem : .packetStats ∈ c.shared.destroyed) :
    d.shared.queue = [] ∧ ∀ b ∈ k ++ rest, ¬ WorkerBusy b := by
  obtain ⟨hq, hidle⟩ := hc.stats hmem
  have hrest : ∀ b ∈ rest, ¬ WorkerBusy b := fun b hb => hidle b (List.mem_cons_of_mem _ hb)
  by_cases hloop : a = .processLoop
  · subst hloop
    simp only [exec, hq] at h
    split_ifs at h
    simp only [Option.some.injEq, Prod.mk.injEq] at h
    obtain ⟨hs, rfl⟩ := h
    exact ⟨by rw [← hs], hrest⟩
  · refine ⟨?_, fun b hb hbusy => ?_⟩
    · rw [(exec_frame h).queue (by rintro p t rfl; exact ha) hloop, hq]
    · rcases List.mem_append.1 hb with hb | hb
      · rcases workerBusy_of_leaves (exec_leaves h b hb) ha hbusy with hbusy | heq
        · exact hidle a (by simp) hbusy
        · exact hloop heq
      · exact hrest b hb hbusy

/-- The worker moves. -/
theorem Scope.step_worker (hc : Scope (a :: rest) epoll main c) (ha : exec a w c.shared = some (d.shared, k))
    (hd : d.threads = [k ++ rest, epoll, main]) : Scope (k ++ rest) epoll main d := by
  have hframe := exec_frame ha
  have hon := hc.onWorker a (by simp)
  have hleaves : ∀ b ∈ k, OnWorker b := fun b hb =>
    onWorker_of_leaves (exec_leaves ha b hb) hon (not_deliver_client hc.subscribers ha hb)
  have hdestroyed : d.shared.destroyed = c.shared.destroyed :=
    hframe.destroyed (by rintro o rfl; exact hon)
  refine ⟨hd, fun b hb => ?_, hc.epollStack.congr (hframe.epoll_exited (by rintro rfl; exact hon)),
    hc.mainStack.congr hdestroyed, subscribers_of_ordinary hc.subscribers (by rintro type rfl; exact hon) ha,
    fun hmem => ?_, ?_⟩
  · rcases List.mem_append.1 hb with hb | hb
    · exact hleaves b hb
    · exact hc.onWorker b (List.mem_cons_of_mem _ hb)
  · exact hc.stats_worker hon ha (hdestroyed ▸ hmem)
  · rw [exec_dangling ha, hc.dangling]
    rintro sub msg rfl o ho hmem
    cases sub with
    | packetStats =>
      rw [List.mem_singleton.1 ho] at hmem
      exact (hc.stats hmem).2 (.deliver .packetStats msg) (by simp) trivial
    | packetProcessor | heartbeat =>
      obtain ⟨hm, htype⟩ := hon
      rcases hm with hm | hm | hm <;> simp [hm, Subscriber.types] at htype
    | _ => cases ho

/-- The epoll thread moves: nothing has been destroyed yet. -/
theorem Scope.step_epoll (hc : Scope worker epoll main c) (hstack : epoll = a :: rest)
    (ha : exec a w c.shared = some (d.shared, k)) (hd : d.threads = [worker, k ++ rest, main]) :
    Scope worker (k ++ rest) main d := by
  obtain ⟨u, stop_ms, hu, rfl, hlive⟩ : ∃ u stop_ms, (∀ a ∈ u, Ordinary a) ∧
      main = u ++ shutdown stop_ms ∧ c.shared.destroyed = [] := by
    cases hc.mainStack with
    | before u stop_ms hu hs => exact ⟨u, stop_ms, hu, rfl, hs⟩
    | after u rest hu hrest hepoll => cases hepoll.symm.trans hstack
  have hdangling : d.shared.dangling = [] := by
    rw [exec_dangling ha, hc.dangling]
    rintro sub msg rfl o ho
    simp [hlive]
  have hmain : d.shared.destroyed = [] →
      MainStack d.shared (k ++ rest) (u ++ shutdown stop_ms) := .before u stop_ms hu
  have hstats : d.shared.destroyed = [] → .packetStats ∈ d.shared.destroyed →
      d.shared.queue = [] ∧ ∀ a ∈ worker, ¬ WorkerBusy a := fun h hmem => by simp [h] at hmem
  cases hc.epollStack with
  | exited => cases hstack
  | running v hv hx =>
    cases v with
    | nil =>
      obtain ⟨rfl, rfl⟩ := List.cons.inj hstack
      have hframe := exec_frame ha
      have hdestroyed := (hframe.destroyed (by simp)).trans hlive
      simp only [exec, Option.some.injEq, Prod.mk.injEq] at ha
      obtain ⟨hs, rfl⟩ := ha
      exact ⟨hd, hc.onWorker, .exited, hmain hdestroyed,
        by rw [hframe.subscribers (by simp)]; exact hc.subscribers, hstats hdestroyed, hdangling⟩
    | cons x v =>
      obtain ⟨rfl, rfl⟩ := List.cons.inj hstack
      have hord := hv x (by simp)
      obtain ⟨hdestroyed, hexited⟩ := exec_ordinary hord ha
      rw [hlive] at hdestroyed
      have hstack' : EpollStack d.shared ((k ++ v) ++ [.epollExit]) := by
        refine .running (k ++ v) (fun b hb => ?_) (hexited.trans hx)
        rcases List.mem_append.1 hb with hb | hb
        · exact ordinary_of_leaves (exec_leaves ha b hb) hord
            (not_deliver_client hc.subscribers ha hb)
        · exact hv b (List.mem_cons_of_mem _ hb)
      rw [List.append_assoc] at hstack'
      exact ⟨hd, hc.onWorker, hstack', hmain hdestroyed,
        subscribers_of_ordinary hc.subscribers (by rintro type rfl; exact hord) ha,
        hstats hdestroyed, hdangling⟩

theorem mem_scopeEnd (h : a ∈ scopeEnd) :
    (∃ o, a = .destroy o) ∨ a = .stopProcessor ∨ a = .joinWorker := by
  obtain ⟨o, -, ho⟩ := List.mem_flatMap.1 h
  by_cases hp : o = .packetProcessor
  · subst hp
    simp only [destructor, List.mem_cons, List.not_mem_nil, or_false] at ho
    rcases ho with rfl | rfl | rfl <;> simp
  · have hone : destructor o = [.destroy o] := by
      cases o <;> first | rfl | exact absurd rfl hp
    rw [hone, List.mem_singleton] at ho
    exact Or.inl ⟨o, ho⟩

/-- An object is destroyed on the main thread. -/
theorem Scope.stats_main (hc : Scope worker epoll main c) (ha : a ∈ scopeEnd)
    (hφ : QuietTeardown c a) (h : exec a w c.shared = some (d.shared, k))
    (hmem : .packetStats ∈ d.shared.destroyed) :
    d.shared.queue = [] ∧ ∀ b ∈ worker, ¬ WorkerBusy b := by
  have hframe := exec_frame h
  have hqueue : d.shared.queue = c.shared.queue := by
    rcases mem_scopeEnd ha with ⟨o, rfl⟩ | rfl | rfl <;> exact hframe.queue (by simp) (by simp)
  rw [hqueue]
  by_cases hstats : a = .destroy .packetStats
  · subst hstats
    obtain ⟨hq, hidle⟩ := hφ
    exact ⟨hq, fun b hb hbusy => hidle ⟨worker, by rw [hc.threads]; simp, b, hb, hbusy⟩⟩
  · refine hc.stats ?_
    rcases mem_scopeEnd ha with ⟨o, rfl⟩ | rfl | rfl
    · simp only [exec, Option.some.injEq, Prod.mk.injEq] at h
      rw [← h.1, List.mem_append, List.mem_singleton] at hmem
      rcases hmem with hmem | rfl
      · exact hmem
      · exact absurd rfl hstats
    · rwa [hframe.destroyed (by simp)] at hmem
    · rwa [hframe.destroyed (by simp)] at hmem

/-- The main thread moves. -/
theorem Scope.step_main (hc : Scope worker epoll main c) (hstack : main = a :: rest)
    (hφ : QuietTeardown c a) (ha : exec a w c.shared = some (d.shared, k))
    (hd : d.threads = [worker, epoll, k ++ rest]) : Scope worker epoll (k ++ rest) d := by
  have hframe := exec_frame ha
  cases hc.mainStack with
  | before u stop_ms hu hlive =>
    have hdangling : d.shared.dangling = [] := by
      rw [exec_dangling ha, hc.dangling]
      rintro sub msg rfl o ho
      simp [hlive]
    cases u with
    | nil =>
      -- the epoll thread is joined
      obtain ⟨rfl, rfl⟩ := List.cons.inj hstack
      simp only [exec] at ha
      split_ifs at ha with hx
      simp only [Option.some.injEq, Prod.mk.injEq] at ha
      obtain ⟨hs, rfl⟩ := ha
      cases hc.epollStack with
      | running u hu hs => exact absurd hx (by simp [hs])
      | exited =>
        rw [← hs] at hdangling
        refine ⟨hd, hc.onWorker, .exited, ?_, by rw [← hs]; exact hc.subscribers,
          by rw [← hs]; exact hc.stats, hs ▸ hdangling⟩
        exact .after [.publish .main ⟨.systemShutdown, stop_ms, .monostate⟩] scopeEnd
          (by simp [OfShutdown]) List.suffix_rfl rfl
    | cons x u =>
      obtain ⟨rfl, rfl⟩ := List.cons.inj hstack
      have hord := hu x (by simp)
      obtain ⟨hdestroyed, hexited⟩ := exec_ordinary hord ha
      rw [hlive] at hdestroyed
      have hmain : MainStack d.shared epoll ((k ++ u) ++ shutdown stop_ms) := by
        refine .before (k ++ u) stop_ms (fun b hb => ?_) hdestroyed
        rcases List.mem_append.1 hb with hb | hb
        · exact ordinary_of_leaves (exec_leaves ha b hb) hord
            (not_deliver_client hc.subscribers ha hb)
        · exact hu b (List.mem_cons_of_mem _ hb)
      rw [List.append_assoc] at hmain
      exact ⟨hd, hc.onWorker, hc.epollStack.congr hexited, hmain,
        subscribers_of_ordinary hc.subscribers (by rintro type rfl; exact hord) ha,
        fun hmem => by simp [hdestroyed] at hmem, hdangling⟩
  | after u rest' hu hrest hepoll =>
    subst hepoll
    cases u with
    | nil =>
      -- an object is destroyed
      obtain rfl : rest' = a :: rest := hstack
      have hmem := hrest.subset (List.mem_cons_self ..)
      have hk : k = [] := by
        rw [List.eq_nil_iff_forall_not_mem]
        intro b hb
        have hlb := exec_leaves ha b hb
        rcases mem_scopeEnd hmem with ⟨o, rfl⟩ | rfl | rfl <;> exact hlb
      subst hk
      refine ⟨hd, hc.onWorker, .exited, .after [] rest (by simp)
        ((List.suffix_cons a rest).trans hrest) rfl, ?_, hc.stats_main hmem hφ ha, ?_⟩
      · refine subscribers_of_ordinary hc.subscribers ?_ ha
        rintro type rfl
        rcases mem_scopeEnd hmem with ⟨o, h⟩ | h | h <;> cases h
      · rw [exec_dangling ha, hc.dangling]
        rintro sub msg rfl
        rcases mem_scopeEnd hmem with ⟨o, h⟩ | h | h <;> cases h
    | cons x u =>
      obtain ⟨rfl, rfl⟩ := List.cons.inj hstack
      have hof := hu x (by simp)
      have hdestroyed := hframe.destroyed (by rintro o rfl; exact hof)
      have hmain : MainStack d.shared [] ((k ++ u) ++ rest') := by
        refine .after (k ++ u) rest' (fun b hb => ?_) hrest rfl
        rcases List.mem_append.1 hb with hb | hb
        · exact ofShutdown_of_leaves (exec_leaves ha b hb) hof
            (not_deliver_client hc.subscribers ha hb)
        · exact hu b (List.mem_cons_of_mem _ hb)
      rw [List.append_assoc] at hmain
      refine ⟨hd, hc.onWorker, .exited, hmain,
        subscribers_of_ordinary hc.subscribers (by rintro type rfl; exact hof) ha, ?_, ?_⟩
      · rw [hdestroyed, hframe.queue (by rintro p t rfl; exact hof) (by rintro rfl; exact hof)]
        exact hc.stats
      · rw [exec_dangling ha, hc.dangling]
        rintro sub msg rfl o ho
        cases sub with
        | packetStats | packetProcessor | heartbeat =>
          obtain ⟨hm, htype⟩ := hof
          simp [hm, Subscriber.types] at htype
        | _ => cases ho

theorem Scope.step (hc : Scope worker epoll main c) (hφ : QuietTeardown c a)
    (h : Step program c a d) : ∃ worker epoll main, Scope worker epoll main d := by
  obtain ⟨o, k, he, hr⟩ := step_spec h
  rcases hr.three hc.threads with ⟨rest, rfl, hd⟩ | ⟨rest, hstack, hd⟩ | ⟨rest, hstack, hd⟩
  · exact ⟨_, _, _, hc.step_worker he hd⟩
  · exact ⟨_, _, _, hc.step_epoll hstack he hd⟩
  · exact ⟨_, _, _, hc.step_main hstack hφ he hd⟩

section Daemon

variable {cfg : FailureConfig} {engine : Option SwitchForwardingEngine}
  {transport : Option TransportManager} {requests : List Request} {start_ms stop_ms : UInt64}
  {ticks : List Tick}

theorem scope_daemon : Scope [.processLoop] (requests.map Request.action ++ [.epollExit])
    (mainThread start_ms ticks stop_ms)
    (daemon cfg engine transport requests start_ms ticks stop_ms) := by
  refine ⟨rfl, by simp [OnWorker], .running _ (fun a ha => ?_) rfl, .before _ stop_ms ?_ rfl,
    by simp [daemon, start, initial], by simp [daemon, start, initial], rfl⟩
  · obtain ⟨request, -, rfl⟩ := List.mem_map.1 ha
    cases request <;> trivial
  · intro a ha
    rw [List.mem_append, List.mem_cons] at ha
    rcases ha with ha | rfl | ha
    · obtain ⟨sub, hsub, rfl⟩ := List.mem_map.1 ha
      cases sub <;> trivial
    · trivial
    · obtain ⟨msg, -, rfl⟩ := List.mem_map.1 ha
      trivial

/-- No callback of a destroyed object is invoked if nothing is left in the queue or with the worker
when `PacketStats` is destroyed. -/
theorem no_dangling_callback (h : Reaches program QuietTeardown
    (daemon cfg engine transport requests start_ms ticks stop_ms) c) : c.shared.dangling = [] := by
  obtain ⟨_, _, _, hc⟩ := h.invariant (I := fun c => ∃ worker epoll main, Scope worker epoll main c)
    ⟨_, _, _, scope_daemon⟩ fun _ _ _ ⟨_, _, _, hc⟩ hφ hs => hc.step hφ hs
  exact hc.dangling

end Daemon

/-- The daemon is stopped after its only packet has been dropped. -/
theorem no_dangling_callback_idle : ∃ c,
    Reaches program QuietTeardown (daemon {} none none
      [.readable (.datagram (localDatagram "id=1;payload=ping"))] 5 [] 6) c ∧
    c.shared.destroyed = DaemonObject.declarations.reverse ∧ c.shared.dangling = [] := by
  have hplay : ∃ c, play program QuietTeardown
      ((List.replicate 7 1 ++ List.replicate 4 0 ++ List.replicate 24 2 ++ [0] ++
        List.replicate 17 2).map fun i => (i, {}))
      (daemon {} none none [.readable (.datagram (localDatagram "id=1;payload=ping"))] 5 [] 6) =
        some c ∧ c.shared.destroyed = DaemonObject.declarations.reverse := ⟨_, rfl, rfl⟩
  obtain ⟨c, hplay, hdestroyed⟩ := hplay
  have hr := reaches_of_play hplay
  exact ⟨c, hr, hdestroyed, no_dangling_callback hr⟩

/-- A packet that is still queued at the end of the scope is reported to the destroyed
`PacketStats`. -/
theorem dangling_packetStats : ∃ c,
    Reaches program anyStep (daemon {} none none
      [.readable (.datagram (localDatagram "id=1;payload=ping"))] 5 [] 6) c ∧
    c.shared.dangling.map Prod.fst = [.packetStats] := by
  have hplay : ∃ c, play program anyStep
      ((List.replicate 7 1 ++ List.replicate 23 2 ++ List.replicate 4 0).map fun i => (i, {}))
      (daemon {} none none [.readable (.datagram (localDatagram "id=1;payload=ping"))] 5 [] 6) =
        some c ∧ c.shared.dangling.map Prod.fst = [.packetStats] := ⟨_, rfl, rfl⟩
  obtain ⟨c, hplay, hdangling⟩ := hplay
  exact ⟨c, reaches_of_play hplay, hdangling⟩

end Runtime

end EdgeNetSwitch
