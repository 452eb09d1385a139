import EdgeNetSwitch.Daemon.Ingress
import EdgeNetSwitch.Daemon.Proofs.ConservationProofs
import EdgeNetSwitch.Packet.Proofs.PacketStatsProofs

/-!
# Proofs: what was published, delivered and counted

Three balances hold in every state of the ingress path, whatever the interleaving: between the ids
the producers hand out and the messages that carry them (`Issued`), between the `PacketRx` messages
published and the packets the processor took in, and between the messages published and those the
statistics counted (`Delivered`).
-/

namespace EdgeNetSwitch

namespace Runtime

open Threads PacketProcessor

variable {s s' : Runtime} {a : Action} {w : Env} {k : List Action} {c d : Config Runtime Action}

/-! ## Kinds of actions -/

/-- The actions of the kind `Q` leave others of it, and none of them changes what is on the bus. -/
structure Confined (Q : Action → Prop) : Prop where
  closed : ∀ {a b : Action}, Leaves a b → Q a → (∀ type msg, b ≠ .deliver (.client type) msg) → Q b
  subscribe : ∀ sub, ¬ Q (.subscribe sub)
  destroy : ∀ object, ¬ Q (.destroy object)

/-- Only actions of the kind `Q` run, on the bus it was started with. -/
structure Within (Q : Action → Prop) (subscribers : List Subscriber)
    (c : Config Runtime Action) : Prop where
  actions : c.Stacks fun t => ∀ a ∈ t, Q a
  subscribers : c.shared.subscribers = subscribers
  destroyed : c.shared.destroyed = []
  log : ∀ x ∈ c.shared.log, Q (.publish x.1 x.2)

theorem Within.action {Q : Action → Prop} {subs : List Subscriber} (hc : Within Q subs c)
    (hr : Replaces a k c d) : Q a := by
  obtain ⟨t, ht, b, hb, rfl⟩ := hr.pending
  exact hc.actions t ht b hb

theorem within_start {Q : Action → Prop} {subs : List Subscriber} {cfg : FailureConfig}
    {engine : Option SwitchForwardingEngine} {transport : Option TransportManager}
    {callers : List (List Action)} (hloop : Q .processLoop) (h : ∀ t ∈ callers, ∀ a ∈ t, Q a) :
    Within Q subs (start (initial subs cfg engine transport) callers) := by
  refine ⟨fun t ht a ha => ?_, rfl, rfl, fun x hx => (List.not_mem_nil hx).elim⟩
  rcases List.mem_cons.1 ht with rfl | ht
  · rw [List.mem_singleton.1 ha]
    exact hloop
  · exact h t ht a ha

theorem Within.step {Q : Action → Prop} {subs : List Subscriber} (hQ : Confined Q)
    (hs : ∀ type, Subscriber.client type ∉ subs) (hc : Within Q subs c) (h : Step program c a d) :
    Within Q subs d := by
  obtain ⟨o, k, he, hr⟩ := step_spec h
  have hframe := exec_frame he
  have ha := hc.action hr
  refine ⟨hr.stacks hc.actions fun rest ht b hb => ?_, ?_, ?_, ?_⟩
  · rcases List.mem_append.1 hb with hb | hb
    · exact hQ.closed (exec_leaves he b hb) ha
        (not_deliver_client (fun type => hc.subscribers ▸ hs type) he hb)
    · exact ht b (List.mem_cons_of_mem _ hb)
  · rw [hframe.subscribers (by rintro sub rfl; exact hQ.subscribe sub ha), hc.subscribers]
  · rw [hframe.destroyed (by rintro object rfl; exact hQ.destroy object ha), hc.destroyed]
  · intro x hx
    by_cases hpub : ∃ src msg, a = .publish src msg
    · obtain ⟨src, msg, rfl⟩ := hpub
      rw [(exec_publish he).1] at hx
      rcases List.mem_append.1 hx with hx | hx
      · exact hc.log x hx
      · rw [List.mem_singleton.1 hx]
        exact ha
    · rw [hframe.log fun src msg ha => hpub ⟨src, msg, ha⟩] at hx
      exact hc.log x hx

/-! ## The actions of the ingress path -/

/-- What each source publishes on the ingress path. -/
def Publishes : Source → Message → Prop
  | .processor, msg => ∃ p reason t, msg = dropMessage p reason t
  | .worker, msg => msg.type ≠ .packetRx
  | .receiver recv, msg => ∃ gen clock, (UdpReceiver.handleReadable gen recv clock).2.1 = some msg
  | .control arg, msg => ∃ p ∈ handleSendPacket arg, ∃ t, publishSyntheticPacket p t = some msg
  | _, _ => False

/-- The actions of the ingress path. -/
def OfIngress : Action → Prop
  | .publish src msg => Publishes src msg
  | .deliver (.client _) _ => False
  | .publishSynthetic arg p => p ∈ handleSendPacket arg
  | .deliver _ _ | .inject _ | .enqueue _ _ | .processLoop | .processPacket _ | .transmit _ _
  | .appendRecord _ | .appendOutcome _ | .handleReadable _ | .sendPacket _ => True
  | _ => False

theorem ofIngress_of_leaves {b : Action} (h : Leaves a b) (ha : OfIngress a)
    (hclient : ∀ type msg, b ≠ .deliver (.client type) msg) : OfIngress b := by
  cases a with
  | publish src msg =>
    cases b with
    | deliver sub m => cases sub <;> first | trivial | exact absurd rfl (hclient _ _)
    | _ => exact h.elim
  | deliver sub msg =>
    cases sub <;> cases b <;> trivial
  | inject p =>
    cases b <;> first | trivial | exact h.elim | skip
    rename_i src m
    cases src <;> first | exact h.elim | exact ⟨p, h⟩
  | enqueue p t =>
    cases b <;> first | trivial | exact h.elim | skip
    rename_i src m
    cases src <;> first | exact h.elim | exact ⟨p, h⟩
  | processPacket p =>
    cases b <;> first | trivial | exact h.elim | skip
    rename_i src m
    cases src <;> first | exact h.elim | skip
    rcases h with ⟨reason, t, rfl⟩ | rfl | ⟨decision, rfl⟩ <;>
      simp [OfIngress, Publishes, dropMessage, processedMessage, forwardingMessage]
  | handleReadable recv =>
    cases b <;> first | exact h.elim | skip
    rename_i src m
    cases src <;> first | exact h.elim | skip
    obtain ⟨rfl, h⟩ := h
    exact h
  | sendPacket arg =>
    cases b <;> first | exact h.elim | skip
    obtain ⟨rfl, h⟩ := h
    exact h
  | publishSynthetic arg p =>
    cases b <;> first | exact h.elim | skip
    rename_i src m
    cases src <;> first | exact h.elim | skip
    obtain ⟨rfl, h⟩ := h
    exact ⟨p, ha, h⟩
  | _ => cases b <;> trivial

theorem confined_ofIngress : Confined OfIngress :=
  ⟨fun hl ha hb => ofIngress_of_leaves hl ha hb, fun _ h => h, fun _ h => h⟩

/-! ## Delivery -/

/-- Each subscriber is called once for every time it is subscribed. -/
theorem weight_deliver {M : Type*} [AddCommMonoid M] {f : Action → M} {sub : Subscriber}
    {msg : Message} (hf : ∀ sub', sub' ≠ sub → f (.deliver sub' msg) = 0) (p : Subscriber → Bool)
    (subs : List Subscriber) : weight f ((subs.filter p).map (.deliver · msg)) =
      if p sub then subs.count sub • f (.deliver sub msg) else 0 := by
  induction subs with
  | nil => simp
  | cons x subs ih =>
    by_cases hx : x = sub
    · subst hx
      by_cases hp : p x
      · rw [List.filter_cons_of_pos hp, List.map_cons, weight_cons, ih, if_pos hp, if_pos hp,
          List.count_cons_self, succ_nsmul']
      · rw [List.filter_cons_of_neg hp, ih, if_neg hp, if_neg hp]
    · have hcount : (x :: subs).count sub = subs.count sub := List.count_cons_of_ne hx
      rw [hcount, ← ih]
      by_cases hp : p x
      · rw [List.filter_cons_of_pos hp, List.map_cons, weight_cons, hf x hx, zero_add]
      · rw [List.filter_cons_of_neg hp]

/-- Callbacks are invoked by publishing only. -/
theorem weight_eq_zero_of_not_publish {f : Action → ℕ}
    (hf : ∀ b, (∀ sub msg, b ≠ .deliver sub msg) → f b = 0)
    (h : exec a w s = some (s', k)) (ha : ∀ src msg, a ≠ .publish src msg) : weight f k = 0 := by
  refine weight_eq_zero fun b hb => hf b ?_
  rintro sub msg rfl
  have hleaves := exec_leaves h _ hb
  cases a with
  | publish src msg => exact absurd rfl (ha src msg)
  | deliver sub' msg' => cases sub' <;> exact hleaves
  | _ => exact hleaves

/-- What the messages published carry, as `key` reads them. -/
def carried {β : Type*} (key : Message → Option β) (log : List (Source × Message)) : List β :=
  log.filterMap fun x => key x.2

/-- A message that carries `x`, about to be delivered to `sub`. -/
def undelivered {β : Type*} [DecidableEq β] (sub : Subscriber) (key : Message → Option β) (x : β) :
    Action → ℕ
  | .deliver sub' msg => if sub' = sub ∧ key msg = some x then 1 else 0
  | _ => 0

section Delivery

variable {subs : List Subscriber} {β : Type*} [DecidableEq β]

theorem carried_append (key : Message → Option β) (log : List (Source × Message)) (src : Source)
    (msg : Message) (x : β) : (carried key (log ++ [(src, msg)])).count x =
      (carried key log).count x + if key msg = some x then 1 else 0 := by
  have happ : carried key (log ++ [(src, msg)]) = carried key log ++ (key msg).toList := by
    rw [carried, List.filterMap_append]
    congr 1
  rw [happ, List.count_append, count_toList]

/-- What one action does to the messages for `sub`, when `got` records what its callback was given. -/
theorem exec_delivered (sub : Subscriber) (key : Message → Option β) (got : Runtime → List β)
    (hkey : ∀ msg, key msg ≠ none → msg.type ∈ sub.types)
    (hcall : ∀ s msg w, got (s.callback msg w sub).1 = got s ++ (key msg).toList)
    (hkeep : (∀ msg, a ≠ .deliver sub msg) → got s' = got s) (hs : s.subscribers.count sub = 1)
    (hlive : s.destroyed = []) (h : exec a w s = some (s', k)) (x : β) : ∃ δ,
    (carried key s'.log).count x = (carried key s.log).count x + δ ∧
    (got s').count x + weight (undelivered sub key x) k =
      (got s).count x + undelivered sub key x a + δ := by
  by_cases hpub : ∃ src msg, a = .publish src msg
  · obtain ⟨src, msg, rfl⟩ := hpub
    rw [hkeep (by simp)]
    obtain ⟨rfl, rfl⟩ := exec_publish h
    refine ⟨if key msg = some x then 1 else 0, ?_, ?_⟩
    · rw [carried_append]
    · rw [weight_deliver (fun sub' hsub => if_neg fun h => hsub h.1), hs]
      by_cases hx : key msg = some x
      · simp [undelivered, hx, hkey msg (by simp [hx])]
      · simp [undelivered, hx]
  · have hpub : ∀ src msg, a ≠ .publish src msg := fun src msg ha => hpub ⟨src, msg, ha⟩
    have hw : weight (undelivered sub key x) k = 0 := by
      refine weight_eq_zero_of_not_publish (fun b hb => ?_) h hpub
      cases b <;> first | rfl | exact absurd rfl (hb _ _)
    refine ⟨0, by rw [(exec_frame h).log hpub, add_zero], ?_⟩
    rw [hw]
    by_cases hdel : ∃ msg, a = .deliver sub msg
    · obtain ⟨msg, rfl⟩ := hdel
      have hgot := hcall s msg w
      rw [exec_deliver hlive h] at hgot
      rw [hgot, List.count_append, count_toList]
      simp [undelivered]
    · have hdel : ∀ msg, a ≠ .deliver sub msg := fun msg ha => hdel ⟨msg, ha⟩
      have ha : undelivered sub key x a = 0 := by
        cases a <;> first | rfl | skip
        exact if_neg fun h => hdel _ (by rw [h.1])
      rw [hkeep hdel, ha]

/-- A message the statistics are told about is a `PacketRx`, a terminal message or an idle poll. -/
theorem stats?_terminal (msg : Message) : msg.stats?.bind StatsMessage.terminal? = msg.terminal? := by
  obtain ⟨type, t, payload⟩ := msg
  cases type <;> cases payload <;> rfl

theorem stats?_packetRx (msg : Message) : msg.stats?.bind StatsMessage.packetRx? = msg.packetRx? := by
  obtain ⟨type, t, payload⟩ := msg
  cases type <;> cases payload <;> rfl

/-- `PacketStats` subscribes to the messages it has handlers for. -/
theorem type_of_stats? {msg : Message} (h : msg.stats? ≠ none) :
    msg.type ∈ Subscriber.types .packetStats := by
  unfold Message.stats? at h
  split at h
  all_goals first | exact absurd rfl h | simp_all [Subscriber.types]

/-- `PacketStats` counts what its callback is given. -/
theorem counted_callback (s : Runtime) (msg : Message) (w : Env) :
    (s.callback msg w .packetStats).1.counted = s.counted ++ msg.stats?.toList := by
  simp only [callback]
  cases msg.stats? <;> simp

def rxId? (msg : Message) : Option UInt64 := msg.packetRx?.map Packet.lifecycle_id

/-- An action gives `PacketStats` one message or none. -/
theorem exec_stats (hlive : s.destroyed = []) (h : exec a w s = some (s', k)) :
    (s'.stats = s.stats ∧ s'.counted = s.counted) ∨
      ∃ m, s'.stats = s.stats.onMessage w.now_ns m ∧ s'.counted = s.counted ++ [m] := by
  by_cases hdel : ∃ msg, a = .deliver .packetStats msg
  · obtain ⟨msg, rfl⟩ := hdel
    have hcall := exec_deliver hlive h
    simp only [callback] at hcall
    split at hcall <;> cases hcall
    · exact Or.inr ⟨_, rfl, rfl⟩
    · exact Or.inl ⟨rfl, rfl⟩
  · exact Or.inl ((exec_frame h).stats fun msg ha => hdel ⟨msg, ha⟩)

/-- Every `PacketRx` reaches the processor once, and every message the statistics subscribe to is
counted once. -/
structure Delivered (c : Config Runtime Action) : Prop where
  processor : ∀ L, (carried rxId? c.shared.log).count L =
    (c.shared.taken.map Packet.lifecycle_id).count L +
      c.load (undelivered .packetProcessor rxId? L)
  stats : ∀ m, (carried Message.stats? c.shared.log).count m =
    c.shared.counted.count m + c.load (undelivered .packetStats Message.stats? m)
  counts : c.shared.stats.Counts c.shared.counted

theorem Delivered.step (hs : Wired subs) (hsubs : c.shared.subscribers = subs)
    (hlive : c.shared.destroyed = []) (hc : Delivered c) (h : Step program c a d) : Delivered d := by
  obtain ⟨o, k, he, hr⟩ := step_spec h
  have hframe := exec_frame he
  refine ⟨fun L => ?_, fun m => ?_, ?_⟩
  · have hcall : ∀ (s : Runtime) msg w,
        (s.callback msg w .packetProcessor).1.taken.map Packet.lifecycle_id =
          s.taken.map Packet.lifecycle_id ++ (rxId? msg).toList := by
      intro s msg w
      simp only [callback]
      cases hp : msg.packetRx? <;> simp [rxId?, hp]
    obtain ⟨δ, hf, hg⟩ := exec_delivered .packetProcessor rxId?
      (fun s => s.taken.map Packet.lifecycle_id)
      (fun msg h => type_of_packetRx? fun hn => h (by rw [rxId?, hn]; rfl)) hcall
      (fun hdel => by rw [hframe.taken hdel]) (hsubs ▸ hs.packetProcessor) hlive he L
    exact hr.balance (hc.processor L) hf hg
  · obtain ⟨δ, hf, hg⟩ := exec_delivered .packetStats Message.stats? counted
      (fun msg => type_of_stats?) counted_callback (fun hdel => (hframe.stats hdel).2)
      (hsubs ▸ hs.packetStats) hlive he m
    exact hr.balance (hc.stats m) hf hg
  · rcases exec_stats hlive he with ⟨hstats, hcounted⟩ | ⟨m, hstats, hcounted⟩
    · rw [hstats, hcounted]
      exact hc.counts
    · rw [hstats, hcounted]
      exact hc.counts.onMessage _ _

/-- Nothing is on its way at the start, when no thread begins in a dispatch. -/
theorem delivered_start {cfg : FailureConfig} {engine : Option SwitchForwardingEngine}
    {transport : Option TransportManager} {callers : List (List Action)}
    (h : ∀ t ∈ callers, ∀ a ∈ t, ∀ sub msg, a ≠ .deliver sub msg) :
    Delivered (start (initial subs cfg engine transport) callers) := by
  have hload : ∀ {β : Type} [DecidableEq β] (sub : Subscriber) (key : Message → Option β) (x : β),
      (start (initial subs cfg engine transport) callers).load (undelivered sub key x) = 0 := by
    intro β _ sub key x
    refine load_eq_zero fun t ht a ha => ?_
    rcases List.mem_cons.1 ht with rfl | ht
    · rw [List.mem_singleton.1 ha]
      rfl
    · cases a <;> first | rfl | exact absurd rfl (h t ht _ ha _ _)
  exact ⟨fun L => by rw [hload]; rfl, fun m => by rw [hload]; rfl, PacketStats.counts_nil⟩

end Delivery

/-! ## Lifecycle ids -/

/-- The lifecycle a `PacketRx` or a terminal message is about. -/
def lifecycle? (msg : Message) : Option UInt64 :=
  (rxId? msg).or (msg.terminal?.map Terminal.lifecycle_id)

/-- The lifecycles of the messages the producers have published. -/
def producedIds (log : List (Source × Message)) : List UInt64 :=
  log.filterMap fun x =>
    match x.1 with
    | .receiver _ | .control _ => lifecycle? x.2
    | _ => none

/-- The lifecycle `L` in a message that a producer is about to publish, or in a command. -/
def upcoming (L : UInt64) : Action → ℕ
  | .publish (.receiver _) msg | .publish (.control _) msg => if lifecycle? msg = some L then 1 else 0
  | .publishSynthetic _ p => if p.id = L then 1 else 0
  | .sendPacket arg => ((handleSendPacket arg).map SyntheticPacket.id).count L
  | _ => 0

/-- A datagram that has not been handled. -/
def unread : Action → ℕ
  | .handleReadable (.datagram _) => 1
  | _ => 0

/-- The first `n` ids of the generator. -/
def generated (n : ℕ) : List UInt64 := (List.range n).map fun i => UInt64.ofNat (i + 1)

theorem generated_succ (n : ℕ) : generated (n + 1) = generated n ++ [UInt64.ofNat (n + 1)] := by
  simp [generated, List.range_succ]

/-- What a datagram is published as depends on nothing but its bytes. -/
theorem datagramMessage_ids (d : Datagram) (id : UInt64) (clock : ReadClock) :
    rxId? (UdpReceiver.datagramMessage d id clock) =
        (if UdpReceiver.accepts d then some id else none) ∧
      (UdpReceiver.datagramMessage d id clock).terminal?.map Terminal.lifecycle_id =
        if UdpReceiver.accepts d then none else some id := by
  have hv : (UdpReceiver.receivedPacket d id clock).valid =
      (parsePacket (d.data.take UdpReceiver.bufferSize)).valid := rfl
  have hval : PacketValidator.validate (UdpReceiver.receivedPacket d id clock) =
      PacketValidator.validate (UdpReceiver.receivedPacket d 0 {}) := rfl
  simp only [UdpReceiver.datagramMessage, UdpReceiver.accepts, hv, hval]
  rcases Bool.eq_false_or_eq_true
      (parsePacket (d.data.take UdpReceiver.bufferSize)).valid with hp | hp <;>
    rcases Bool.eq_false_or_eq_true
      (PacketValidator.validate (UdpReceiver.receivedPacket d 0 {})).accepted with hq | hq <;>
    simp only [hp, hq, Bool.not_true, Bool.not_false, Bool.and_self, Bool.and_false,
      Bool.and_true, Bool.false_eq_true, if_true, if_false] <;>
    exact ⟨rfl, rfl⟩

theorem lifecycle?_datagramMessage (d : Datagram) (id : UInt64) (clock : ReadClock) :
    lifecycle? (UdpReceiver.datagramMessage d id clock) = some id := by
  obtain ⟨hrx, hterm⟩ := datagramMessage_ids d id clock
  rw [lifecycle?, hrx, hterm]
  cases UdpReceiver.accepts d <;> rfl

/-- The addresses in the commands parse. -/
theorem publishSyntheticPacket_spec {arg : Bytes} {p : SyntheticPacket}
    (hp : p ∈ handleSendPacket arg) (t : UInt64) : ∃ msg, publishSyntheticPacket p t = some msg ∧
      rxId? msg = some p.id ∧ msg.terminal? = none := by
  unfold handleSendPacket at hp
  split_ifs at hp <;>
    simp only [List.mem_cons, List.not_mem_nil, or_false] at hp
  · subst hp
    exact ⟨_, rfl, rfl, rfl⟩
  · rcases hp with rfl | rfl <;> exact ⟨_, rfl, rfl, rfl⟩
  · rcases hp with rfl | rfl | rfl | rfl | rfl <;> exact ⟨_, rfl, rfl, rfl⟩

theorem producedIds_append (log : List (Source × Message)) (src : Source) (msg : Message)
    (L : UInt64) : (producedIds (log ++ [(src, msg)])).count L =
      (producedIds log).count L + upcoming L (.publish src msg) := by
  have happ : producedIds (log ++ [(src, msg)]) = producedIds log ++
      (match src with
        | .receiver _ | .control _ => lifecycle? msg
        | _ => none).toList := by
    rw [producedIds, List.filterMap_append]
    congr 1
  rw [happ, List.count_append, count_toList]
  cases src <;> simp [upcoming]

/-- What one action does to the ids: `n` is the number of ids it takes from the generator. -/
theorem exec_issued (ha : OfIngress a) (h : exec a w s = some (s', k)) {g : ℕ}
    (hg : s.lifecycle_gen = UInt64.ofNat (g + 1)) : ∃ n,
    s'.lifecycle_gen = UInt64.ofNat (g + n + 1) ∧ n + weight unread k = unread a ∧
    ∀ L, (producedIds s'.log).count L + weight (upcoming L) k + (generated g).count L =
      (producedIds s.log).count L + upcoming L a + (generated (g + n)).count L := by
  have hframe := exec_frame h
  have hleaves := exec_leaves h
  have hunread : weight unread k = 0 := weight_eq_zero fun b hb => by
    have := hleaves b hb
    cases b <;> first | rfl | skip
    cases a <;> first | exact this.elim | skip
    rename_i sub msg
    cases sub <;> exact this.elim
  -- the actions that take no id and publish for no producer
  have hquiet : (∀ recv, a ≠ .handleReadable recv) → (∀ src msg, a ≠ .publish src msg) →
      (∀ L, weight (upcoming L) k = upcoming L a) → ∃ n,
      s'.lifecycle_gen = UInt64.ofNat (g + n + 1) ∧ n + weight unread k = unread a ∧
      ∀ L, (producedIds s'.log).count L + weight (upcoming L) k + (generated g).count L =
        (producedIds s.log).count L + upcoming L a + (generated (g + n)).count L := by
    intro hread hpub hw
    refine ⟨0, by rw [hframe.lifecycle_gen hread, hg, add_zero], ?_, fun L => ?_⟩
    · rw [hunread]
      cases a <;> first | rfl | exact absurd rfl (hread _)
    · rw [hframe.log hpub, hw, add_zero]
  cases a with
  | publish src msg =>
    obtain ⟨rfl, rfl⟩ := exec_publish h
    refine ⟨0, hg, by rw [hunread]; rfl, fun L => ?_⟩
    have hw : weight (upcoming L) ((s.subscribers.filter fun sub => msg.type ∈ sub.types).map
        (.deliver · msg)) = 0 := by
      refine weight_eq_zero fun b hb => ?_
      obtain ⟨sub, -, rfl⟩ := List.mem_map.1 hb
      rfl
    rw [hw, producedIds_append]
    rfl
  | handleReadable recv =>
    cases recv with
    | datagram d =>
      cases h
      refine ⟨1, ?_, ?_, fun L => ?_⟩
      · rw [UInt64.ofNat_add, ← hg]
        rfl
      · rw [hunread]
        rfl
      · rw [generated_succ, List.count_append, ← hg]
        simp [upcoming, lifecycle?_datagramMessage, List.count_singleton]
        omega
    | _ =>
      cases h
      exact ⟨0, hg, rfl, fun L => rfl⟩
  | sendPacket arg =>
    refine hquiet (by simp) (by simp) fun L => ?_
    cases h
    simp only [upcoming]
    induction handleSendPacket arg with
    | nil => rfl
    | cons p l ih => 
      rw [List.map_cons, weight_cons, ih, List.map_cons, List.count_cons]
      simp [upcoming, add_comm]
  | publishSynthetic arg p =>
    refine hquiet (by simp) (by simp) fun L => ?_
    obtain ⟨msg, hmsg, hrx, -⟩ := publishSyntheticPacket_spec ha w.now_ms
    simp only [exec, hmsg, Option.some.injEq, Prod.mk.injEq] at h
    rw [← h.2]
    simp [upcoming, lifecycle?, hrx]
  | deliver sub msg =>
    refine hquiet (by simp) (by simp) fun L => weight_eq_zero fun b hb => ?_
    have hlb := hleaves b hb
    cases sub <;> cases b <;> first | rfl | exact hlb.elim | exact ha.elim
  | inject p | enqueue p t | processPacket p | replay records =>
    refine hquiet (by simp) (by simp) fun L => weight_eq_zero fun b hb => ?_
    have hlb := hleaves b hb
    cases b <;> first | rfl | exact hlb.elim | skip
    rename_i src msg
    cases src <;> first | rfl | exact hlb.elim
  | _ =>
    refine hquiet (by simp) (by simp) fun L => weight_eq_zero fun b hb => ?_
    have hlb := hleaves b hb
    cases b <;> first | rfl | exact hlb.elim

/-- The ids that the producers have published, or are about to publish, are those the generator has
handed out and those of the commands. -/
def Issued (requests : List Request) (c : Config Runtime Action) : Prop :=
  ∃ g, c.shared.lifecycle_gen = UInt64.ofNat (g + 1) ∧
    requests.countP Request.isDatagram = g + c.load unread ∧
    ∀ L, (generated g).count L + (requests.flatMap Request.chosenIds).count L =
      (producedIds c.shared.log).count L + c.load (upcoming L)

theorem Issued.step {requests : List Request} (ha : OfIngress a) (hc : Issued requests c)
    (h : Step program c a d) : Issued requests d := by
  obtain ⟨g, hgen, hread, hids⟩ := hc
  obtain ⟨o, k, he, hr⟩ := step_spec h
  obtain ⟨n, hgen', hread', hids'⟩ := exec_issued ha he hgen
  refine ⟨g + n, hgen', ?_, fun L => ?_⟩
  · obtain ⟨x, hlc, hld⟩ := hr.load unread
    omega
  · obtain ⟨x, hlc, hld⟩ := hr.load (upcoming L)
    have := hids L
    have := hids' L
    omega

end Runtime

end EdgeNetSwitch
