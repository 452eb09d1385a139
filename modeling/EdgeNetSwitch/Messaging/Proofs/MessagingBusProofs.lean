import EdgeNetSwitch.Messaging.Delivery
import EdgeNetSwitch.Threads.ExclusiveUse

/-!
# Proofs: the bus delivers

What a call of `publish` still has to do is one pending action (`doing`), which with the history of the
call makes up the list it copied (`Kept`). The mutex is held by the thread whose next action is one under
the mutex, and by no other (`Locked`); so one call of `subscribe` at most is about to register its callback
(`Registering`).
-/

namespace EdgeNetSwitch

namespace MessagingBus

open Threads

variable {α : Type*} {s s' : MessagingBus α} {a : BusAction α} {k : List (BusAction α)}
  {w : List (BusCall α)} {c d : Config (MessagingBus α) (BusAction α)} {h : List (BusEvent α)}
  {e : BusEvent α} {id : ℕ} {m : Message} {done todo : List α} {messages : List Message}
  {tr : List (MessagingBus α × BusAction α)}

/-! ## Histories -/

theorem ofCall_append (id : ℕ) (h : List (BusEvent α)) (e : BusEvent α) :
    ofCall id (h ++ [e]) = ofCall id h ++ if e.id? = some id then [e] else [] := by
  rw [ofCall, ofCall, List.filter_append, List.filter_singleton]
  by_cases he : e.id? = some id <;> simp [he]

theorem ofCall_append_of_eq (he : e.id? = some id) : ofCall id (h ++ [e]) = ofCall id h ++ [e] := by
  rw [ofCall_append, if_pos he]

theorem ofCall_append_of_ne (he : e.id? ≠ some id) : ofCall id (h ++ [e]) = ofCall id h := by
  rw [ofCall_append, if_neg he, List.append_nil]

theorem Dispatching.append (hd : Dispatching h id m done todo) (he : e.id? ≠ some id) :
    Dispatching (h ++ [e]) id m done todo := by
  obtain ⟨before, after, rfl, hall, hof⟩ := hd
  exact ⟨before, after ++ [e], by simp, hall, (ofCall_append_of_ne he).trans hof⟩

theorem Returned.append (hr : Returned h id m) (he : e.id? ≠ some id) : Returned (h ++ [e]) id m := by
  obtain ⟨before, after, rfl, hof⟩ := hr
  exact ⟨before, after ++ [e], by simp, (ofCall_append_of_ne he).trans hof⟩

theorem Dispatching.copied {subscribers : List α} (hnone : ofCall id h = [])
    (hs : subscribers = registered h m.type) :
    Dispatching (h ++ [.copied id m]) id m [] subscribers := by
  refine ⟨h, [], rfl, hs, ?_⟩
  rw [ofCall_append_of_eq rfl, hnone]
  rfl

theorem Dispatching.invoked {callback : α} (hd : Dispatching h id m done (callback :: todo)) :
    Dispatching (h ++ [.invoked id m callback]) id m (done ++ [callback]) todo := by
  obtain ⟨before, after, rfl, hall, hof⟩ := hd
  refine ⟨before, after ++ [.invoked id m callback], by simp, ?_, ?_⟩
  · rw [List.append_assoc]
    exact hall
  · rw [ofCall_append_of_eq rfl, hof, List.map_append]
    rfl

theorem Dispatching.returned (hd : Dispatching h id m done []) :
    Returned (h ++ [.returned id]) id m := by
  obtain ⟨before, after, rfl, hall, hof⟩ := hd
  refine ⟨before, after ++ [.returned id], by simp, ?_⟩
  rw [ofCall_append_of_eq rfl, hof, ← hall, List.append_nil]

/-! ## The calls of `publish` -/

/-- The action is a step of the call. -/
def Serves (id : ℕ) : BusAction α → Prop
  | .copy id' _ | .dispatch id' _ _ => id' = id
  | _ => False

instance (id : ℕ) : DecidablePred (Serves (α := α) id)
  | .copy id' _ | .dispatch id' _ _ => inferInstanceAs (Decidable (id' = id))
  | .call _ | .pushBack _ _ | .unlock => isFalse not_false

@[simp] theorem serves_copy (id id' : ℕ) (m : Message) :
    Serves id (.copy id' m : BusAction α) ↔ id' = id := Iff.rfl

@[simp] theorem serves_dispatch (id id' : ℕ) (m : Message) (todo : List α) :
    Serves id (.dispatch id' m todo) ↔ id' = id := Iff.rfl

@[simp] theorem not_serves_call (id : ℕ) (call : BusCall α) : ¬ Serves id (.call call) := not_false

@[simp] theorem not_serves_unlock (id : ℕ) : ¬ Serves id (.unlock : BusAction α) := not_false

/-- The call a step begins or serves. -/
def Touches (s : MessagingBus α) (a : BusAction α) (id : ℕ) : Prop :=
  match a with
  | .call (.publish _) => id = s.calls
  | .copy id' _ | .dispatch id' _ _ => id = id'
  | _ => False

instance (s : MessagingBus α) : (a : BusAction α) → DecidablePred (Touches s a)
  | .call (.publish _), id => inferInstanceAs (Decidable (id = s.calls))
  | .copy id' _, id | .dispatch id' _ _, id => inferInstanceAs (Decidable (id = id'))
  | .call (.subscribe _ _), _ | .pushBack _ _, _ | .unlock, _ => isFalse not_false

/-- What is known of a call from its message, if it was begun, and from what it is doing. -/
def CallOk (h : List (BusEvent α)) (id : ℕ) (message : Option Message) : Option (BusAction α) → Prop
  | none => message = none ∧ ofCall id h = [] ∨ ∃ m, message = some m ∧ Returned h id m
  | some (.copy _ m) => message = some m ∧ ofCall id h = []
  | some (.dispatch _ m todo) => message = some m ∧ ∃ done, Dispatching h id m done todo
  | some _ => False

/-- What is known of the calls of `publish` for `messages`. -/
structure Kept (s : MessagingBus α) (messages : List Message) (doing : ℕ → Option (BusAction α)) : Prop where
  subscribers : ∀ type, s.subscribers type = registered s.history type
  calls : s.calls = messages.length
  callOk : ∀ id, CallOk s.history id messages[id]? (doing id)

variable {doing : ℕ → Option (BusAction α)} {b : Option (BusAction α)}

theorem CallOk.append {message : Option Message} (hb : CallOk h id message b) (he : e.id? ≠ some id) :
    CallOk (h ++ [e]) id message b := by
  cases b with
  | none =>
    rcases hb with ⟨hmessage, hb⟩ | ⟨m, hmessage, hb⟩
    · exact Or.inl ⟨hmessage, (ofCall_append_of_ne he).trans hb⟩
    · exact Or.inr ⟨m, hmessage, hb.append he⟩
  | some a =>
    cases a with
    | copy => exact ⟨hb.1, (ofCall_append_of_ne he).trans hb.2⟩
    | dispatch id' m todo =>
      obtain ⟨hmessage, done, hd⟩ := hb
      exact ⟨hmessage, done, hd.append he⟩
    | _ => exact hb.elim

/-- A call that was not begun does nothing and has done nothing. -/
theorem CallOk.fresh (hb : CallOk h id none b) : b = none ∧ ofCall id h = [] := by
  cases b with
  | none =>
    rcases hb with ⟨-, hb⟩ | ⟨m, hmessage, -⟩
    · exact ⟨rfl, hb⟩
    · cases hmessage
  | some a =>
    cases a with
    | copy | dispatch => cases hb.1
    | _ => exact hb.elim

theorem Kept.fresh (hs : Kept s messages doing) (hle : s.calls ≤ id) :
    doing id = none ∧ ofCall id s.history = [] := by
  have hok := hs.callOk id
  rw [List.getElem?_eq_none (hs.calls ▸ hle)] at hok
  exact hok.fresh

theorem registered_append (h : List (BusEvent α)) (e : BusEvent α) (type : MessageType) :
    registered (h ++ [e]) type = registered h type ++ registered [e] type := List.filterMap_append

/-- A step of a call is about that call only, and registers nothing. -/
theorem Kept.event {doing' : ℕ → Option (BusAction α)} (hs : Kept s messages doing) (hid : e.id? = some id)
    (hsubscribers : s'.subscribers = s.subscribers) (hcalls : s'.calls = s.calls)
    (hhistory : s'.history = s.history ++ [e]) (hdoing : ∀ id', id' ≠ id → doing' id' = doing id')
    (hok : CallOk (s.history ++ [e]) id messages[id]? (doing' id)) : Kept s' messages doing' := by
  have hnone : ∀ type, registered [e] type = [] := by
    intro type
    cases e with
    | subscribed => cases hid
    | copied | invoked | returned => rfl
  refine ⟨fun type => ?_, hcalls.trans hs.calls, fun id' => ?_⟩
  · rw [hsubscribers, hhistory, registered_append, hnone, List.append_nil]
    exact hs.subscribers type
  · rw [hhistory]
    by_cases h : id' = id
    · subst h
      exact hok
    · have he : e.id? ≠ some id' := fun he => h (Option.some.inj (he.symm.trans hid))
      rw [hdoing id' h]
      exact (hs.callOk id').append he

/-- What the calls are doing after a step. -/
abbrev next (s : MessagingBus α) (a : BusAction α) (k : List (BusAction α))
    (doing : ℕ → Option (BusAction α)) : ℕ → Option (BusAction α) :=
  doingNext Serves (Touches s a) k doing

theorem next_of_touches (h : Touches s a id) :
    next s a k doing id = k.find? fun b => decide (Serves id b) := if_pos h

theorem next_of_not_touches (h : ¬ Touches s a id) : next s a k doing id = doing id := if_neg h

theorem find?_body (calls : List (BusCall α)) (id : ℕ) (m : Message) (todo : List α) :
    (calls.map BusAction.call ++ [BusAction.dispatch id m todo]).find?
      (fun b => decide (Serves id b)) = some (.dispatch id m todo) := by
  have hnone : (calls.map BusAction.call).find? (fun b => decide (Serves id b)) = none := by
    rw [List.find?_eq_none]
    intro b hb
    obtain ⟨call, -, rfl⟩ := List.mem_map.1 hb
    simp
  rw [List.find?_append, hnone]
  simp

theorem getElem?_concat_length (messages : List Message) (m : Message) (id : ℕ) :
    (messages ++ [m])[id]? = if id = messages.length then some m else messages[id]? := by
  split_ifs with hid
  · rw [hid, List.getElem?_concat_length]
  · rcases Nat.lt_or_gt_of_ne hid with hlt | hgt
    · exact List.getElem?_append_left hlt
    · rw [List.getElem?_eq_none, List.getElem?_eq_none hgt.le]
      rw [List.length_append, List.length_singleton]
      omega

theorem Kept.exec (hs : Kept s messages doing) (hserves : ∀ id, Serves id a → doing id = some a)
    (he : MessagingBus.exec a w s = some (s', k)) :
    Kept s' (messages ++ a.publishes?.toList) (next s a k doing) := by
  have hother : a.publishes? = none → messages ++ a.publishes?.toList = messages := by
    intro hnone
    rw [hnone, Option.toList_none, List.append_nil]
  cases a with
  | call call =>
    simp only [MessagingBus.exec] at he
    split_ifs at he
    cases call with
    | subscribe type callback =>
      cases he
      rw [hother rfl]
      exact ⟨hs.subscribers, hs.calls, hs.callOk⟩
    | publish m =>
      cases he
      refine ⟨hs.subscribers, ?_, fun id => ?_⟩
      · show s.calls + 1 = (messages ++ [m]).length
        rw [hs.calls, List.length_append, List.length_singleton]
      · show CallOk s.history id (messages ++ [m])[id]? _
        rw [getElem?_concat_length, ← hs.calls]
        by_cases hid : id = s.calls
        · have ht : Touches s (.call (.publish m)) id := hid
          have hnext : next s (.call (.publish m)) [.copy s.calls m] doing id = some (.copy s.calls m) := by
            rw [next_of_touches ht]
            simp [hid]
          rw [hnext, if_pos hid]
          exact ⟨rfl, (hs.fresh hid.ge).2⟩
        · have hnext : next s (.call (.publish m)) [.copy s.calls m] doing id = doing id :=
            next_of_not_touches hid
          rw [hnext, if_neg hid]
          exact hs.callOk id
  | pushBack type callback =>
    cases he
    rw [hother rfl]
    refine ⟨fun type' => ?_, hs.calls, fun id => (hs.callOk id).append nofun⟩
    rw [registered_append, ← hs.subscribers]
    by_cases htype : type' = type
    · subst htype
      simp [registered]
    · simp [registered, htype, Ne.symm htype]
  | unlock =>
    cases he
    rw [hother rfl]
    exact ⟨hs.subscribers, hs.calls, hs.callOk⟩
  | copy id m =>
    cases he
    rw [hother rfl]
    have hok := hs.callOk id
    rw [hserves id rfl] at hok
    obtain ⟨hmessage, hnone⟩ := hok
    set k : List (BusAction α) := [.unlock, .dispatch id m (s.subscribers m.type)]
    have hnext : next s (.copy id m) k doing id = some (.dispatch id m (s.subscribers m.type)) := by
      have ht : Touches s (.copy id m) id := rfl
      rw [next_of_touches ht]
      simp [k]
    refine hs.event (e := .copied id m) rfl rfl rfl rfl (fun id' hid => next_of_not_touches hid) ?_
    rw [hnext]
    exact ⟨hmessage, [], .copied hnone (hs.subscribers _)⟩
  | dispatch id m todo =>
    rw [hother rfl]
    have hok := hs.callOk id
    rw [hserves id rfl] at hok
    obtain ⟨hmessage, done, hd⟩ := hok
    cases todo with
    | nil =>
      cases he
      have hnext : next s (.dispatch id m []) [] doing id = none :=
        next_of_touches (a := .dispatch id m []) rfl
      refine hs.event (e := .returned id) rfl rfl rfl rfl (fun id' hid => next_of_not_touches hid) ?_
      rw [hnext]
      exact Or.inr ⟨m, hmessage, hd.returned⟩
    | cons callback todo =>
      cases he
      have hnext : next s (.dispatch id m (callback :: todo))
          (w.map .call ++ [.dispatch id m todo]) doing id = some (.dispatch id m todo) :=
        (next_of_touches (a := .dispatch id m (callback :: todo)) rfl).trans (find?_body w id m todo)
      refine hs.event (e := .invoked id m callback) rfl rfl rfl rfl (fun id' hid => next_of_not_touches hid) ?_
      rw [hnext]
      exact ⟨hmessage, done ++ [callback], hd.invoked⟩

/-! ## The mutex -/

/-- One thread holds the mutex when it is taken, and none otherwise; it is about to do a step under it. -/
structure Locked (c : Config (MessagingBus α) (BusAction α)) : Prop where
  load_eq : (c.load fun a => if a.Holds then 1 else 0) = if c.shared.mutex then 1 else 0
  heads : ∀ t ∈ c.threads, ∀ b ∈ t.tail, ¬ b.Holds

theorem not_holds_body {b : BusAction α} (calls : List (BusCall α)) (id : ℕ) (m : Message)
    (todo : List α) (hb : b ∈ calls.map BusAction.call ++ [BusAction.dispatch id m todo]) :
    ¬ b.Holds := by
  rcases List.mem_append.1 hb with hb | hb
  · obtain ⟨call, -, rfl⟩ := List.mem_map.1 hb
    exact not_false
  · rw [List.mem_singleton.1 hb]
    exact not_false

/-- Only the first action that a step leaves is one under the mutex. -/
theorem exec_heads (he : MessagingBus.exec a w s = some (s', k)) : ∀ b ∈ k.tail, ¬ b.Holds := by
  cases a with
  | call call =>
    simp only [MessagingBus.exec] at he
    split_ifs at he
    cases call <;> cases he <;> simp
  | copy id m =>
    cases he
    simp [BusAction.Holds]
  | pushBack | unlock =>
    cases he
    simp
  | dispatch id m todo =>
    cases todo with
    | nil =>
      cases he
      simp
    | cons callback todo =>
      cases he
      exact fun b hb => not_holds_body w id m todo (List.mem_of_mem_tail hb)

/-- The mutex is taken exactly when an action under it is left. -/
theorem exec_mutex (he : MessagingBus.exec a w s = some (s', k)) {l : ℕ}
    (hl : (if a.Holds then 1 else 0) + l = if s.mutex then 1 else 0) :
    weight (fun a : BusAction α => if a.Holds then 1 else 0) k + l = if s'.mutex then 1 else 0 := by
  cases a with
  | call call =>
    simp only [MessagingBus.exec] at he
    split_ifs at he with hmutex
    rw [if_neg hmutex] at hl
    cases call <;> cases he <;> simpa [BusAction.Holds, weight] using hl
  | pushBack | copy =>
    cases he
    simpa [BusAction.Holds, weight] using hl
  | unlock =>
    cases he
    cases hmutex : s.mutex with
    | false => simp [BusAction.Holds, hmutex] at hl
    | true => simpa [BusAction.Holds, weight, hmutex] using hl
  | dispatch id m todo =>
    cases todo with
    | nil =>
      cases he
      exact hl
    | cons callback todo =>
      cases he
      rw [weight_eq_zero fun b hb => if_neg (not_holds_body w id m todo hb)]
      exact hl

theorem Locked.step (hc : Locked c) (h : Step program c a d) : Locked d := by
  obtain ⟨w, k, he, hr⟩ := h.spec
  have hheads : c.Stacks fun t : List (BusAction α) => ∀ b ∈ t.tail, ¬ b.Holds := hc.heads
  refine ⟨?_, hr.stacks hheads fun rest ht b hb => ?_⟩
  · obtain ⟨l, hlc, hld⟩ := hr.load fun a : BusAction α => if a.Holds then 1 else 0
    rw [hld]
    exact exec_mutex he (hlc.symm.trans hc.load_eq)
  · -- what was below the action done is not under the mutex
    cases k with
    | nil => exact ht b (List.mem_of_mem_tail hb)
    | cons b' k =>
      rcases List.mem_append.1 hb with hb | hb
      · exact exec_heads he b hb
      · exact ht b hb

/-- A thread whose next action is not under the mutex does not hold it. -/
theorem Locked.not_holds (hc : Locked c) {rest : List (BusAction α)}
    (ht : a :: rest ∈ c.threads) (ha : ¬ a.Holds) : ∀ b ∈ a :: rest, ¬ b.Holds := by
  intro b hb
  rcases List.mem_cons.1 hb with rfl | hb
  · exact ha
  · exact hc.heads _ ht b hb

/-- Every action but a call can be done, and a call when the mutex is free. -/
theorem exec_isSome (s : MessagingBus α) (a : BusAction α)
    (ha : (∃ call, a = .call call) → s.mutex = false) :
    ∃ s' k, MessagingBus.exec a [] s = some (s', k) := by
  cases a with
  | call call =>
    have hmutex : ¬ s.mutex = true := by simp [ha ⟨call, rfl⟩]
    cases call <;> exact ⟨_, _, if_neg hmutex⟩
  | dispatch id m todo => cases todo <;> exact ⟨_, _, rfl⟩
  | _ => exact ⟨_, _, rfl⟩

/-- The first action of a thread can be done if `exec` gives a state for it. -/
theorem exists_step {rest : List (BusAction α)} (ht : a :: rest ∈ c.threads)
    (ha : (∃ call, a = .call call) → c.shared.mutex = false) : ∃ d, Step program c a d := by
  obtain ⟨s', k, he⟩ := exec_isSome c.shared a ha
  obtain ⟨pre, post, hc⟩ := List.append_of_mem ht
  obtain ⟨s, threads⟩ := c
  subst hc
  exact ⟨_, Step.run pre post he⟩

theorem Locked.progress (hc : Locked c) {rest : List (BusAction α)} (ht : a :: rest ∈ c.threads) :
    (∃ d, Step program c a d) ∨ ∃ b d, b.Holds ∧ Step program c b d := by
  cases hmutex : c.shared.mutex with
  | false => exact Or.inl (exists_step ht fun _ => hmutex)
  | true =>
    have hload := hc.load_eq
    rw [hmutex, if_pos rfl] at hload
    have hholder : c.Pending BusAction.Holds := by
      by_contra hnone
      rw [load_eq_zero fun t ht b hb => if_neg fun hb' => hnone ⟨t, ht, b, hb, hb'⟩] at hload
      cases hload
    obtain ⟨t, ht, b, hb, hholds⟩ := hholder
    cases t with
    | nil => cases hb
    | cons b' t =>
      rcases List.mem_cons.1 hb with rfl | hb
      · obtain ⟨d, hd⟩ := exists_step ht fun ⟨call, h⟩ => by rw [h] at hholds; exact hholds.elim
        exact Or.inr ⟨b, d, hholds, hd⟩
      · exact absurd hholds (hc.heads _ ht b hb)

/-! ## The calls of `subscribe` -/

/-- The callbacks registered are those of the calls begun, but for one that is about to be. -/
def Registering (tr : List (MessagingBus α × BusAction α)) (c : Config (MessagingBus α) (BusAction α)) : Prop :=
  (subscribeCalls tr = subscriptions c.shared.history ∧
    ∀ type callback, ¬ c.Pending (· = .pushBack type callback)) ∨
  ∃ type callback, subscribeCalls tr = subscriptions c.shared.history ++ [(type, callback)] ∧
    c.Pending (· = .pushBack type callback)

/-- A step begins a call of `subscribe`, registers a callback, or does neither. -/
theorem exec_registers (he : MessagingBus.exec a w s = some (s', k)) :
    (∃ type callback, a = .call (.subscribe type callback) ∧ s.mutex = false ∧ s'.history = s.history ∧
      k = [.pushBack type callback]) ∨
    (∃ type callback, a = .pushBack type callback ∧ s'.history = s.history ++ [.subscribed type callback] ∧
      k = [.unlock]) ∨
    a.subscribes? = none ∧ (∀ type callback, a ≠ .pushBack type callback) ∧
      subscriptions s'.history = subscriptions s.history ∧ ∀ type callback, .pushBack type callback ∉ k := by
  have hevent : ∀ e : BusEvent α, e.subscribed? = none →
      subscriptions (s.history ++ [e]) = subscriptions s.history := by
    intro e he
    rw [subscriptions, List.filterMap_append, List.filterMap_cons_none he]
    exact List.append_nil _
  cases a with
  | call call =>
    simp only [MessagingBus.exec] at he
    split_ifs at he with hmutex
    cases call with
    | subscribe type callback =>
      cases he
      exact Or.inl ⟨type, callback, rfl, Bool.not_eq_true _ ▸ hmutex, rfl, rfl⟩
    | publish m =>
      cases he
      exact Or.inr (Or.inr ⟨rfl, nofun, rfl, by simp⟩)
  | pushBack type callback =>
    cases he
    exact Or.inr (Or.inl ⟨type, callback, rfl, rfl, rfl⟩)
  | unlock =>
    cases he
    exact Or.inr (Or.inr ⟨rfl, nofun, rfl, by simp⟩)
  | copy id m =>
    cases he
    exact Or.inr (Or.inr ⟨rfl, nofun, hevent _ rfl, by simp⟩)
  | dispatch id m todo =>
    cases todo with
    | nil =>
      cases he
      exact Or.inr (Or.inr ⟨rfl, nofun, hevent _ rfl, by simp⟩)
    | cons callback todo =>
      cases he
      exact Or.inr (Or.inr ⟨rfl, nofun, hevent _ rfl, by simp⟩)

/-- When an action under the mutex is done, the others under the mutex are those it leaves. -/
theorem Locked.not_pending (hc : Locked c) (hr : Replaces a k c d) (ha : a.Holds) {p : BusAction α → Prop}
    (hp : ∀ b, p b → b.Holds) (hk : ∀ b ∈ k, ¬ p b) : ¬ d.Pending p := by
  intro hpending
  have hle : (c.load fun a => if a.Holds then 1 else 0) ≤ 1 := by
    rw [hc.load_eq]
    split_ifs <;> omega
  obtain ⟨b, hmem, hb⟩ := hr.token hle (if_pos ha) hpending fun b hb => by simp [hp b hb]
  exact hk b hmem hb

theorem subscribeCalls_append (tr : List (MessagingBus α × BusAction α)) (s : MessagingBus α)
    (a : BusAction α) : subscribeCalls (tr ++ [(s, a)]) = subscribeCalls tr ++ a.subscribes?.toList := by
  rw [subscribeCalls, List.filterMap_append]
  cases ha : a.subscribes? <;> simp [subscribeCalls, ha]

theorem Registering.step (hc : Registering tr c) (hlocked : Locked c) (h : Step program c a d) :
    Registering (tr ++ [(c.shared, a)]) d := by
  obtain ⟨w, k, he, hr⟩ := h.spec
  unfold Registering
  rw [subscribeCalls_append]
  rcases exec_registers he with ⟨type, callback, rfl, hmutex, hhistory, rfl⟩ |
    ⟨type, callback, rfl, hhistory, rfl⟩ | ⟨hnone, hne, hsame, hk⟩
  · -- the mutex was free, so no other callback is about to be registered
    rcases hc with ⟨heq, -⟩ | ⟨type', callback', -, t, ht, b, hb, rfl⟩
    · rw [heq, hhistory]
      exact Or.inr ⟨type, callback, rfl, hr.pending_of_mem List.mem_cons_self rfl⟩
    · have hload := hlocked.load_eq
      rw [hmutex] at hload
      have hpos : 0 < c.load fun a => if a.Holds then 1 else 0 :=
        load_pos ⟨t, ht, _, hb, by simp [BusAction.Holds]⟩
      rw [hload] at hpos
      cases hpos
  · rcases hc with ⟨-, hnone⟩ | ⟨type', callback', heq, hpending⟩
    · exact absurd hr.pending (hnone type callback)
    · have hpush : ∀ type' callback', ¬ d.Pending (· = .pushBack type' callback') := by
        intro type' callback'
        refine hlocked.not_pending hr trivial ?_ (by simp)
        rintro _ rfl
        trivial
      have hsame : BusAction.pushBack type callback = .pushBack type' callback' := by
        by_contra hne
        exact hpush type' callback' (hr.pending_mono hne hpending)
      cases hsame
      refine Or.inl ⟨?_, hpush⟩
      rw [heq, hhistory, subscriptions, subscriptions, List.filterMap_append]
      exact List.append_nil _
  · rw [hnone, hsame, Option.toList_none, List.append_nil]
    rcases hc with ⟨heq, hnot⟩ | ⟨type, callback, heq, hpending⟩
    · refine Or.inl ⟨heq, fun type callback => hr.not_pending (fun b hb hb' => ?_) (hnot type callback)⟩
      rw [hb'] at hb
      exact hk type callback hb
    · exact Or.inr ⟨type, callback, heq, hr.pending_mono (hne type callback) hpending⟩

/-! ## Every run -/

/-- The invariant of a run. -/
structure Tracked (tr : List (MessagingBus α × BusAction α)) (c : Config (MessagingBus α) (BusAction α)) :
    Prop where
  locked : Locked c
  registering : Registering tr c
  doing : ∃ doing, Tracks Serves doing c ∧ Kept c.shared (publishCalls tr) doing

theorem tracked_start (threads : List (List (BusCall α))) : Tracked [] (start threads) := by
  have hcall : ∀ t ∈ (start threads).threads, ∀ a ∈ t, ∃ call, a = .call call := by
    intro t ht a ha
    obtain ⟨calls, -, rfl⟩ := List.mem_map.1 ht
    obtain ⟨call, -, rfl⟩ := List.mem_map.1 ha
    exact ⟨call, rfl⟩
  have hholds : ∀ t ∈ (start threads).threads, ∀ a ∈ t, ¬ a.Holds := by
    intro t ht a ha
    obtain ⟨call, rfl⟩ := hcall t ht a ha
    exact not_false
  have hserves : ∀ id, ∀ t ∈ (start threads).threads, ∀ a ∈ t, ¬ Serves id a := by
    intro id t ht a ha
    obtain ⟨call, rfl⟩ := hcall t ht a ha
    exact not_false
  constructor
  case locked =>
    exact ⟨load_eq_zero fun t ht a ha => if_neg (hholds t ht a ha),
      fun t ht b hb => hholds t ht b (List.mem_of_mem_tail hb)⟩
  case registering =>
    refine Or.inl ⟨rfl, ?_⟩
    rintro type callback ⟨t, ht, _, hb, rfl⟩
    exact hholds t ht _ hb trivial
  case doing =>
    refine ⟨fun _ => none, ⟨fun id => ?_, fun id b => ⟨nofun, ?_⟩⟩, fun _ => rfl, rfl, fun _ => Or.inl ⟨rfl, rfl⟩⟩
    · rw [load_eq_zero fun t ht a ha => if_neg (hserves id t ht a ha)]
      exact Nat.zero_le _
    · rintro ⟨⟨t, ht, b', hb, rfl⟩, hs⟩
      exact absurd hs (hserves id t ht _ hb)

/-- What a step leaves of a call. -/
theorem exec_leaves (he : MessagingBus.exec a w s = some (s', k)) (id : ℕ) :
    k.countP (fun b => decide (Serves id b)) ≤ 1 ∧
      (¬ Touches s a id → ¬ Serves id a ∧ ∀ b ∈ k, ¬ Serves id b) := by
  cases a with
  | call call =>
    simp only [MessagingBus.exec] at he
    split_ifs at he
    cases call with
    | subscribe =>
      cases he
      exact ⟨List.countP_le_length, fun _ => ⟨not_false, by simp [Serves]⟩⟩
    | publish m =>
      cases he
      refine ⟨List.countP_le_length, fun hid => ⟨not_false, fun b hb => ?_⟩⟩
      rw [List.mem_singleton.1 hb]
      exact fun h => hid h.symm
  | pushBack | unlock =>
    cases he
    exact ⟨List.countP_le_length.trans (by simp), fun _ => ⟨not_false, by simp⟩⟩
  | copy id' m =>
    cases he
    refine ⟨?_, fun hid => ⟨fun h => hid h.symm, ?_⟩⟩
    · rw [List.countP_cons_of_neg (by simp)]
      exact List.countP_le_length
    · simpa using fun h => hid (Eq.symm h)
  | dispatch id' m todo =>
    cases todo with
    | nil =>
      cases he
      exact ⟨Nat.zero_le _, fun hid => ⟨fun h => hid h.symm, by simp⟩⟩
    | cons callback todo =>
      cases he
      have hcalls : (w.map BusAction.call).countP (fun b => decide (Serves id b)) = 0 :=
        List.countP_eq_zero.2 fun b hb => by
          obtain ⟨call, -, rfl⟩ := List.mem_map.1 hb
          simp
      refine ⟨?_, fun hid => ⟨fun h => hid h.symm, fun b hb => ?_⟩⟩
      · rw [List.countP_append, hcalls, Nat.zero_add]
        exact List.countP_le_length
      · rcases List.mem_append.1 hb with hb | hb
        · obtain ⟨call, -, rfl⟩ := List.mem_map.1 hb
          exact not_false
        · rw [List.mem_singleton.1 hb]
          exact fun h => hid h.symm

theorem publishCalls_append (tr : List (MessagingBus α × BusAction α)) (s : MessagingBus α)
    (a : BusAction α) : publishCalls (tr ++ [(s, a)]) = publishCalls tr ++ a.publishes?.toList := by
  rw [publishCalls, List.filterMap_append]
  cases ha : a.publishes? <;> simp [publishCalls, ha]

theorem Tracked.step (hc : Tracked tr c) (h : Step program c a d) : Tracked (tr ++ [(c.shared, a)]) d := by
  obtain ⟨doing, htracks, hkept⟩ := hc.doing
  obtain ⟨w, k, he, hr⟩ := h.spec
  have hserves : ∀ id, Serves id a → doing id = some a :=
    fun id hid => (htracks.doing_iff id a).2 ⟨hr.pending, hid⟩
  refine ⟨hc.locked.step h, hc.registering.step hc.locked h, next c.shared a k doing,
    htracks.step hr (fun id _ => (exec_leaves he id).1) (fun id hid => ?_)
      fun id hid => (exec_leaves he id).2 hid, ?_⟩
  · cases a with
    | call call =>
      cases call with
      | subscribe => exact hid.elim
      | publish m => exact Or.inl (hkept.fresh (le_of_eq hid.symm)).1
    | copy | dispatch => exact Or.inr (hserves id hid.symm)
    | pushBack | unlock => exact hid.elim
  · rw [publishCalls_append]
    exact hkept.exec hserves he

theorem Tracked.delivery (hc : Tracked tr c) : Delivers tr c := by
  obtain ⟨doing, htracks, hkept⟩ := hc.doing
  constructor
  case subscribers => exact hkept.subscribers
  case subscriptions =>
    rcases hc.registering with ⟨heq, -⟩ | hpending
    · exact Or.inl heq
    · exact Or.inr hpending
  case calls =>
    intro id m hm
    have hok := hkept.callOk id
    rw [hm] at hok
    cases hdoing : doing id with
    | none =>
      rw [hdoing] at hok
      rcases hok with ⟨hnone, -⟩ | ⟨m', hsome, hreturned⟩
      · cases hnone
      · cases hsome
        exact Or.inr (Or.inr hreturned)
    | some b =>
      rw [hdoing] at hok
      obtain ⟨hpending, hserves⟩ := (htracks.doing_iff id b).1 hdoing
      cases b with
      | copy id' m' =>
        obtain rfl : id' = id := hserves
        obtain ⟨hsome, hnone⟩ := hok
        cases hsome
        exact Or.inl ⟨hnone, hpending⟩
      | dispatch id' m' todo =>
        obtain rfl : id' = id := hserves
        obtain ⟨hsome, done, hd⟩ := hok
        cases hsome
        exact Or.inr (Or.inl ⟨done, todo, hd, hpending⟩)
      | _ => exact hok.elim
  case fresh =>
    intro id hle
    exact (hkept.fresh (hkept.calls ▸ hle)).2
  case invokes =>
    rintro t ht id m callbacks rest rfl
    exact hc.locked.not_holds ht not_false
  case waits =>
    rintro t ht call rest rfl
    exact hc.locked.not_holds ht not_false
  case progress =>
    rintro t ht a rest rfl
    exact hc.locked.progress ht

/-- The bus delivers in every state of every run. -/
theorem delivers (threads : List (List (BusCall α))) (h : Trace program (start threads) tr c) :
    Delivers tr c :=
  (h.invariant (I := Tracked) (tracked_start threads) fun _ _ _ _ hc hs => hc.step hs).delivery

/-- The first callback subscribes another one to the message it is invoked with, and publishes a second
message while it is. -/
theorem delivers_nested : ∃ tr c,
    Trace program (start [[.subscribe .packetRx 1, .publish ⟨.packetRx, 5, .monostate⟩],
      [.subscribe .packetDropped 2]]) tr c ∧
    c.threads = [[], []] ∧
    ofCall 0 c.shared.history =
      [.copied 0 ⟨.packetRx, 5, .monostate⟩, .invoked 0 ⟨.packetRx, 5, .monostate⟩ 1, .returned 0] ∧
    ofCall 1 c.shared.history = [.copied 1 ⟨.packetDropped, 6, .monostate⟩,
      .invoked 1 ⟨.packetDropped, 6, .monostate⟩ 2, .returned 1] ∧ Delivers tr c := by
  have hplay : ∃ c, play program anyStep
      [(0, []), (0, []), (0, []), (0, []), (0, []), (0, []), (1, []), (1, []), (1, []),
        (0, [.subscribe .packetRx 3, .publish ⟨.packetDropped, 6, .monostate⟩]), (0, []), (0, []),
        (0, []), (0, []), (0, []), (0, []), (0, []), (0, []), (0, [])]
      (start [[.subscribe .packetRx 1, .publish ⟨.packetRx, 5, .monostate⟩],
        [.subscribe .packetDropped 2]]) = some c ∧ c.threads = [[], []] ∧
      ofCall 0 c.shared.history =
        [.copied 0 ⟨.packetRx, 5, .monostate⟩, .invoked 0 ⟨.packetRx, 5, .monostate⟩ 1, .returned 0] ∧
      ofCall 1 c.shared.history = [.copied 1 ⟨.packetDropped, 6, .monostate⟩,
        .invoked 1 ⟨.packetDropped, 6, .monostate⟩ 2, .returned 1] := ⟨_, rfl, rfl, rfl, rfl⟩
  obtain ⟨c, hplay, hthreads, hzero, hone⟩ := hplay
  obtain ⟨tr, htr⟩ := (reaches_of_play hplay).trace
  exact ⟨tr, c, htr, hthreads, hzero, hone, delivers _ htr⟩

end MessagingBus

end EdgeNetSwitch
