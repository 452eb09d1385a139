import EdgeNetSwitch.Messaging.MessagingBus

/-!
# What the bus delivers

The purpose of `MessagingBus`, stated over the calls begun in a run and its history, and the use of its mutex.
-/

namespace EdgeNetSwitch

open Threads

variable {α : Type*}

/-- The call of `publish` an event is about. -/
def BusEvent.id? : BusEvent α → Option ℕ
  | .subscribed _ _ => none
  | .copied id _ | .invoked id _ _ | .returned id => some id

/-- The thread holds the mutex until it has done the action. -/
def BusAction.Holds : BusAction α → Prop
  | .pushBack _ _ | .copy _ _ | .unlock => True
  | .call _ | .dispatch _ _ _ => False

instance : DecidablePred (BusAction.Holds (α := α))
  | .pushBack _ _ | .copy _ _ | .unlock => isTrue trivial
  | .call _ | .dispatch _ _ _ => isFalse not_false

/-- The message of a call of `publish` that begins. -/
def BusAction.publishes? : BusAction α → Option Message
  | .call (.publish message) => some message
  | _ => none

/-- The type and the callback of a call of `subscribe` that begins. -/
def BusAction.subscribes? : BusAction α → Option (MessageType × α)
  | .call (.subscribe type callback) => some (type, callback)
  | _ => none

/-- The subscription an event is about. -/
def BusEvent.subscribed? : BusEvent α → Option (MessageType × α)
  | .subscribed type callback => some (type, callback)
  | _ => none

namespace MessagingBus

/-- The messages of the calls of `publish` that were begun, in order. The number of a call is its place. -/
def publishCalls (tr : List (MessagingBus α × BusAction α)) : List Message :=
  tr.filterMap fun x => x.2.publishes?

/-- What the calls of `subscribe` that were begun are to register, in order. -/
def subscribeCalls (tr : List (MessagingBus α × BusAction α)) : List (MessageType × α) :=
  tr.filterMap fun x => x.2.subscribes?

/-- What was registered, in order. -/
def subscriptions (history : List (BusEvent α)) : List (MessageType × α) :=
  history.filterMap BusEvent.subscribed?

/-- The events of one call of `publish`. -/
def ofCall (id : ℕ) (history : List (BusEvent α)) : List (BusEvent α) :=
  history.filter fun event => event.id? = some id

/-- The callbacks registered for a type, in the order of the subscriptions. -/
def registered (history : List (BusEvent α)) (type : MessageType) : List α :=
  history.filterMap fun event =>
    match event with
    | .subscribed type' callback => if type' = type then some callback else none
    | _ => none

/-- A call of `publish` has copied the list and invoked the callbacks `done`, in order; `todo` are the
others that were registered when it copied the list. -/
def Dispatching (history : List (BusEvent α)) (id : ℕ) (message : Message) (done todo : List α) :
    Prop :=
  ∃ before after, history = before ++ .copied id message :: after ∧
    done ++ todo = registered before message.type ∧
    ofCall id history = .copied id message :: done.map (.invoked id message)

/-- A call of `publish` has invoked the callbacks that were registered when it copied the list, each of
them once and in order, and then returned. -/
def Returned (history : List (BusEvent α)) (id : ℕ) (message : Message) : Prop :=
  ∃ before after, history = before ++ .copied id message :: after ∧
    ofCall id history = .copied id message ::
      (registered before message.type).map (.invoked id message) ++ [.returned id]

/-- Every call of `publish` copies the list for its message, delivers to those registered when it did, and then
returns; every call of `subscribe` adds its callback; and no thread invokes a callback or waits for the mutex while it
holds the mutex. -/
structure Delivers (tr : List (MessagingBus α × BusAction α)) (c : Config (MessagingBus α) (BusAction α)) :
    Prop where
  subscribers : ∀ type, c.shared.subscribers type = registered c.shared.history type
  subscriptions : subscribeCalls tr = subscriptions c.shared.history ∨
    ∃ type callback, subscribeCalls tr = subscriptions c.shared.history ++ [(type, callback)] ∧
      c.Pending (· = .pushBack type callback)
  /-- A call of `publish` waits to copy the list, or to invoke some of the callbacks, or has returned. -/
  calls : ∀ id message, (publishCalls tr)[id]? = some message →
    (ofCall id c.shared.history = [] ∧ c.Pending (· = .copy id message)) ∨
    (∃ done todo, Dispatching c.shared.history id message done todo ∧
      c.Pending (· = .dispatch id message todo)) ∨
    Returned c.shared.history id message
  /-- A call that was not begun has done nothing. -/
  fresh : ∀ id, (publishCalls tr).length ≤ id → ofCall id c.shared.history = []
  invokes : ∀ t ∈ c.threads, ∀ id message callbacks rest, t = .dispatch id message callbacks :: rest →
    ∀ b ∈ t, ¬ b.Holds
  waits : ∀ t ∈ c.threads, ∀ call rest, t = .call call :: rest → ∀ b ∈ t, ¬ b.Holds
  /-- The thread that holds the mutex can go on, and without one every thread can. -/
  progress : ∀ t ∈ c.threads, ∀ a rest, t = a :: rest →
    (∃ d, Step program c a d) ∨ ∃ b d, b.Holds ∧ Step program c b d

end MessagingBus

end EdgeNetSwitch
