import EdgeNetSwitch.Messaging.Message
import EdgeNetSwitch.Threads.Program

/-!
# The message bus

`MessagingBus` of `src/messaging/MessagingBus.cpp`, step by step: taking the mutex, changing or copying
the list of callbacks, giving the mutex up, and invoking one callback after the other. A callback may
call the bus itself; what it does is the answer of the environment. Callbacks return normally.

`calls` numbers the calls of `publish`, and `history` records what happened.
-/

namespace EdgeNetSwitch

open Threads

variable {α : Type*}

/-- A call of the bus; `α` is the type of the callbacks. -/
inductive BusCall (α : Type*) where
  | subscribe (type : MessageType) (callback : α)
  | publish (message : Message)
  deriving DecidableEq

inductive BusAction (α : Type*) where
  /-- Enter a function of the bus, and take the mutex. -/
  | call (call : BusCall α)
  /-- `subscribe`, under the mutex. -/
  | pushBack (type : MessageType) (callback : α)
  /-- `publish`, under the mutex. -/
  | copy (id : ℕ) (message : Message)
  | unlock
  /-- `publish`: the callbacks that have yet to be invoked. -/
  | dispatch (id : ℕ) (message : Message) (callbacks : List α)
  deriving DecidableEq

inductive BusEvent (α : Type*) where
  | subscribed (type : MessageType) (callback : α)
  | copied (id : ℕ) (message : Message)
  | invoked (id : ℕ) (message : Message) (callback : α)
  | returned (id : ℕ)
  deriving DecidableEq

structure MessagingBus (α : Type*) where
  subscribers : MessageType → List α := fun _ => []
  mutex : Bool := false
  calls : ℕ := 0
  history : List (BusEvent α) := []

namespace MessagingBus

/-- The environment answers with the calls the callback makes. -/
def exec : BusAction α → List (BusCall α) → MessagingBus α →
    Option (MessagingBus α × List (BusAction α))
  | .call call, _, s =>
    if s.mutex then none
    else
      match call with
      | .subscribe type callback => some ({ s with mutex := true }, [.pushBack type callback])
      | .publish message =>
        some ({ s with mutex := true, calls := s.calls + 1 }, [.copy s.calls message])
  | .pushBack type callback, _, s =>
    some ({ s with
      subscribers := Function.update s.subscribers type (s.subscribers type ++ [callback])
      history := s.history ++ [.subscribed type callback] }, [.unlock])
  | .copy id message, _, s =>
    some ({ s with history := s.history ++ [.copied id message] },
      [.unlock, .dispatch id message (s.subscribers message.type)])
  | .unlock, _, s => some ({ s with mutex := false }, [])
  | .dispatch id _ [], _, s => some ({ s with history := s.history ++ [.returned id] }, [])
  | .dispatch id message (callback :: callbacks), w, s =>
    some ({ s with history := s.history ++ [.invoked id message callback] },
      w.map .call ++ [.dispatch id message callbacks])

def program : Program (MessagingBus α) (BusAction α) (List (BusCall α)) where
  exec := exec

/-- Threads that call a new bus. -/
def start (threads : List (List (BusCall α))) : Config (MessagingBus α) (BusAction α) :=
  ⟨{}, threads.map (List.map .call)⟩

end MessagingBus

end EdgeNetSwitch
