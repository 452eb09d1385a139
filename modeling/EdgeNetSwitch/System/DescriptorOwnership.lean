import EdgeNetSwitch.System.FileDescriptor

/-!
# Who owns a descriptor

What is assumed of the runs of `FileDescriptor` objects, and what their ownership of descriptors and the
registry are meant to say about each other. An operation begins as a pending action of its own; once it
has begun, its next step is the pending action that uses its objects.
-/

namespace EdgeNetSwitch

open Threads

namespace FdAction

/-- The objects a step reads or writes. -/
def touches : FdAction → ℕ → Bool
  | .openFd _, _ | .closeFd _, _ => false
  | .moveConstruct i other, x | .moveAssign i other, x | .transfer i other, x => x = i || x = other
  | .unregisterFd i (.moveAssign other), x | .close i (.moveAssign other), x
  | .assign i (.moveAssign other), x => x = i || x = other
  | .construct i _ _ _, x | .release i, x | .reset i _ _, x | .destroy i, x | .registerFd i _ _, x
  | .releaseFd i, x | .unregisterFd i _, x | .close i _, x | .assign i _, x | .dispose i, x => x = i

/-- The first step of an operation, or one outside of all objects. -/
def begins : FdAction → Bool
  | .openFd _ | .closeFd _ | .construct .. | .moveConstruct .. | .moveAssign .. | .release _
  | .reset .. | .destroy _ => true
  | _ => false

/-- An operation in progress uses the object. -/
def Uses (x : ℕ) (a : FdAction) : Prop := a.begins = false ∧ a.touches x = true

instance (x : ℕ) : DecidablePred (Uses x) := fun a =>
  inferInstanceAs (Decidable (a.begins = false ∧ a.touches x = true))

/-- The object an operation in progress is one of. -/
def object : FdAction → Option ℕ
  | .registerFd i _ _ | .releaseFd i | .unregisterFd i _ | .close i _ | .assign i _ | .transfer i _
  | .dispose i => some i
  | _ => none

/-- The object has passed its number to `close`. -/
def HasClosed (i : ℕ) : FdAction → Prop
  | .assign i' _ => i' = i
  | _ => False

/-- The number has been passed to the object's `reset`. -/
def Passed (i : ℕ) (fd : ℤ) : FdAction → Prop
  | .unregisterFd i' op | .close i' op | .assign i' op => i' = i ∧ op.fd = fd
  | _ => False

end FdAction

namespace FdTable

/-- An object owns the number it holds, unless it has passed it to `close`, and the number passed to its
`reset`. -/
def Owns (c : Config FdTable FdAction) (i : ℕ) (fd : ℤ) : Prop :=
  0 ≤ fd ∧ (((∃ o, c.shared.objects i = some o ∧ o.fd = fd) ∧ ¬ c.Pending (FdAction.HasClosed i)) ∨
    c.Pending (FdAction.Passed i fd))

def Free (c : Config FdTable FdAction) (fd : ℤ) : Prop := ∀ i, ¬ Owns c i fd

def InUse (c : Config FdTable FdAction) (i : ℕ) : Prop := c.Pending (FdAction.Uses i)

/-- The number may be passed to an object. -/
def MayPass (c : Config FdTable FdAction) (fd : ℤ) : Prop :=
  0 ≤ fd → c.shared.descriptors fd ≠ none ∧ Free c fd

/-- What is assumed of a step: an operation begins when its objects are not in use, the numbers passed
are open and owned by no object, the system opens a number that is not open, and only the owner of a
number closes it. -/
def Assumed (c : Config FdTable FdAction) (a : FdAction) : Prop :=
  (a.begins = true → ∀ i, a.touches i = true → ¬ InUse c i) ∧
    match a with
    | .openFd fd => 0 ≤ fd ∧ c.shared.descriptors fd = none
    | .closeFd fd => Free c fd
    | .construct _ fd _ _ | .reset _ fd _ => MayPass c fd
    | _ => True

/-- There is an `Active` record of the number. -/
def Active (s : FdTable) (fd : ℤ) : Prop := ∃ record, s.records fd = some record ∧ record.state = .active

/-- Ownership and registry agree. -/
structure Agrees (c : Config FdTable FdAction) : Prop where
  /-- What is owned is open. -/
  isOpen : ∀ i fd, Owns c i fd → c.shared.descriptors fd ≠ none
  /-- Nothing has two owners. -/
  unique : ∀ i j fd, Owns c i fd → Owns c j fd → i = j
  /-- An object closes open descriptors only, and none of them twice. -/
  closes : none ∉ c.shared.closed ∧ c.shared.closed.Nodup ∧
    ∀ fd, c.shared.descriptors fd ∉ c.shared.closed
  /-- An `Active` record belongs to an open descriptor with one owner, which is bound to the registry. -/
  active : ∀ fd, c.shared.Active fd → c.shared.descriptors fd ≠ none ∧
    ∃ i, (∀ j, Owns c j fd ↔ j = i) ∧ ∃ o, c.shared.objects i = some o ∧ o.registry = true
  /-- A valid object bound to the registry has an `Active` record between its operations. -/
  registered : ∀ i o, c.shared.objects i = some o → o.valid → o.registry = true →
    ¬ c.Pending (fun a => a.object = some i) → c.shared.Active o.fd

/-- The threads before the first object exists. -/
def start (threads : List (List FdAction)) : Config FdTable FdAction := ⟨{}, threads⟩

end FdTable

end EdgeNetSwitch
