import EdgeNetSwitch.Threads.Program
import Mathlib.Logic.Function.Basic

/-!
# File descriptors and their registry

`FileDescriptor` and `FdRegistry` of `src/system/fd`, with the descriptor table of the operating system.
An operation on a `FileDescriptor` is a sequence of steps, one for each call of the registry, each call
of the system and each change of the object; the transfer in a move is one step.
-/

namespace EdgeNetSwitch

open Threads

inductive FdType where
  | unknown
  | udpSocket
  | unixSocket
  | epoll
  | pipe
  | eventFd
  deriving DecidableEq

inductive FdState where
  | invalid
  | active
  | released
  | closed
  deriving DecidableEq

structure FdRecord where
  fd : ℤ := -1
  state : FdState := .invalid
  fd_type : FdType := .unknown
  deriving DecidableEq

/-- `records_` of an `FdRegistry`. -/
abbrev FdRecords := ℤ → Option FdRecord

namespace FdRecords

def registerFd (records : FdRecords) (fd : ℤ) (state : FdState) (fdType : FdType) : FdRecords :=
  Function.update records fd (some { fd, state, fd_type := fdType })

def updateState (records : FdRecords) (fd : ℤ) (state : FdState) : FdRecords :=
  Function.update records fd ((records fd).map fun record => { record with state })

def unregisterFd (records : FdRecords) (fd : ℤ) : FdRecords := Function.update records fd none

end FdRecords

/-- `registry` is whether the object is bound to the registry. -/
structure FileDescriptor where
  fd : ℤ := -1
  registry : Bool := false
  fd_type : FdType := .unknown
  deriving DecidableEq

def FileDescriptor.valid (o : FileDescriptor) : Prop := 0 ≤ o.fd

/-- The objects by their place in memory, the registry they share, and the open descriptors by their
number. Every descriptor that is opened has an identity of its own; `closed` records which descriptor a
call of `close` by an object has closed, if any. -/
structure FdTable where
  objects : ℕ → Option FileDescriptor := fun _ => none
  records : FdRecords := fun _ => none
  descriptors : ℤ → Option ℕ := fun _ => none
  opened : ℕ := 0
  closed : List (Option ℕ) := []

/-- The operation a `reset` is part of. -/
inductive ResetOf where
  | reset (fd : ℤ) (type : FdType)
  | moveAssign (other : ℕ)
  | destroy
  deriving DecidableEq

/-- The number passed to `reset`. -/
def ResetOf.fd : ResetOf → ℤ
  | .reset fd _ => fd
  | .moveAssign _ | .destroy => -1

inductive FdAction where
  /-- The system opens a descriptor. -/
  | openFd (fd : ℤ)
  /-- A `close` that is not one of an object. -/
  | closeFd (fd : ℤ)
  /-- The constructors that take a number. -/
  | construct (i : ℕ) (fd : ℤ) (registry : Bool) (fdType : FdType)
  | moveConstruct (i other : ℕ)
  | moveAssign (i other : ℕ)
  | release (i : ℕ)
  | reset (i : ℕ) (fd : ℤ) (type : FdType)
  | destroy (i : ℕ)
  /-- A constructor or `reset`: register the number. -/
  | registerFd (i : ℕ) (fd : ℤ) (type : FdType)
  /-- `release`: the object gives its number up. -/
  | releaseFd (i : ℕ)
  /-- `reset`: unregister the number. -/
  | unregisterFd (i : ℕ) (op : ResetOf)
  /-- `reset`: close the number. -/
  | close (i : ℕ) (op : ResetOf)
  /-- `reset`: the object takes the new number. -/
  | assign (i : ℕ) (op : ResetOf)
  /-- Move assignment: the number and the binding move from `other` to `i`. -/
  | transfer (i other : ℕ)
  /-- The object is gone. -/
  | dispose (i : ℕ)
  deriving DecidableEq

namespace FdTable

def setObject (s : FdTable) (i : ℕ) (o : Option FileDescriptor) : FdTable :=
  { s with objects := Function.update s.objects i o }

/-- `::close`, called by an object. -/
def close (s : FdTable) (fd : ℤ) : FdTable :=
  { s with
    descriptors := Function.update s.descriptors fd none
    closed := s.closed ++ [s.descriptors fd] }

/-- `reset` up to its first step: the state of the record is updated. -/
def beginReset (s : FdTable) (i : ℕ) (o : FileDescriptor) (op : ResetOf) : FdTable × List FdAction :=
  if 0 ≤ o.fd then
    if o.registry then
      ({ s with records := s.records.updateState o.fd .closed }, [.unregisterFd i op])
    else (s, [.close i op])
  else (s, [.assign i op])

/-- The transfer of a number in a move to an object whose other members are those of `o`. -/
def transfer (s : FdTable) (i other : ℕ) (o p : FileDescriptor) : FdTable :=
  (s.setObject i (some { o with fd := p.fd, registry := p.registry })).setObject other
    (some { p with fd := -1, registry := false })

/-- There is no action on an object that does not exist, and none that constructs one that does. -/
def exec : FdAction → Unit → FdTable → Option (FdTable × List FdAction)
  | .openFd fd, _, s =>
    some ({ s with
      descriptors := Function.update s.descriptors fd (some s.opened)
      opened := s.opened + 1 }, [])
  | .closeFd fd, _, s => some ({ s with descriptors := Function.update s.descriptors fd none }, [])
  | .construct i fd registry fdType, _, s =>
    match s.objects i with
    | some _ => none
    | none =>
      some (s.setObject i (some { fd, registry, fd_type := fdType }),
        if registry ∧ 0 ≤ fd then [.registerFd i fd fdType] else [])
  | .moveConstruct i other, _, s =>
    match s.objects i, s.objects other with
    | none, some p => some (s.transfer i other p p, [])
    | _, _ => none
  | .moveAssign i other, _, s =>
    match s.objects i, s.objects other with
    | some o, some _ =>
      if i = other then some (s, []) else some (s.beginReset i o (.moveAssign other))
    | _, _ => none
  | .release i, _, s =>
    (s.objects i).map fun o =>
      (if o.registry ∧ 0 ≤ o.fd then { s with records := s.records.updateState o.fd .released } else s,
        [.releaseFd i])
  | .reset i fd type, _, s => (s.objects i).map fun o => s.beginReset i o (.reset fd type)
  | .destroy i, _, s => (s.objects i).map fun o => s.beginReset i o .destroy
  | .registerFd _ fd type, _, s => some ({ s with records := s.records.registerFd fd .active type }, [])
  | .releaseFd i, _, s => (s.objects i).map fun o => (s.setObject i (some { o with fd := -1 }), [])
  | .unregisterFd i op, _, s =>
    (s.objects i).map fun o => ({ s with records := s.records.unregisterFd o.fd }, [.close i op])
  | .close i op, _, s => (s.objects i).map fun o => (s.close o.fd, [.assign i op])
  | .assign i op, _, s =>
    (s.objects i).map fun o => (s.setObject i (some { o with fd := op.fd }),
      match op with
      | .reset fd type => if o.registry ∧ 0 ≤ fd then [.registerFd i fd type] else []
      | .moveAssign other => [.transfer i other]
      | .destroy => [.dispose i])
  | .transfer i other, _, s =>
    match s.objects i, s.objects other with
    | some o, some p => some (s.transfer i other o p, [])
    | _, _ => none
  | .dispose i, _, s => (s.objects i).map fun _ => (s.setObject i none, [])

def program : Program FdTable FdAction Unit where
  exec := exec

end FdTable

end EdgeNetSwitch
