/-
The interners of a process. Each new interner takes the next owner number; the numbers are 32-bit words
and start again after the last one. There is one series of numbers for the interners of all types of pattern:
a process with several types is one whose patterns are of their sum. Interners are used through handles.
A shared interner may have several, and what is done through one is seen through all of them.
-/
import Phrasebook.Interner.Call

namespace Phrasebook

/-- A way to an interner. -/
structure Handle where
  /-- The position of the interner. -/
  table : Nat
  /-- Whether the interner may have more handles. -/
  shared : Bool
  deriving DecidableEq, Repr

/-- The interners and handles of a process. -/
structure Registry (α : Type) where
  /-- The number of the next interner, whatever it is to hold. -/
  nextOwner : Owner
  tables : Array (Interner α)
  handles : Array Handle

/-- Why a handle cannot be used. -/
inductive RegistryError
  /-- There is no such handle. -/
  | noInterner
  /-- The interner is not shared, so that it has one handle only. -/
  | notShared
  deriving DecidableEq, Repr

namespace Registry

open Interner

variable {α β : Type}

/-- The registry without interners. -/
def empty : Registry α :=
  ⟨0, #[], #[]⟩

/-- The interner behind a handle. -/
def table? (r : Registry α) (h : Nat) : Option (Interner α) :=
  r.handles[h]?.bind fun handle => r.tables[handle.table]?

/-- Makes a new interner. The result is the number of its handle. -/
def create (r : Registry α) (shared : Bool) : Nat × Registry α :=
  (r.handles.size,
    { nextOwner := r.nextOwner + 1
      tables := r.tables.push (.empty r.nextOwner)
      handles := r.handles.push ⟨r.tables.size, shared⟩ })

/-- Makes a second handle to a shared interner. The result is the number of the new handle. -/
def clone (r : Registry α) (h : Nat) : Except RegistryError (Nat × Registry α) :=
  match r.handles[h]? with
  | none => .error .noInterner
  | some handle =>
    if handle.shared then
      .ok (r.handles.size, { r with handles := r.handles.push handle })
    else
      .error .notShared

/-- Carries out a call through a handle. -/
def call [DecidableEq α] [Fingerprint α] (r : Registry α) (h : Nat) (c : Call α β) :
    Except RegistryError (Outcome α β × Registry α) :=
  match r.handles[h]?, r.table? h with
  | some handle, some t =>
    let outcome := t.call c
    .ok (outcome, { r with tables := r.tables.setIfInBounds handle.table outcome.table })
  | _, _ => .error .noInterner

end Registry

end Phrasebook
