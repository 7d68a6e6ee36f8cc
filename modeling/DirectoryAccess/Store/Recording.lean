import DirectoryAccess.Store.Backend

/-! # Recorded storage — a backend that remembers what it was asked

    Every call is written down and then handed on, so that it can be seen what
    reached storage.  A call that fails has been written down too. -/

namespace DirectoryAccess

/-- Work on a part of a state. -/
def Action.onPart {σ τ α : Type} (get : σ → τ) (put : τ → σ → σ) (act : Action τ α) :
    Action σ α := fun s =>
  match act (get s) with
  | .ok a t => .ok a (put t s)
  | .error e t => .error e (put t s)

/-- One call of a backend. -/
inductive BackendCall where
  | add (dn : Dn)
  | delete (dn : Dn)
  | modify (dn : Dn) (mods : List Modification)
  | rename (dn : Dn) (rdn : Rdn)
  | move (dn superior : Dn)
  | moveAndRename (dn superior : Dn) (rdn : Rdn)
  | lookup (dn : Dn)
  | search (base : Dn)
  | compare (dn : Dn) (attr : String)
  deriving DecidableEq

/-- True for the calls that change what is stored. -/
def BackendCall.isMutation : BackendCall → Bool
  | .lookup _ | .search _ | .compare _ _ => false
  | _ => true

/-- A backend and the calls it has seen, in order. -/
structure Recorded (σ : Type) where
  inner : σ
  calls : List BackendCall

namespace Recorded

variable {σ : Type}

/-- A backend that has seen no call yet. -/
def fresh (inner : σ) : Recorded σ := ⟨inner, []⟩

/-- The calls that change what is stored. -/
def mutations (r : Recorded σ) : List BackendCall := r.calls.filter (·.isMutation)

/-- The backend with nothing written down. -/
def clear (r : Recorded σ) : Recorded σ := { r with calls := [] }

/-- Write a call down and hand it on. -/
def recording {α : Type} (call : BackendCall) (act : Action σ α) : Action (Recorded σ) α := do
  modify fun r => { r with calls := r.calls ++ [call] }
  Action.onPart inner (fun t r => { r with inner := t }) act

instance [Backend σ] : Backend (Recorded σ) where
  add entry := recording (.add entry.dn) (Backend.add entry)
  delete dn := recording (.delete dn) (Backend.delete dn)
  modify dn mods := recording (.modify dn mods) (Backend.modify dn mods)
  rename dn rdn deleteOld := recording (.rename dn rdn) (Backend.rename dn rdn deleteOld)
  move dn superior := recording (.move dn superior) (Backend.move dn superior)
  moveAndRename dn superior rdn deleteOld :=
    recording (.moveAndRename dn superior rdn) (Backend.moveAndRename dn superior rdn deleteOld)
  lookup dn := recording (.lookup dn) (Backend.lookup dn)
  search base scope filter := recording (.search base) (Backend.search base scope filter)
  compare dn attr value := recording (.compare dn attr) (Backend.compare dn attr value)
  suffixes r := Backend.suffixes r.inner

end Recorded

end DirectoryAccess
