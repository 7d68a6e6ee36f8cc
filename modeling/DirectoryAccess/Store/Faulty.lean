import DirectoryAccess.Store.Recording

/-! # Faulty storage — a backend that fails on purpose

    Faults are planned in advance: which calls they concern, how many of these they
    let pass, and what then happens instead of the call. -/

namespace DirectoryAccess

/-- The operations of a backend that can be made to fail. -/
inductive BackendMethod where
  | add
  | delete
  | modify
  | rename
  | move
  | moveAndRename
  | lookup
  | search
  | compare
  deriving DecidableEq, Inhabited

namespace BackendMethod

/-- All methods. -/
def all : List BackendMethod :=
  [add, delete, modify, rename, move, moveAndRename, lookup, search, compare]

/-- The name that a failure of the method carries. -/
def name : BackendMethod → String
  | add => "add"
  | delete => "delete"
  | modify => "modify"
  | rename => "rename"
  | move => "move"
  | moveAndRename => "move_and_rename"
  | lookup => "lookup"
  | search => "search"
  | compare => "compare"

/-- The method of a name. -/
def ofName? (s : String) : Option BackendMethod := all.find? fun m => m.name == s

end BackendMethod

/-- What happens instead of a call. -/
inductive FaultKind where
  /-- The call fails. -/
  | fails
  /-- A lookup finds nothing. -/
  | missing
  /-- A search gives one result and then fails. -/
  | breaksOff
  deriving DecidableEq, Inhabited

/-- A planned fault. -/
structure Fault where
  method : BackendMethod
  /-- The name that calls must be about to be concerned, if any. -/
  dn : Option Dn
  /-- How many more of the calls pass. -/
  after : Nat
  kind : FaultKind

namespace Fault

/-- True if a fault concerns calls of a method on a name. -/
def concerns (f : Fault) (method : BackendMethod) (dn : Dn) : Bool :=
  f.method == method
    && match f.dn with
      | some x => x.same dn
      | none => true

/-- Look at the faults in order.  One that concerns the call but lets it pass counts
    down; the first other one that concerns it takes effect. -/
def strike (method : BackendMethod) (dn : Dn) :
    List Fault → Option FaultKind × List Fault
  | [] => (none, [])
  | f :: fs =>
      if f.concerns method dn && f.after == 0 then (some f.kind, f :: fs)
      else
        let passed := if f.concerns method dn then { f with after := f.after - 1 } else f
        let (kind, rest) := strike method dn fs
        (kind, passed :: rest)

end Fault

/-- A backend and the faults planned for it. -/
structure Faulty (σ : Type) where
  inner : σ
  faults : List Fault

namespace Faulty

variable {σ : Type}

/-- The backend with one more fault planned. -/
def plan (s : Faulty σ) (f : Fault) : Faulty σ := { s with faults := s.faults ++ [f] }

/-- The backend with no faults planned. -/
def repair (s : Faulty σ) : Faulty σ := { s with faults := [] }

/-- The fault that takes effect on a call. -/
def struck (method : BackendMethod) (dn : Dn) : Action (Faulty σ) (Option FaultKind) := do
  let (kind, faults) := Fault.strike method dn (← get).faults
  modify fun s => { s with faults := faults }
  return kind

/-- Hand a call on. -/
def passing {α : Type} (act : Action σ α) : Action (Faulty σ) α :=
  Action.onPart inner (fun t s => { s with inner := t }) act

/-- Hand a call on unless a fault takes effect. -/
def guarded {α : Type} (method : BackendMethod) (dn : Dn) (act : Action σ α) :
    Action (Faulty σ) α := do
  match ← struck method dn with
  | none => passing act
  | some _ => throw (.backend method.name)

instance [Backend σ] : Backend (Faulty σ) where
  add entry := guarded .add entry.dn (Backend.add entry)
  delete dn := guarded .delete dn (Backend.delete dn)
  modify dn mods := guarded .modify dn (Backend.modify dn mods)
  rename dn rdn deleteOld := guarded .rename dn (Backend.rename dn rdn deleteOld)
  move dn superior := guarded .move dn (Backend.move dn superior)
  moveAndRename dn superior rdn deleteOld :=
    guarded .moveAndRename dn (Backend.moveAndRename dn superior rdn deleteOld)
  lookup dn := do
    match ← struck .lookup dn with
    | none => passing (Backend.lookup dn)
    | some .missing => return none
    | some _ => throw (.backend BackendMethod.lookup.name)
  search base scope filter := do
    match ← struck .search base with
    | none => passing (Backend.search base scope filter)
    | some .breaksOff =>
        let results ← passing (Backend.search base scope filter)
        return results.take 1 ++ [.error (.backend "item")]
    | some _ => throw (.backend BackendMethod.search.name)
  compare dn attr value := guarded .compare dn (Backend.compare dn attr value)
  suffixes s := Backend.suffixes s.inner

end Faulty

end DirectoryAccess
