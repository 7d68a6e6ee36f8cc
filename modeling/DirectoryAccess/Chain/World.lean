import DirectoryAccess.Cache.Tuple
import DirectoryAccess.Operation
import DirectoryAccess.Store.Recording

/-! # The state of a server, and the outcomes of operations

    A server works on what is stored and on the caches its stages keep.  The stages
    that share the group cache see one cache; a stage with a cache of its own has a
    place for it.  The tuple cache is there once it has been loaded. -/

namespace DirectoryAccess

/-- What is stored, and what is cached of it. -/
structure World (σ : Type) where
  store : σ
  groups : GroupCache
  tuples : Option TupleCache
  ownGroups : List GroupCache

namespace World

variable {σ : Type}

/-- Work on what is stored. -/
def onStore {α : Type} (act : Action σ α) : Action (World σ) α :=
  Action.onPart store (fun s w => { w with store := s }) act

/-- The tuple cache, which must have been loaded. -/
def tupleCache : Action (World σ) TupleCache := do
  match (← get).tuples with
  | some cache => return cache
  | none => throw .invalidState

/-- Change the shared group cache. -/
def changeGroups (f : GroupCache → GroupCache) : Action (World σ) Unit :=
  modify fun w => { w with groups := f w.groups }

/-- Work on the tuple cache, which must have been loaded. -/
def onTuples {α : Type} (act : Action TupleCache α) : Action (World σ) α := do
  let cache ← tupleCache
  Action.onPart (fun _ => cache) (fun t w => { w with tuples := some t }) act

end World

/-- What a chain of stages makes of an operation that succeeds. -/
inductive Outcome (σ : Type) where
  | done
  | compare (held : Bool)
  | hasEntry (present : Bool)
  | entry (entry : Entry)
  | search (cursor : EntryCursor σ)

namespace Outcome

variable {σ : Type}

/-- The word for a truth value. -/
def word (b : Bool) : String := if b then "true" else "false"

/-- What may be shown of an outcome. -/
def describe : Outcome σ → String
  | done => "Done"
  | compare b => "Compare(" ++ word b ++ ")"
  | hasEntry b => "HasEntry(" ++ word b ++ ")"
  | entry e => "Entry(" ++ e.dn.display ++ ")"
  | search c => "Search(" ++ c.describe ++ ")"

/-- The outcome of an operation that only has to be done. -/
def toDone : Outcome σ → Except OperationError Unit
  | done => .ok ()
  | _ => .error .invalidState

/-- The outcome of a question. -/
def toBool : Outcome σ → Except OperationError Bool
  | compare b | hasEntry b => .ok b
  | _ => .error .invalidState

/-- The outcome of reading an entry. -/
def toEntry : Outcome σ → Except OperationError Entry
  | entry e => .ok e
  | _ => .error .invalidState

/-- The outcome of a search. -/
def toCursor : Outcome σ → Except OperationError (EntryCursor σ)
  | search c => .ok c
  | _ => .error .invalidState

end Outcome

/-- A computation of a chain of stages. -/
abbrev Handling (σ : Type) (α : Type) := Action (World σ) α

/-- Carry out an operation on what is stored. -/
def dispatch {σ : Type} [Backend σ] : Operation → Handling σ (Outcome (World σ))
  | .add entry => do
      World.onStore (Backend.add entry)
      return .done
  | .delete dn => do
      World.onStore (Backend.delete dn)
      return .done
  | .modify dn mods => do
      World.onStore (Backend.modify dn mods)
      return .done
  | .rename dn rdn deleteOld => do
      World.onStore (Backend.rename dn rdn deleteOld)
      return .done
  | .move dn superior => do
      World.onStore (Backend.move dn superior)
      return .done
  | .moveAndRename dn superior rdn deleteOld => do
      World.onStore (Backend.moveAndRename dn superior rdn deleteOld)
      return .done
  | .compare dn attr value => do
      return .compare (← World.onStore (Backend.compare dn attr value))
  | .lookup dn _ => do
      return .entry (← World.onStore (Backend.lookupRequired dn))
  | .hasEntry dn => do
      if dn.isRoot then return .hasEntry true
      return .hasEntry (← World.onStore (Backend.lookup dn)).isSome
  | .search base scope filter _ => do
      return .search (.ofResults (← World.onStore (Backend.search base scope filter)))

end DirectoryAccess
