import DirectoryAccess.Error.Basic
import DirectoryAccess.Filter

/-! # Backends — what the server needs of its storage

    A backend looks up, searches and changes entries.  Its operations run on a
    state and may fail; what a failing operation has done to the state stays done,
    and it is for the backend to have done nothing.

    A search gives a sequence of results, each an entry or a failure.  On its way
    out the sequence collects filters, which see the results one by one and may
    drop them, reduce them or fail. -/

namespace DirectoryAccess

/-- A computation on a state that may fail. -/
abbrev Action (σ : Type) (α : Type) := EStateM OperationError σ α

/-- Go on with the value of a computation that needs no state. -/
def Action.ofExcept {σ α : Type} : Except OperationError α → Action σ α
  | .ok a => pure a
  | .error e => throw e

/-- What is in store, and how to work with it. -/
class Backend (σ : Type) where
  add : Entry → Action σ Unit
  delete : Dn → Action σ Unit
  modify : Dn → List Modification → Action σ Unit
  rename : Dn → Rdn → Bool → Action σ Unit
  move : Dn → Dn → Action σ Unit
  moveAndRename : Dn → Dn → Rdn → Bool → Action σ Unit
  /-- The entry of a name with all its attributes, if there is one. -/
  lookup : Dn → Action σ (Option Entry)
  search : Dn → SearchScope → Filter → Action σ (List (Except OperationError Entry))
  compare : Dn → String → String → Action σ Bool
  /-- The names at the top of what is in store. -/
  suffixes : σ → List Dn

/-- The entries of a sequence of results, up to the first failure. -/
def collectResults {σ : Type} : List (Except OperationError Entry) → Action σ (List Entry)
  | [] => pure []
  | .ok e :: rest => do return e :: (← collectResults rest)
  | .error err :: _ => throw err

namespace Backend

variable {σ : Type} [Backend σ]

/-- The number of entries directly below a name. -/
def countChildren (dn : Dn) : Action σ Nat := do
  let found ← collectResults (← search dn .oneLevel Filter.all)
  return found.length

/-- The entry of a name that must be there. -/
def lookupRequired (dn : Dn) : Action σ Entry := do
  match ← lookup dn with
  | some e => return e
  | none => throw .noMatchingEntries

end Backend

/-- A step that every result of a search takes on its way out. -/
abbrev EntryFilter (σ : Type) := Entry → Action σ (Option Entry)

/-- A sequence of results and the filters in their way, the first in front. -/
structure EntryCursor (σ : Type) where
  results : List (Except OperationError Entry)
  filters : List (EntryFilter σ)

namespace EntryCursor

variable {σ : Type}

/-- The sequence of given results, with no filter in their way. -/
def ofResults (results : List (Except OperationError Entry)) : EntryCursor σ :=
  ⟨results, []⟩

/-- The sequence with one more filter behind the others. -/
def addFilter (c : EntryCursor σ) (f : EntryFilter σ) : EntryCursor σ :=
  { c with filters := c.filters ++ [f] }

/-- Take an entry through filters; once dropped, it meets no more of them. -/
def through (entry : Entry) : List (EntryFilter σ) → Action σ (Option Entry)
  | [] => pure (some entry)
  | f :: fs => do
      match ← f entry with
      | some e => through e fs
      | none => return none

/-- What a filter makes of a state, with a failure as a value. -/
def attempt {α : Type} (act : Action σ α) : σ → Except OperationError α × σ := fun s =>
  match act s with
  | .ok a s' => (.ok a, s')
  | .error e s' => (.error e, s')

/-- All that comes out of a sequence: a failure is a result among others. -/
def drain (filters : List (EntryFilter σ)) :
    List (Except OperationError Entry) → σ → List (Except OperationError Entry) × σ
  | [], s => ([], s)
  | .error err :: rest, s =>
      let (out, s') := drain filters rest s
      (.error err :: out, s')
  | .ok entry :: rest, s =>
      let (result, s') := attempt (through entry filters) s
      let (out, s'') := drain filters rest s'
      match result with
      | .ok (some e) => (.ok e :: out, s'')
      | .ok none => (out, s'')
      | .error err => (.error err :: out, s'')

/-- The entries that come out of a sequence, up to the first failure, after which no
    more results are asked for. -/
def collectFrom (filters : List (EntryFilter σ)) :
    List (Except OperationError Entry) → Action σ (List Entry)
  | [] => pure []
  | .error err :: _ => throw err
  | .ok entry :: rest => do
      match ← through entry filters with
      | some e => return e :: (← collectFrom filters rest)
      | none => collectFrom filters rest

/-- The entries of a sequence. -/
def collect (c : EntryCursor σ) : Action σ (List Entry) := collectFrom c.filters c.results

/-- What may be shown of a sequence that has not been read. -/
def describe (c : EntryCursor σ) : String :=
  "EntryCursor \x7b filters: " ++ toString c.filters.length ++ " \x7d"

end EntryCursor

end DirectoryAccess
