import DirectoryAccess.Store.Backend

/-! # The memory store — a complete backend

    Entries are held in a map from their names.  Every operation changes the whole
    map at once or not at all.  A name can only be given to an entry whose parent
    is there or that is a suffix. -/

namespace DirectoryAccess

/-- Suffixes, and the entries under their names. -/
structure MemoryStore where
  suffixes : List Dn
  entries : NameMap Entry

namespace MemoryStore

/-- A store without entries. -/
def ofSuffixes (suffixes : List Dn) : MemoryStore := ⟨suffixes, OrdMap.empty⟩

instance : Inhabited MemoryStore := ⟨ofSuffixes []⟩

/-- True if a name is one of the suffixes. -/
def isSuffix (s : MemoryStore) (dn : Dn) : Bool := s.suffixes.any fun x => x.same dn

-- ── Changing one entry ───────────────────────────────────────────────────────────

/-- Add an entry under its name. -/
def add (s : MemoryStore) (entry : Entry) : Except OperationError MemoryStore :=
  let dn := entry.dn
  let hasParent :=
    match dn.parent? with
    | some parent => s.entries.contains parent
    | none => false
  if s.entries.contains dn then .error .entryAlreadyExists
  else if s.isSuffix dn || hasParent then
    .ok { s with entries := s.entries.insert dn entry }
  else .error .noMatchingEntries

/-- Delete the entry of a name, with nothing below it. -/
def delete (s : MemoryStore) (dn : Dn) : Except OperationError MemoryStore :=
  if !s.entries.contains dn then .error .noMatchingEntries
  else if s.entries.keys.any fun k => k.isChildOf dn then .error .notAllowedOnNonLeaf
  else .ok { s with entries := s.entries.erase dn }

/-- Apply modifications to the entry of a name, all or none. -/
def modify (s : MemoryStore) (dn : Dn) (mods : List Modification) :
    Except OperationError MemoryStore := do
  match s.entries.get? dn with
  | none => throw .noMatchingEntries
  | some e =>
      let e' ← e.modifyAll mods
      return { s with entries := s.entries.insert dn e' }

-- ── Relocating an entry and all below it ─────────────────────────────────────────

/-- Take entries from below `old` to the same places below `new`, one after the
    other. -/
def carryOver (old new : Dn) :
    List (Dn × Entry) → NameMap Entry → Except OperationError (NameMap Entry)
  | [], entries => .ok entries
  | (dn, e) :: rest, entries =>
      match dn.rebase? old new with
      | none => .error .invalidState
      | some rebased =>
          carryOver old new rest ((entries.erase dn).insert rebased (e.withDn rebased))

/-- Take an entry and all below it to a new name.  `adjust` is applied to the entry
    itself. -/
def relocate (s : MemoryStore) (dn new : Dn) (adjust : Entry → Entry) :
    Except OperationError MemoryStore :=
  let lacksParent :=
    match new.parent? with
    | some parent =>
        !parent.isRoot && !s.entries.contains parent && !s.isSuffix new
    | none => false
  if new.isWithin dn && !new.same dn then .error (.invalidDn new.display)
  else
    match s.entries.get? dn with
    | none => .error .noMatchingEntries
    | some top =>
        if !new.same dn && s.entries.contains new then .error .entryAlreadyExists
        else if lacksParent then .error .noMatchingEntries
        else do
          let below := s.entries.entries.filter fun e => e.1.isDescendantOf dn
          let moved := (s.entries.erase dn).insert new (adjust (top.withDn new))
          return { s with entries := ← carryOver dn new below moved }

/-- An entry with the value that names it replaced: the old one taken away if asked
    for, and the new one added. -/
def replaceRdn (old : Option Rdn) (new : Rdn) (deleteOld : Bool) (e : Entry) : Entry :=
  let cleared :=
    match deleteOld, old with
    | true, some r => e.removeAva r.attr r.value
    | _, _ => e
  cleared.addAva new.attr new.value

/-- Name an entry anew below the same parent. -/
def rename (s : MemoryStore) (dn : Dn) (rdn : Rdn) (deleteOld : Bool) :
    Except OperationError MemoryStore :=
  match dn.parent? with
  | none => .error (.invalidDn dn.display)
  | some parent => s.relocate dn (parent.child rdn) (replaceRdn dn.rdn? rdn deleteOld)

/-- Take an entry below another parent. -/
def move (s : MemoryStore) (dn superior : Dn) : Except OperationError MemoryStore :=
  match dn.rdn? with
  | none => .error (.invalidDn dn.display)
  | some rdn => s.relocate dn (superior.child rdn) id

/-- Take an entry below another parent and name it anew. -/
def moveAndRename (s : MemoryStore) (dn superior : Dn) (rdn : Rdn) (deleteOld : Bool) :
    Except OperationError MemoryStore :=
  if dn.isRoot then .error (.invalidDn dn.display)
  else s.relocate dn (superior.child rdn) (replaceRdn dn.rdn? rdn deleteOld)

-- ── Reading ──────────────────────────────────────────────────────────────────────

/-- The entry of a name, if there is one. -/
def lookup (s : MemoryStore) (dn : Dn) : Option Entry := s.entries.get? dn

/-- The entries in a scope that meet a filter, in the order of their names.  The
    base must be there, unless it is the root. -/
def search (s : MemoryStore) (base : Dn) (scope : SearchScope) (filter : Filter) :
    Except OperationError (List Entry) :=
  if !base.isRoot && !s.entries.contains base then .error .noMatchingEntries
  else .ok (((s.entries.entries.filter fun e => scope.selects base e.1).map (·.2)).filter
    fun e => filter.isMetBy e)

/-- True if the entry of a name holds a value. -/
def compare (s : MemoryStore) (dn : Dn) (attr value : String) : Except OperationError Bool :=
  match s.entries.get? dn with
  | some e => .ok (e.holds attr value)
  | none => .error .noMatchingEntries

-- ── The store as a backend ───────────────────────────────────────────────────────

/-- Add entries one after the other. -/
def addAll (s : MemoryStore) (entries : List Entry) : Except OperationError MemoryStore :=
  entries.foldlM add s

/-- Run an operation on the store; one that fails leaves it as it is. -/
def update (op : MemoryStore → Except OperationError MemoryStore) : Action MemoryStore Unit :=
  fun s =>
    match op s with
    | .ok s' => .ok () s'
    | .error e => .error e s

/-- Ask the store something. -/
def query {α : Type} (ask : MemoryStore → Except OperationError α) : Action MemoryStore α :=
  fun s =>
    match ask s with
    | .ok a => .ok a s
    | .error e => .error e s

instance : Backend MemoryStore where
  add entry := update fun s => s.add entry
  delete dn := update fun s => s.delete dn
  modify dn mods := update fun s => s.modify dn mods
  rename dn rdn deleteOld := update fun s => s.rename dn rdn deleteOld
  move dn superior := update fun s => s.move dn superior
  moveAndRename dn superior rdn deleteOld :=
    update fun s => s.moveAndRename dn superior rdn deleteOld
  lookup dn := query fun s => .ok (s.lookup dn)
  search base scope filter :=
    query fun s => (s.search base scope filter).map fun es => es.map Except.ok
  compare dn attr value := query fun s => s.compare dn attr value
  suffixes := MemoryStore.suffixes

end MemoryStore

end DirectoryAccess
