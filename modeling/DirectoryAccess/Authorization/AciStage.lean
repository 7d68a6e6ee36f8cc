import DirectoryAccess.Authorization.Modification
import DirectoryAccess.Authorization.Tuples
import DirectoryAccess.Chain.World
import DirectoryAccess.Configuration.Basic

/-! # The access control stage — operations authorized by items

    For every operation the stage works out which tuples are in force, asks the
    decision whether the requester may do what the operation needs, and only then
    passes it on.  Administrators skip the decision, and so does everybody while
    access control is switched off.  Either way the caches follow every operation
    that succeeds, since they hold what the directory says and not what it allows. -/

namespace DirectoryAccess

/-- What the stage knows of the configuration. -/
structure AciStage where
  enabled : Bool
  adminDn : Dn

namespace AciStage

variable {σ : Type} [Backend σ]

/-- The stage of a configuration. -/
def ofConfiguration (config : Configuration) : AciStage :=
  ⟨config.accessControlEnabled, config.adminDn⟩

/-- What reading an entry needs on the entry itself. -/
def lookupOperations : List MicroOperation := [.read, .browse]

/-- What coming out of a search needs on the entry itself. -/
def searchOperations : List MicroOperation := [.browse, .returnDn]

/-- Load the group cache and then the tuple cache. -/
def init : Handling σ Unit := do
  let groups ← World.onStore (GroupCache.load (← get).groups)
  modify fun w => { w with groups := groups }
  let tuples ← World.onStore TupleCache.load
  modify fun w => { w with tuples := some tuples }

-- ── Who asks, and the items in force ─────────────────────────────────────────────

/-- True if an operation of a session skips the decision. -/
def bypasses (stage : AciStage) (groups : GroupCache) (session : Session) : Bool :=
  !stage.enabled || groups.isAdministrator session.effective.dn

/-- Who asks, in a session. -/
def requester (groups : GroupCache) (session : Session) : Requester :=
  ⟨session.effective.dn, groups.groupsOf session.effective.dn, session.effective.level⟩

/-- Nobody but an administrator removes or renames the root or the administrator,
    whatever the tuples say. -/
def protectCritical (stage : AciStage) (dn : Dn) : Except OperationError Unit :=
  if dn.isRoot || dn.same stage.adminDn then .error .criticalEntryProtected else .ok ()

/-- The tuples in force for an entry. -/
def tuplesFor (entry : Entry) (includeEntryAci : Bool) : Handling σ (List AciTuple) := do
  let cache ← World.tupleCache
  World.onStore (collectTuples cache entry includeEntryAci)

-- ── Adding, deleting and modifying ───────────────────────────────────────────────

/-- Add an entry.  The addition is asked for on the entry and on every attribute and
    value it holds; the entries below the parent are counted only if a limit on
    them is in force. -/
def add (stage : AciStage) (session : Session) (entry : Entry)
    (next : Handling σ (Outcome (World σ))) : Handling σ (Outcome (World σ)) := do
  Action.ofExcept (validateSubentry entry)
  let groups := (← get).groups
  if !stage.bypasses groups session then
    let tuples ← tuplesFor entry false
    let count ←
      match entry.dn.parent? with
      | some parent =>
          if limitsImmSubordinates tuples then
            pure (some (← World.onStore (Backend.countChildren parent)))
          else pure none
      | none => pure none
    Action.ofExcept (requireAddition (requester groups session) entry tuples count)
  let outcome ← next
  let _ ← World.onTuples (TupleCache.subentryAdded entry.dn entry)
  World.changeGroups fun groups => groups.groupAdded entry
  return outcome

/-- Delete an entry. -/
def delete (stage : AciStage) (session : Session) (dn : Dn)
    (next : Handling σ (Outcome (World σ))) : Handling σ (Outcome (World σ)) := do
  let groups := (← get).groups
  let bypass := stage.bypasses groups session
  if !bypass then Action.ofExcept (stage.protectCritical dn)
  let entry ← World.onStore (Backend.lookupRequired dn)
  if !bypass then
    let tuples ← tuplesFor entry true
    Action.ofExcept
      (AccessCheck.onEntry (requester groups session) entry [.remove] tuples).require
  let outcome ← next
  let _ ← World.onTuples (TupleCache.subentryDeleted dn entry)
  World.changeGroups fun groups => groups.groupDeleted dn
  return outcome

/-- Modify an entry.  What it will be afterwards must be a valid subentry if it is
    one at all. -/
def modify (stage : AciStage) (session : Session) (dn : Dn) (mods : List Modification)
    (next : Handling σ (Outcome (World σ))) : Handling σ (Outcome (World σ)) := do
  if mods.isEmpty then throw .emptyRequest
  let pre ← World.onStore (Backend.lookupRequired dn)
  Action.ofExcept (validateSubentry (mods.foldl Entry.project pre))
  let groups := (← get).groups
  if !stage.bypasses groups session then
    let tuples ← tuplesFor pre true
    let _ ← Action.ofExcept
      (checkModifications (requester groups session) pre tuples pre mods)
  let outcome ← next
  World.changeGroups fun groups => groups.groupModified dn mods pre
  match ← World.onStore (Backend.lookup dn) with
  | some post =>
      let _ ← World.onTuples (TupleCache.subentryModified dn mods post)
  | none => pure ()
  return outcome

-- ── Relocating ───────────────────────────────────────────────────────────────────

/-- Read the entry to be relocated and ask for operations on it where it is. -/
def checkSource (requester : Requester) (dn : Dn) (operations : List MicroOperation) :
    Handling σ Entry := do
  let entry ← World.onStore (Backend.lookupRequired dn)
  let tuples ← tuplesFor entry true
  Action.ofExcept (AccessCheck.onEntry requester entry operations tuples).require
  return entry

/-- Ask for `Import` on an entry as it will be once relocated, against the tuples in
    force there. -/
def checkDestination (requester : Requester) (provisional : Entry) : Handling σ Unit := do
  let tuples ← tuplesFor provisional true
  Action.ofExcept (AccessCheck.onEntry requester provisional [.importEntry] tuples).require

/-- Let the caches follow an entry, and all below it, to a new name. -/
def relocated (old new : Dn) : Handling σ Unit := do
  if (← World.tupleCache).contains old then
    World.onTuples (TupleCache.subentryRenamed old new)
  World.onTuples (MonadState.modifyGet fun cache => ((), cache.rebaseSubtree old new))
  World.changeGroups fun groups => groups.groupRenamed old new

/-- Name an entry anew. -/
def rename (stage : AciStage) (session : Session) (dn : Dn) (rdn : Rdn)
    (next : Handling σ (Outcome (World σ))) : Handling σ (Outcome (World σ)) := do
  match dn.parent? with
  | none => throw (.invalidDn (dn.display ++ " has no parent to be renamed under"))
  | some parent =>
      let groups := (← get).groups
      if !stage.bypasses groups session then
        Action.ofExcept (stage.protectCritical dn)
        let _ ← checkSource (requester groups session) dn [.rename]
      let outcome ← next
      relocated dn (parent.child rdn)
      return outcome

/-- Take an entry below another parent. -/
def move (stage : AciStage) (session : Session) (dn superior : Dn)
    (next : Handling σ (Outcome (World σ))) : Handling σ (Outcome (World σ)) := do
  match dn.rdn? with
  | none => throw (.invalidDn (dn.display ++ " has no rdn to be moved by"))
  | some rdn =>
      let new := superior.child rdn
      let groups := (← get).groups
      if !stage.bypasses groups session then
        Action.ofExcept (stage.protectCritical dn)
        let entry ← checkSource (requester groups session) dn [.exportEntry]
        checkDestination (requester groups session) (entry.withDn new)
      let outcome ← next
      relocated dn new
      return outcome

/-- The entry that a relocation under a new component will store: its name replaced,
    then the value that named it taken away if asked for, and the new one added. -/
def provisionalEntry (entry : Entry) (dn new : Dn) (rdn : Rdn) (deleteOld : Bool) : Entry :=
  let moved := entry.withDn new
  let cleared :=
    if deleteOld then
      match dn.rdn? with
      | some old => moved.removeAva old.attr old.value
      | none => moved
    else moved
  cleared.addAva rdn.attr rdn.value

/-- Take an entry below another parent and name it anew. -/
def moveAndRename (stage : AciStage) (session : Session) (dn superior : Dn) (rdn : Rdn)
    (deleteOld : Bool) (next : Handling σ (Outcome (World σ))) :
    Handling σ (Outcome (World σ)) := do
  let new := superior.child rdn
  let groups := (← get).groups
  if !stage.bypasses groups session then
    Action.ofExcept (stage.protectCritical dn)
    let entry ← checkSource (requester groups session) dn [.exportEntry, .rename]
    checkDestination (requester groups session) (provisionalEntry entry dn new rdn deleteOld)
  let outcome ← next
  relocated dn new
  return outcome

-- ── Reading ──────────────────────────────────────────────────────────────────────

/-- Compare a value: the entry must be readable, and the attribute and the value must
    be open to comparison. -/
def compare (stage : AciStage) (session : Session) (dn : Dn) (attr value : String)
    (next : Handling σ (Outcome (World σ))) : Handling σ (Outcome (World σ)) := do
  let groups := (← get).groups
  if !stage.bypasses groups session then
    let asker := requester groups session
    let entry ← World.onStore (Backend.lookupRequired dn)
    let tuples ← tuplesFor entry true
    Action.ofExcept do
      (AccessCheck.onEntry asker entry [.read] tuples).require
      let check := AccessCheck.onEntry asker entry [.compare] tuples
      (check.onAttribute attr).require
      (check.onValue attr value).require
  next

/-- Read an entry; only what the requester may read of it is given out. -/
def lookup (stage : AciStage) (session : Session) (dn : Dn)
    (next : Handling σ (Outcome (World σ))) : Handling σ (Outcome (World σ)) := do
  let groups := (← get).groups
  if stage.bypasses groups session then next
  else
    let asker := requester groups session
    let entry ← World.onStore (Backend.lookupRequired dn)
    let tuples ← tuplesFor entry true
    Action.ofExcept (AccessCheck.onEntry asker entry lookupOperations tuples).require
    let found ← Action.ofExcept (← next).toEntry
    return .entry (readable asker found tuples)

/-- Say whether an entry is there.  Only who may browse it is told so. -/
def hasEntry (stage : AciStage) (session : Session) (dn : Dn)
    (next : Handling σ (Outcome (World σ))) : Handling σ (Outcome (World σ)) := do
  let present ← Action.ofExcept (← next).toBool
  let groups := (← get).groups
  if !present || dn.isRoot || stage.bypasses groups session then return .hasEntry present
  match ← World.onStore (Backend.lookup dn) with
  | none => return .hasEntry false
  | some entry =>
      let tuples ← tuplesFor entry true
      let check := AccessCheck.onEntry (requester groups session) entry [.browse] tuples
      return .hasEntry check.hasPermission

/-- Let an entry out of a search if the requester may browse it and be told its name,
    and only with what the requester may read. -/
def searchFilter (asker : Requester) : EntryFilter (World σ) := fun entry => do
  let tuples ← tuplesFor entry true
  if (AccessCheck.onEntry asker entry searchOperations tuples).hasPermission then
    return some (readable asker entry tuples)
  else return none

/-- Search; what comes out is decided entry by entry. -/
def search (stage : AciStage) (session : Session)
    (next : Handling σ (Outcome (World σ))) : Handling σ (Outcome (World σ)) := do
  let groups := (← get).groups
  if stage.bypasses groups session then next
  else
    let asker := requester groups session
    let cursor ← Action.ofExcept (← next).toCursor
    return .search (cursor.addFilter (searchFilter asker))

-- ── All operations ───────────────────────────────────────────────────────────────

/-- Authorize an operation and pass it on.  The caches must have been loaded. -/
def handle (stage : AciStage) (session : Session) (op : Operation)
    (next : Handling σ (Outcome (World σ))) : Handling σ (Outcome (World σ)) := do
  let _ ← World.tupleCache
  match op with
  | .add entry => stage.add session entry next
  | .delete dn => stage.delete session dn next
  | .modify dn mods => stage.modify session dn mods next
  | .rename dn rdn _ => stage.rename session dn rdn next
  | .move dn superior => stage.move session dn superior next
  | .moveAndRename dn superior rdn deleteOld =>
      stage.moveAndRename session dn superior rdn deleteOld next
  | .compare dn attr value => stage.compare session dn attr value next
  | .lookup dn _ => stage.lookup session dn next
  | .hasEntry dn => stage.hasEntry session dn next
  | .search _ _ _ _ => stage.search session next

end AciStage

end DirectoryAccess
