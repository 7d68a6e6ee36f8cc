import DirectoryAccess.Aci.Grammar
import DirectoryAccess.Cache.Group

/-! # The tuple cache — the prescriptive policy in force

    An access control subentry carries items that apply to the entries of an area.
    The cache keeps, for every such subentry, the tuples of its items and the
    specification of the area, read once.  Items that can not be read are passed
    over, and an area that can not be read selects nothing. -/

namespace DirectoryAccess

/-- What a maintenance call did. -/
inductive CacheUpdate where
  /-- The entry has no prescriptive items, nothing was cached. -/
  | ignored
  | updated
  deriving DecidableEq, Inhabited

/-- What is kept of an access control subentry. -/
structure CachedSubentry where
  /-- The area, if its specification could be read. -/
  subtree : Option SubtreeSpecification
  tuples : List AciTuple

/-- Refuse an access control subentry without prescriptive items. -/
def validateSubentry (entry : Entry) : Except OperationError Unit :=
  if entry.isAccessControlSubentry && !entry.has Attribute.prescriptiveAci then
    .error (.schemaViolation (.missingMustAttribute [Attribute.prescriptiveAci]))
  else .ok ()

/-- The area of a subentry; without a specification it is everything. -/
def subentryArea (entry : Entry) : Option SubtreeSpecification :=
  match entry.value? Attribute.subtreeSpecification with
  | none => some SubtreeSpecification.everything
  | some text => (SubtreeSpecification.parse text).toOption

/-- What is to be kept of an entry: nothing if it has no prescriptive items. -/
def CachedSubentry.ofEntry (entry : Entry) : Except OperationError (Option CachedSubentry) := do
  validateSubentry entry
  match entry.values? Attribute.prescriptiveAci with
  | none => return none
  | some values => return some ⟨subentryArea entry, AciTuple.ofValues values.toList⟩

/-- The access control subentries, by name. -/
structure TupleCache where
  subentries : NameMap CachedSubentry

namespace TupleCache

/-- The cache without subentries. -/
def empty : TupleCache := ⟨OrdMap.empty⟩

instance : Inhabited TupleCache := ⟨empty⟩

/-- The filter that every access control subentry meets. -/
def subentryFilter : Filter :=
  .holding Attribute.objectClass ObjectClass.accessControlSubentry

/-- Keep what is to be kept of a stored entry; one that is not valid is passed
    over. -/
def keepStored (c : TupleCache) (entry : Entry) : TupleCache :=
  match CachedSubentry.ofEntry entry with
  | .ok (some cached) => ⟨c.subentries.insert entry.dn cached⟩
  | _ => c

/-- The cache of the subentries stored below each suffix. -/
def load {σ : Type} [Backend σ] : Action σ TupleCache := do
  let found ← findBelow subentryFilter (Backend.suffixes (← get))
  return found.foldl keepStored empty

/-- Follow the addition of an entry. -/
def subentryAdded (dn : Dn) (entry : Entry) : Action TupleCache CacheUpdate := do
  match ← Action.ofExcept (CachedSubentry.ofEntry entry) with
  | some cached =>
      modify fun c => ⟨c.subentries.insert dn cached⟩
      return .updated
  | none => return .ignored

/-- Follow the deletion of an entry. -/
def subentryDeleted (dn : Dn) (entry : Entry) : Action TupleCache CacheUpdate := do
  if entry.has Attribute.prescriptiveAci then
    modify fun c => ⟨c.subentries.erase dn⟩
    return .updated
  else return .ignored

/-- True if modifications touch anything that the cache is built from. -/
def concerns (mods : List Modification) : Bool :=
  touches mods Attribute.prescriptiveAci || touches mods Attribute.subtreeSpecification
    || touches mods Attribute.objectClass

/-- Follow the modification of an entry, given as it is afterwards.  An entry that is
    no longer valid leaves no tuples in force. -/
def subentryModified (dn : Dn) (mods : List Modification) (entry : Entry) :
    Action TupleCache CacheUpdate := do
  if concerns mods then
    modify fun c => ⟨c.subentries.erase dn⟩
    match ← Action.ofExcept (CachedSubentry.ofEntry entry) with
    | some cached => modify fun c => ⟨c.subentries.insert dn cached⟩
    | none => pure ()
    return .updated
  else return .ignored

/-- Take a cached subentry along to a new name.  There must be one. -/
def subentryRenamed (old new : Dn) : Action TupleCache Unit := do
  match (← get).subentries.get? old with
  | none => throw .invalidCacheState
  | some cached => modify fun c => ⟨(c.subentries.erase old).insert new cached⟩

/-- Take one subentry along to its place below `new`. -/
def carrySubentry (old new : Dn) (subentries : NameMap CachedSubentry)
    (e : Dn × CachedSubentry) : NameMap CachedSubentry :=
  match e.1.rebase? old new with
  | some dn => (subentries.erase e.1).insert dn e.2
  | none => subentries.erase e.1

/-- Take the subentries strictly below `old` along to the same places below `new`,
    one after the other. -/
def rebaseSubtree (c : TupleCache) (old new : Dn) : TupleCache :=
  let moved := c.subentries.entries.filter fun e => e.1.isDescendantOf old
  ⟨moved.foldl (carrySubentry old new) c.subentries⟩

/-- True if a subentry is cached. -/
def contains (c : TupleCache) (dn : Dn) : Bool := c.subentries.contains dn

/-- The tuples of one subentry. -/
def tuplesOf (c : TupleCache) (dn : Dn) : List AciTuple :=
  match c.subentries.get? dn with
  | some cached => cached.tuples
  | none => []

/-- True if the area of a subentry selects a name.  The administrative point is the
    name above the subentry; below none, or without an area, nothing is selected. -/
def areaSelects (subentry : Dn) (cached : CachedSubentry) (dn : Dn) (entry : Option Entry) :
    Bool :=
  match subentry.parent?, cached.subtree with
  | some adminPoint, some area => area.selects adminPoint dn entry
  | _, _ => false

/-- The tuples of every subentry whose area selects a name, in the order of the
    subentries.  The entry is needed where an area asks for object classes. -/
def prescriptiveTuples (c : TupleCache) (dn : Dn) (entry : Option Entry) : List AciTuple :=
  (c.subentries.entries.filter fun e => areaSelects e.1 e.2 dn entry).flatMap
    fun e => e.2.tuples

end TupleCache

end DirectoryAccess
