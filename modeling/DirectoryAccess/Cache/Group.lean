import DirectoryAccess.Store.Backend

/-! # The group cache — who is a member of what

    The members of every stored group are kept at hand, so that the questions who
    is an administrator and which groups somebody belongs to need no storage.  The
    cache is loaded once and then follows the changes to groups. -/

namespace DirectoryAccess

/-- The filter that every group meets. -/
def groupFilter : Filter :=
  .disjunction [
    .holding Attribute.objectClass ObjectClass.groupOfNames,
    .holding Attribute.objectClass ObjectClass.groupOfUniqueNames]

/-- The names among a list of member values; what is no name is no member. -/
def parseMembers (values : List String) : List Dn :=
  values.filterMap fun v => (Dn.parse v).toOption

/-- The members of a group entry.  There are none to be cached if the entry is no
    group or lacks the attribute. -/
def memberSet? (entry : Entry) : Option NameSet := do
  let attr ← entry.memberAttr?
  let values ← entry.values? attr
  return OrdSet.ofList (parseMembers values.toList)

/-- All entries that a search below each suffix finds.  A suffix that is not there
    has none. -/
def findBelow {σ : Type} [Backend σ] (filter : Filter) :
    List Dn → Action σ (List Entry)
  | [] => pure []
  | suffix :: rest => do
      let results ←
        try
          Backend.search suffix .subtree filter
        catch
          | .noMatchingEntries => pure []
          | e => throw e
      let found ← collectResults results
      return found ++ (← findBelow filter rest)

/-- The members of groups, and who the administrators are. -/
structure GroupCache where
  adminDn : Dn
  adminGroupDn : Dn
  groups : NameMap NameSet

namespace GroupCache

/-- The cache before anything is loaded. -/
def unloaded (adminDn adminGroupDn : Dn) : GroupCache := ⟨adminDn, adminGroupDn, OrdMap.empty⟩

/-- Keep the members of a group entry; what is no group is passed over. -/
def groupAdded (c : GroupCache) (entry : Entry) : GroupCache :=
  match memberSet? entry with
  | some members => { c with groups := c.groups.insert entry.dn members }
  | none => c

/-- The cache with nothing but the groups stored below each suffix. -/
def load {σ : Type} [Backend σ] (c : GroupCache) : Action σ GroupCache := do
  let found ← findBelow groupFilter (Backend.suffixes (← get))
  return found.foldl groupAdded (unloaded c.adminDn c.adminGroupDn)

/-- True for the administrator and the members of the administrators group. -/
def isAdministrator (c : GroupCache) (dn : Dn) : Bool :=
  dn.same c.adminDn
    || match c.groups.get? c.adminGroupDn with
      | some members => members.contains dn
      | none => false

/-- The groups that somebody is a member of. -/
def groupsOf (c : GroupCache) (member : Dn) : NameSet :=
  OrdSet.ofList ((c.groups.filter fun _ members => members.contains member).keys)

/-- The members of a group, if it is cached. -/
def members? (c : GroupCache) (group : Dn) : Option NameSet := c.groups.get? group

/-- Forget the members of a deleted entry. -/
def groupDeleted (c : GroupCache) (dn : Dn) : GroupCache :=
  { c with groups := c.groups.erase dn }

/-- The members after one modification of the member attribute. -/
def membersAfter (members : NameSet) : Modification → NameSet
  | .add _ values => members.insertAll (parseMembers values)
  | .remove _ [] => OrdSet.empty
  | .remove _ values => (parseMembers values).foldl OrdSet.erase members
  | .replace _ values => OrdSet.ofList (parseMembers values)

/-- Follow one modification of the group at a name.  `entry` is the group before the
    whole request, and says which attribute holds the members.  A group without
    members is not kept. -/
def groupModifiedBy (c : GroupCache) (dn : Dn) (entry : Entry) (m : Modification) :
    GroupCache :=
  match entry.memberAttr? with
  | none => c
  | some attr =>
      if m.isAbout attr then
        let next := membersAfter ((c.groups.get? dn).getD OrdSet.empty) m
        if next.isEmpty then { c with groups := c.groups.erase dn }
        else { c with groups := c.groups.insert dn next }
      else c

/-- Follow the modifications of the group at a name. -/
def groupModified (c : GroupCache) (dn : Dn) (mods : List Modification) (entry : Entry) :
    GroupCache :=
  mods.foldl (fun c m => c.groupModifiedBy dn entry m) c

/-- Take one group along to its place below `new`. -/
def carryGroup (old new : Dn) (groups : NameMap NameSet) (e : Dn × NameSet) :
    NameMap NameSet :=
  match e.1.rebase? old new with
  | some dn => (groups.erase e.1).insert dn e.2
  | none => groups.erase e.1

/-- Take the groups at or below `old` along to the same places below `new`, one after
    the other. -/
def groupRenamed (c : GroupCache) (old new : Dn) : GroupCache :=
  let moved := c.groups.entries.filter fun e => e.1.isWithin old
  { c with groups := moved.foldl (carryGroup old new) c.groups }

end GroupCache

end DirectoryAccess
