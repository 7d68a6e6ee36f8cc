import DirectoryAccess.Chain.World
import DirectoryAccess.Configuration.Basic

/-! # The default stage — the fixed policy without items

    While access control items are switched off, everything below the bases of
    users and groups is protected, and so are the administrator and the
    administrators group.  Only administrators may change or see protected entries,
    but everybody may read their own entry and change it as long as the change
    leaves alone who they are and what they may do. -/

namespace DirectoryAccess

/-- The names the fixed policy is about. -/
structure ProtectedAreas where
  adminDn : Dn
  adminGroupDn : Dn
  usersBaseDn : Dn
  groupsBaseDn : Dn

namespace ProtectedAreas

/-- The administrator and the administrators group are critical. -/
def isCritical (areas : ProtectedAreas) (dn : Dn) : Bool :=
  dn.same areas.adminDn || dn.same areas.adminGroupDn

/-- Critical entries are protected, and so is what is strictly below a base. -/
def isProtected (areas : ProtectedAreas) (dn : Dn) : Bool :=
  areas.isCritical dn || dn.isDescendantOf areas.usersBaseDn
    || dn.isDescendantOf areas.groupsBaseDn

end ProtectedAreas

/-- Where a stage looks up who the administrators are. -/
inductive AdminSource where
  /-- In the group cache that the access control stage keeps up to date. -/
  | shared
  /-- In a group cache of its own, at this place. -/
  | own (place : Nat)
  deriving DecidableEq

/-- What the stage knows of the configuration. -/
structure DefaultStage where
  enabled : Bool
  areas : ProtectedAreas
  source : AdminSource

namespace DefaultStage

variable {σ : Type} [Backend σ]

/-- The stage of a configuration. -/
def ofConfiguration (config : Configuration) (source : AdminSource) : DefaultStage where
  enabled := !config.accessControlEnabled
  areas := ⟨config.adminDn, config.adminGroupDn, config.usersBaseDn, config.groupsBaseDn⟩
  source := source

/-- The group cache the stage looks at. -/
def groups (stage : DefaultStage) (w : World σ) : GroupCache :=
  match stage.source with
  | .shared => w.groups
  | .own place =>
      w.ownGroups[place]?.getD
        (GroupCache.unloaded stage.areas.adminDn stage.areas.adminGroupDn)

/-- True if the stage has a group cache of its own to keep up to date. -/
def ownsGroups (stage : DefaultStage) : Bool := stage.source != .shared

/-- Load the group cache of its own. -/
def loadGroups (stage : DefaultStage) : Handling σ Unit := do
  let loaded ← World.onStore (GroupCache.load (stage.groups (← get)))
  match stage.source with
  | .shared => pure ()
  | .own place => modify fun w => { w with ownGroups := w.ownGroups.set place loaded }

/-- Load the group cache, if the stage has one of its own and is switched on. -/
def init (stage : DefaultStage) : Handling σ Unit :=
  if stage.enabled && stage.ownsGroups then stage.loadGroups else pure ()

/-- Nobody removes or renames a critical entry. -/
def protectCritical (stage : DefaultStage) (dn : Dn) : Except OperationError Unit :=
  if stage.areas.isCritical dn then .error .criticalEntryProtected else .ok ()

/-- Only administrators take entries out of a protected area or into one. -/
def checkRelocation (stage : DefaultStage) (admin : Bool) (dn : Dn) (new : Option Dn) :
    Except OperationError Unit := do
  stage.protectCritical dn
  let intoProtected :=
    match new with
    | some d => stage.areas.isProtected d
    | none => false
  if !admin && (stage.areas.isProtected dn || intoProtected) then throw .accessDenied

/-- Only administrators modify protected entries, except that everybody modifies
    their own in what does not shift their identity. -/
def checkModify (stage : DefaultStage) (admin : Bool) (principal dn : Dn)
    (mods : List Modification) : Except OperationError Unit :=
  if !admin && stage.areas.isProtected dn then
    if dn.same principal && !mods.any fun m => Attribute.isIdentityShifting m.attr then .ok ()
    else .error .accessDenied
  else .ok ()

/-- What the fixed policy says to an operation before it is passed on. -/
def check (stage : DefaultStage) (admin : Bool) (principal : Dn) (op : Operation) :
    Except OperationError Unit :=
  match op with
  | .delete dn => do
      stage.protectCritical dn
      if !admin && stage.areas.isProtected dn then throw .accessDenied
  | .modify dn mods => stage.checkModify admin principal dn mods
  | .rename dn _ _ | .move dn _ | .moveAndRename dn _ _ _ =>
      stage.checkRelocation admin dn op.newDn?
  | .lookup dn _ =>
      if !admin && stage.areas.isProtected dn && !dn.same principal then .error .accessDenied
      else .ok ()
  | .add _ | .compare _ _ _ | .hasEntry _ | .search _ _ _ _ => .ok ()

/-- Keep protected entries other than the requester's own out of a search. -/
def searchFilter (stage : DefaultStage) (principal : Dn) : EntryFilter (World σ) := fun entry =>
  if stage.areas.isProtected entry.dn && !entry.dn.same principal then pure none
  else pure (some entry)

/-- True if an operation may have changed the administrators group. -/
def changesAdminGroup (stage : DefaultStage) : Operation → Bool
  | .add entry => entry.dn.same stage.areas.adminGroupDn
  | .modify dn _ => dn.same stage.areas.adminGroupDn
  | _ => false

/-- Hold an operation against the fixed policy and pass it on.  A group cache of its
    own is loaded again when the administrators group may have changed. -/
def handle (stage : DefaultStage) (session : Session) (op : Operation)
    (next : Handling σ (Outcome (World σ))) : Handling σ (Outcome (World σ)) := do
  if !stage.enabled then next
  else
    let principal := session.effective.dn
    let admin := (stage.groups (← get)).isAdministrator principal
    Action.ofExcept (stage.check admin principal op)
    match op with
    | .search _ _ _ _ =>
        let cursor ← Action.ofExcept (← next).toCursor
        if admin then return .search cursor
        return .search (cursor.addFilter (stage.searchFilter principal))
    | _ =>
        let outcome ← next
        if stage.ownsGroups && stage.changesAdminGroup op then stage.loadGroups
        return outcome

end DefaultStage

end DirectoryAccess
