import DirectoryAccess.Proofs.Authorization.CriticalEntries
import DirectoryAccess.Proofs.Server.Confinement
import DirectoryAccess.Proofs.Server.FailClosed
import DirectoryAccess.Proofs.Server.PolicyCoherence

/-! # Destinations — the entry that is granted is the one that is stored

    The access control stage works out what an entry will be at its destination, name
    and attributes, and asks whether that may be imported; storage then relocates and
    rewrites the entry on its own, among all that goes along with it.  What has been
    granted is what is found at the destination afterwards. -/

namespace DirectoryAccess

open DirectoryAccess.Action

-- ── What has been asked ──────────────────────────────────────────────────────────

namespace AciStage

/-- The stage makes the same of an entry in advance as storage does. -/
theorem provisionalEntry_eq (e : Entry) (dn new : Dn) (rdn : Rdn) (deleteOld : Bool) :
    provisionalEntry e dn new rdn deleteOld
      = MemoryStore.replaceRdn dn.rdn? rdn deleteOld (e.withDn new) := by
  unfold provisionalEntry MemoryStore.replaceRdn
  cases deleteOld with
  | false => rfl
  | true => cases dn.rdn? <;> rfl

variable {stage : AciStage} {session : Session} {w w' : World MemoryStore} {dn : Dn} {e : Entry}
  {next : Handling MemoryStore (Outcome (World MemoryStore))} {o : Outcome (World MemoryStore)}

/-- What has been asked at the source was asked of the stored entry. -/
theorem checkSource_ok {asker : Requester} {operations : List MicroOperation}
    (h : checkSource asker dn operations w = .ok e w') : w.store.lookup dn = some e := by
  obtain ⟨stored, hstored, h⟩ :=
    (World.reads_onStore (reads_lookupRequired dn)).of_bind_ok h
  obtain ⟨tuples, -, h⟩ := (reads_tuplesFor stored true).of_bind_ok h
  obtain ⟨-, -, h⟩ := (Reads.ofExcept _).of_bind_ok h
  cases h
  exact World.lookupRequired_ok hstored

/-- Past both checks, the entry that is stored has been granted to be imported as it will
    be. -/
theorem granted_of_checks {β : Type} {asker : Requester} {protect : Except OperationError Unit}
    {operations : List MicroOperation} {ahead : Entry → Entry} {rest : Handling MemoryStore β}
    {b : β}
    (h : (do
      Action.ofExcept protect
      let entry ← checkSource asker dn operations
      checkDestination asker (ahead entry)
      rest) w = .ok b w') :
    ∃ entry, w.store.lookup dn = some entry
      ∧ checkDestination asker (ahead entry) w = .ok () w := by
  obtain ⟨-, -, h⟩ := (Reads.ofExcept _).of_bind_ok h
  obtain ⟨entry, hsource, h⟩ := (reads_checkSource _ _ _).of_bind_ok h
  obtain ⟨_, hgranted, -⟩ := (reads_checkDestination _ _).of_bind_ok h
  exact ⟨entry, checkSource_ok hsource, hgranted⟩

/-- Nobody who is asked for tuples has moved an entry without having been granted to import
    it as it is called at its destination. -/
theorem granted_of_move {superior : Dn} (hasked : stage.bypasses w.groups session = false)
    (h : stage.move session dn superior next w = .ok o w') :
    ∃ entry rdn, w.store.lookup dn = some entry ∧ dn.rdn? = some rdn
      ∧ checkDestination (requester w.groups session) (entry.withDn (superior.child rdn)) w
        = .ok () w := by
  unfold AciStage.move at h
  cases hrdn : dn.rdn? with
  | none =>
      rw [hrdn] at h
      cases h
  | some rdn =>
      rw [hrdn] at h
      dsimp only at h
      obtain ⟨w₀, hw₀, h⟩ := Reads.get.of_bind_ok h
      cases hw₀
      simp only [hasked, Bool.not_false, if_true] at h
      obtain ⟨entry, hentry, hgranted⟩ := granted_of_checks h
      exact ⟨entry, rdn, hentry, rfl, hgranted⟩

/-- The same of a move under a new component. -/
theorem granted_of_moveAndRename {superior : Dn} {rdn : Rdn} {deleteOld : Bool}
    (hasked : stage.bypasses w.groups session = false)
    (h : stage.moveAndRename session dn superior rdn deleteOld next w = .ok o w') :
    ∃ entry, w.store.lookup dn = some entry
      ∧ checkDestination (requester w.groups session)
          (provisionalEntry entry dn (superior.child rdn) rdn deleteOld) w = .ok () w := by
  unfold AciStage.moveAndRename at h
  dsimp only at h
  obtain ⟨w₀, hw₀, h⟩ := Reads.get.of_bind_ok h
  cases hw₀
  simp only [hasked, Bool.not_false, if_true] at h
  exact granted_of_checks h

end AciStage

-- ── What has been stored ─────────────────────────────────────────────────────────

namespace Server

variable {config : Configuration} {server : Server MemoryStore} {session : Session}

/-- An operation that succeeds has been let through by the access control stage. -/
theorem handled_of_ok (h : Standard config server) {op : Operation} {answer : Answer}
    (hok : (server.step session op).1 = .ok answer) :
    ∃ next o w, (AciStage.ofConfiguration config).handle session (prepare op) next server.world
      = .ok o w := by
  by_contra hnone
  have hfails : ∀ next, Fails ((AciStage.ofConfiguration config).handle session (prepare op) next)
      server.world := by
    intro next
    cases hr : (AciStage.ofConfiguration config).handle session (prepare op) next server.world with
    | ok o w => exact absurd ⟨next, o, w, hr⟩ hnone
    | error e w => exact ⟨e, w, hr⟩
  obtain ⟨e, he⟩ := step_of_fails h.stages_eq hfails
  rw [he] at hok
  cases hok

/-- What is stored under the new name after an operation has relocated an entry. -/
theorem stored_of_relocated (h : Standard config server) {op : Operation} {answer : Answer}
    (hop : op.isRelocation = true) (hok : (server.step session op).1 = .ok answer) :
    ∃ new entry, op.newDn? = some new ∧ server.world.store.lookup op.target = some entry
      ∧ (server.step session op).2.world.store.lookup new
        = some (op.rewrite (entry.withDn new)) := by
  rcases h.step_cases session op with ⟨⟨e, he⟩, -⟩ | ⟨-, w, hw, ⟨s', hs', rfl⟩, -⟩
  · rw [he] at hok
    cases hok
  · obtain ⟨new, hnew, hrelocate⟩ := MemoryStore.after_relocation hop hs'
    obtain ⟨entry, hentry, hlands⟩ := MemoryStore.lookup_new hrelocate
    rw [hw]
    exact ⟨new, entry, hnew, hentry, hlands⟩

/-- **IMPORT IS DECIDED ON WHAT IS STORED**: with access control switched on, whoever is no
    administrator and moves an entry has been granted to import the very entry, in name and
    attributes, that is stored at the destination afterwards.  A move under a new component
    is granted on the entry with its values replaced, which is the one that is stored. -/
theorem import_decided_on_stored (h : Standard config server)
    (hon : config.accessControlEnabled = true)
    (hasked : server.world.groups.isAdministrator session.effective.dn = false)
    (dn superior : Dn) :
    (∀ answer, (server.step session (.move dn superior)).1 = .ok answer →
      ∃ entry rdn, server.world.store.lookup dn = some entry ∧ dn.rdn? = some rdn
        ∧ AciStage.checkDestination (AciStage.requester server.world.groups session)
            (entry.withDn (superior.child rdn)) server.world = .ok () server.world
        ∧ (server.step session (.move dn superior)).2.world.store.lookup (superior.child rdn)
          = some (entry.withDn (superior.child rdn)))
    ∧ ∀ (rdn : Rdn) (deleteOld : Bool) (answer : Answer),
      (server.step session (.moveAndRename dn superior rdn deleteOld)).1 = .ok answer →
      ∃ entry, server.world.store.lookup dn = some entry
        ∧ AciStage.checkDestination (AciStage.requester server.world.groups session)
            (AciStage.provisionalEntry entry dn (superior.child rdn) rdn deleteOld) server.world
          = .ok () server.world
        ∧ (server.step session (.moveAndRename dn superior rdn deleteOld)).2.world.store.lookup
            (superior.child rdn)
          = some (AciStage.provisionalEntry entry dn (superior.child rdn) rdn deleteOld) := by
  have hasked := not_bypasses hon hasked
  constructor
  · intro answer hok
    obtain ⟨next, o, w, hhandled⟩ := handled_of_ok h hok
    obtain ⟨-, -, hmove⟩ := World.reads_tupleCache.of_bind_ok hhandled
    obtain ⟨entry, rdn, hentry, hrdn, hgranted⟩ := AciStage.granted_of_move hasked hmove
    obtain ⟨new, stored, hnew, hstored, hlands⟩ := stored_of_relocated h rfl hok
    cases hentry.symm.trans hstored
    rw [Operation.newDn?, hrdn] at hnew
    cases hnew
    exact ⟨entry, rdn, hentry, hrdn, hgranted, hlands⟩
  · intro rdn deleteOld answer hok
    obtain ⟨next, o, w, hhandled⟩ := handled_of_ok h hok
    obtain ⟨-, -, hmove⟩ := World.reads_tupleCache.of_bind_ok hhandled
    obtain ⟨entry, hentry, hgranted⟩ := AciStage.granted_of_moveAndRename hasked hmove
    obtain ⟨new, stored, hnew, hstored, hlands⟩ := stored_of_relocated h rfl hok
    cases hentry.symm.trans hstored
    cases hnew
    refine ⟨entry, hentry, hgranted, ?_⟩
    rw [AciStage.provisionalEntry_eq]
    exact hlands

-- ── A policy for moves ───────────────────────────────────────────────────────────

/-- An item that lets everybody take entries away, name them anew and import them, with
    whatever attributes they have. -/
def moveItem : String :=
  "\x7b identificationTag \"move\", precedence 1, authenticationLevel none, itemOrUserFirst " ++
  "itemFirst: \x7b protectedItems \x7b entry \x7d, itemPermissions " ++
  "\x7b \x7b userClasses \x7b allUsers \x7d, " ++
  "grantsAndDenials \x7b grantExport, grantRename, grantImport \x7d \x7d \x7d \x7d \x7d"

/-- An access control subentry with this item. -/
def movePolicy : Entry :=
  ((Entry.named policyName).addAva Attribute.prescriptiveAci moveItem).addAva
    Attribute.objectClass ObjectClass.accessControlSubentry

/-- A server with this policy, and a user below the base of the users. -/
def movingServer : Server MemoryStore :=
  (policyServer movePolicy).run
    [(adminSession, .add (Entry.named usersName)), (adminSession, .add (Entry.named groupsName)),
     (adminSession, .add ((Entry.named userName).addAva "cn" "a"))]

/-- The name of another user. -/
def otherUser : Rdn := component "cn" "c" (by decide)

/-- What somebody unknown has done there with success has an answer. -/
theorem answered (op : Operation) (h : (movingServer.step Session.anonymous op).1.isOk = true) :
    ∃ answer, (movingServer.step Session.anonymous op).1 = .ok answer := by
  cases hr : (movingServer.step Session.anonymous op).1 with
  | ok answer => exact ⟨answer, rfl⟩
  | error e =>
      rw [hr] at h
      cases h

/-- Somebody unknown takes the user below the base of the groups, and what is stored there
    has been granted to be imported; so it is under another name, where the old one is
    given up. -/
theorem user_moved :
    (∃ entry rdn, movingServer.world.store.lookup userName = some entry
        ∧ userName.rdn? = some rdn
        ∧ AciStage.checkDestination
            (AciStage.requester movingServer.world.groups Session.anonymous)
            (entry.withDn (groupsName.child rdn)) movingServer.world = .ok () movingServer.world
        ∧ (movingServer.step Session.anonymous
            (.move userName groupsName)).2.world.store.lookup (groupsName.child rdn)
          = some (entry.withDn (groupsName.child rdn)))
      ∧ ∃ entry, movingServer.world.store.lookup userName = some entry
        ∧ AciStage.checkDestination
            (AciStage.requester movingServer.world.groups Session.anonymous)
            (AciStage.provisionalEntry entry userName (groupsName.child otherUser) otherUser true)
            movingServer.world = .ok () movingServer.world
        ∧ (movingServer.step Session.anonymous
            (.moveAndRename userName groupsName otherUser true)).2.world.store.lookup
              (groupsName.child otherUser)
          = some (AciStage.provisionalEntry entry userName (groupsName.child otherUser) otherUser
              true) := by
  have hstandard : Standard groupConfig movingServer :=
    (((Reachable.start (.empty [topName]) (start_fresh groupConfig _)).run _).run _).standard
  have hasked : movingServer.world.groups.isAdministrator Session.anonymous.effective.dn
      = false := by decide +kernel
  obtain ⟨hmoved, hrenamed⟩ :=
    import_decided_on_stored hstandard rfl hasked userName groupsName
  obtain ⟨answer, hmove⟩ := answered (.move userName groupsName) (by decide +kernel)
  obtain ⟨answer', hmoveAndRename⟩ :=
    answered (.moveAndRename userName groupsName otherUser true) (by decide +kernel)
  exact ⟨hmoved answer hmove, hrenamed otherUser true answer' hmoveAndRename⟩

end Server

end DirectoryAccess
