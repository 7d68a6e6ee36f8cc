import DirectoryAccess.Proofs.Authorization.CriticalEntries
import DirectoryAccess.Proofs.Authorization.Limits
import DirectoryAccess.Proofs.Server.Confinement
import DirectoryAccess.Proofs.Server.FailClosed
import DirectoryAccess.Proofs.Store.Alike

/-! # Limits at the server — no entry beyond the last that is allowed

    Whether an entry may be added depends on how many entries there are next to it.
    They are counted before the addition, which makes one more.  So a limit that is
    not yet reached is kept. -/

namespace DirectoryAccess

open DirectoryAccess.Action

namespace MemoryStore

/-- The names of the entries directly below a name. -/
def subordinates (s : MemoryStore) (dn : Dn) : List Dn :=
  s.entries.keys.filter fun k => k.isChildOf dn

/-- An addition makes at most one entry more below any name. -/
theorem length_subordinates_add {s s' : MemoryStore} {entry : Entry} (h : s.add entry = .ok s')
    (dn : Dn) : (s'.subordinates dn).length ≤ (s.subordinates dn).length + 1 := by
  obtain ⟨-, -, rfl⟩ := add_ok h
  exact s.entries.length_filter_keys_insert_le ..

end MemoryStore

/-- The number that the stage is told is that of the entries directly below the name. -/
theorem World.countChildren_ok {w w' : World MemoryStore} {dn : Dn} {count : Nat}
    (h : World.onStore (Backend.countChildren dn) w = .ok count w') :
    count = (w.store.subordinates dn).length ∧ w' = w := by
  rw [World.onStore, Action.onPart, MemoryStore.countChildren_eq] at h
  split at h
  · next hcounted =>
    split at hcounted
    · cases hcounted
    · cases hcounted
      cases h
      exact ⟨rfl, rfl⟩
  · cases h

namespace AciStage

variable {stage : AciStage} {session : Session} {w : World MemoryStore} {tuples : List AciTuple}

/-- A number that may be put into the question whether an entry may be added: none, or the
    number of entries that are next to it. -/
def Counts (s : MemoryStore) (entry : Entry) (count : Option Nat) : Prop :=
  ∀ c, count = some c →
    ∃ p, entry.dn.parent? = some p ∧ c = (s.subordinates p).length

/-- An addition fails if it is granted next to no number of entries that the stage may be
    told. -/
theorem fails_add (hasked : stage.bypasses w.groups session = false) {entry : Entry}
    (htuples : tuplesFor entry false w = .ok tuples w)
    (hrefused : ∀ count, Counts w.store entry count →
      ∃ e, requireAddition (requester w.groups session) entry tuples count = .error e)
    (next : Handling MemoryStore (Outcome (World MemoryStore))) :
    Fails (stage.add session entry next) w := by
  have hget : (MonadState.get : Handling MemoryStore (World MemoryStore)) w = .ok w w := rfl
  unfold AciStage.add
  cases hvalid : validateSubentry entry with
  | error e => exact Fails.bind (Fails.ofExcept rfl w)
  | ok u =>
      have hpassed : (Action.ofExcept (.ok u) : Handling MemoryStore Unit) w = .ok u w := rfl
      refine Fails.after hpassed (Fails.after hget ?_)
      simp only [hasked, Bool.not_false, if_true]
      refine Fails.after htuples ?_
      have hquestion : ∀ count, Counts w.store entry count → ∀ {β : Type}
          (rest : Option Nat → Unit → Handling MemoryStore β), Fails (do
            let count ← (pure count : Handling MemoryStore (Option Nat))
            let u ← Action.ofExcept
              (requireAddition (requester w.groups session) entry tuples count)
            rest count u) w := by
        intro count hcount β rest
        obtain ⟨e, he⟩ := hrefused count hcount
        have hcounted : (pure count : Handling MemoryStore (Option Nat)) w = .ok count w := rfl
        exact Fails.after hcounted (Fails.bind (Fails.ofExcept he w))
      -- only below a parent, and only if a limit is in force, is there a number to be told
      split
      · next p hp =>
        split
        · cases hcounted : World.onStore (Backend.countChildren p) w with
          | error e w' => exact Fails.bind ⟨e, w', hcounted⟩
          | ok c w' =>
              obtain ⟨hc, rfl⟩ := World.countChildren_ok hcounted
              refine Fails.after hcounted (hquestion (some c) ?_ _)
              intro c' hc'
              cases hc'
              exact ⟨p, hp, hc⟩
        · exact hquestion none nofun _
      · exact hquestion none nofun _

end AciStage

namespace Server

/-- What has been added by somebody who is no administrator was granted, next to a number of
    entries that the stage may have been told. -/
theorem granted_of_added {config : Configuration} (hon : config.accessControlEnabled = true)
    {server : Server MemoryStore} (h : Standard config server) {session : Session}
    (hasked : server.world.groups.isAdministrator session.effective.dn = false) {entry : Entry}
    {tuples : List AciTuple}
    (htuples : AciStage.tuplesFor entry false server.world = .ok tuples server.world)
    {answer : Answer} (hok : (server.step session (.add entry)).1 = .ok answer) :
    ∃ count, AciStage.Counts server.world.store entry count
      ∧ requireAddition (AciStage.requester server.world.groups session) entry tuples count
        = .ok () := by
  obtain ⟨t, ht⟩ := h.loaded
  by_contra hnone
  have hrefused : ∀ count, AciStage.Counts server.world.store entry count →
      ∃ e, requireAddition (AciStage.requester server.world.groups session) entry tuples count
        = .error e := by
    intro count hcount
    cases hasks : requireAddition (AciStage.requester server.world.groups session) entry tuples
        count with
    | error e => exact ⟨e, rfl⟩
    | ok u => exact absurd ⟨count, hcount, hasks⟩ hnone
  have hfails : ∀ next, Fails ((AciStage.ofConfiguration config).handle session
      (prepare (.add entry)) next) server.world := fun next =>
    Fails.after (World.tupleCache_of_loaded ht)
      (AciStage.fails_add (not_bypasses hon hasked) htuples hrefused next)
  obtain ⟨e, he⟩ := step_of_fails h.stages_eq hfails
  rw [he] at hok
  cases hok

/-- If every grant to add is limited, an addition leaves no more entries below the parent
    than all grants allow. -/
theorem subordinates_le_of_added {config : Configuration}
    (hon : config.accessControlEnabled = true) {server : Server MemoryStore}
    (h : Standard config server) {session : Session}
    (hasked : server.world.groups.isAdministrator session.effective.dn = false) {entry : Entry}
    {tuples : List AciTuple} {n : Nat}
    (htuples : AciStage.tuplesFor entry false server.world = .ok tuples server.world)
    (hlimited : ∀ t ∈ tuples, t.GrantsAddition → t.LimitsSubordinates n)
    {answer : Answer} (hok : (server.step session (.add entry)).1 = .ok answer) {p : Dn}
    (hp : entry.dn.parent? = some p) :
    ((server.step session (.add entry)).2.world.store.subordinates p).length ≤ n := by
  obtain ⟨count, hcount, hgranted⟩ := granted_of_added hon h hasked htuples hok
  obtain ⟨c, hknown, hlt⟩ :=
    AccessCheck.immSubordinates_lt rfl rfl hlimited (requireAddition_ok.mp hgranted).1
  obtain ⟨p', hp', rfl⟩ := hcount c hknown
  cases hp.symm.trans hp'
  rcases h.step_cases session (.add entry) with ⟨⟨e, he⟩, -⟩ | ⟨-, w, hw, ⟨s', hs', rfl⟩, -⟩
  · rw [hok] at he
    cases he
  · rw [hw]
    exact Nat.le_trans (MemoryStore.length_subordinates_add hs' p) hlt

/-- **LIMITS ARE KEPT**: where every grant to add limits an attribute to a number of values
    or fewer, granted modifications by which a value is gained leave no more values than
    that, and a granted addition holds no more.  Where every grant to add that is in force
    for an entry limits the entries below a parent, there are no more of them once the
    entry has been added by somebody who is no administrator. -/
theorem limits_kept :
    (∀ (requester : Requester) (entry : Entry) (tuples : List AciTuple) (attr : String) (n : Nat),
      (∀ t ∈ tuples, t.GrantsAddition → t.LimitsValues attr n) →
        (∀ (mods : List Modification) (final : Entry), (∀ m ∈ mods, m.IsLower) →
          checkModifications requester entry tuples entry mods = .ok final →
          entry.Gains final attr → final.valueCount attr ≤ n)
        ∧ ∀ count, requireAddition requester entry tuples count = .ok () →
          entry.valueCount attr ≤ n)
    ∧ ∀ {config : Configuration} {server : Server MemoryStore}, Standard config server →
      config.accessControlEnabled = true →
      ∀ (session : Session) (entry : Entry) (tuples : List AciTuple) (n : Nat),
        server.world.groups.isAdministrator session.effective.dn = false →
        AciStage.tuplesFor entry false server.world = .ok tuples server.world →
        (∀ t ∈ tuples, t.GrantsAddition → t.LimitsSubordinates n) →
        ∀ answer, (server.step session (.add entry)).1 = .ok answer →
        ∀ p, entry.dn.parent? = some p →
          ((server.step session (.add entry)).2.world.store.subordinates p).length ≤ n := by
  refine ⟨fun requester entry tuples attr n hlimited => ⟨?_, ?_⟩, ?_⟩
  · intro mods final hmods hcheck hgains
    have hstart : entry.Gains entry attr → entry.valueCount attr ≤ n := by
      rintro ⟨v, hheld, hmissing⟩
      rw [hheld] at hmissing
      cases hmissing
    exact valueCount_le_of_modified hlimited hmods hstart hcheck hgains
  · exact fun count h => valueCount_le_of_added hlimited h
  · intro config server h hon session entry tuples n hasked htuples hlimited answer hok p hp
    exact subordinates_le_of_added hon h hasked htuples hlimited hok hp

-- ── A limited policy ─────────────────────────────────────────────────────────────

/-- A grant to everybody to add whatever attributes, with one mail address. -/
def oneMail : AciTuple where
  userClasses := [.allUsers]
  level := .none
  protectedItems := [.allUserAttributeTypesAndValues, .entry, .maxValueCount [⟨"mail", 1⟩]]
  operations := OrdSet.ofList [.add]
  grants := true
  precedence := 1

/-- Somebody who proved nothing. -/
def nobody : Requester :=
  AciStage.requester (GroupCache.unloaded topName adminGroupName) Session.anonymous

/-- A user with a mail address. -/
def mailUser : Entry := (Entry.named userName).addAva "mail" "a@u"

/-- An item that lets everybody add entries, up to two below a parent. -/
def addItem : String :=
  "\x7b identificationTag \"add\", precedence 1, authenticationLevel none, itemOrUserFirst " ++
  "itemFirst: \x7b protectedItems \x7b maxImmSub 2 \x7d, itemPermissions " ++
  "\x7b \x7b userClasses \x7b allUsers \x7d, " ++
  "grantsAndDenials \x7b grantAdd \x7d \x7d \x7d \x7d \x7d"

/-- An access control subentry with this item. -/
def addPolicy : Entry :=
  ((Entry.named policyName).addAva Attribute.prescriptiveAci addItem).addAva
    Attribute.objectClass ObjectClass.accessControlSubentry

theorem oneMail_limits {attr : String}
    (h : Text.sameIgnoringAsciiCase "mail" (Attribute.readAs attr) = true) :
    ∀ t ∈ [oneMail], t.GrantsAddition → t.LimitsValues attr 1 := by
  intro t ht _
  rw [List.mem_singleton.mp ht]
  refine ⟨[⟨"mail", 1⟩], ?_, ⟨"mail", 1⟩, List.mem_singleton_self _, h, Nat.le_refl 1⟩
  exact List.mem_cons_of_mem _ (List.mem_cons_of_mem _ (List.mem_singleton_self _))

/-- A user may have one mail address, whether it is added to the entry or comes with it, and
    next to the policy there is room for one entry. -/
theorem limits_reached :
    checkModifications nobody (Entry.named userName) [oneMail] (Entry.named userName)
        [.adding "mail" ["a@u"]] = .ok mailUser
      ∧ mailUser.valueCount "mail" ≤ 1
      ∧ requireAddition nobody mailUser [oneMail] none = .ok ()
      ∧ mailUser.valueCount "MAIL" ≤ 1
      ∧ ((policyServer addPolicy).step Session.anonymous
          (.add (Entry.named usersName))).1.isOk = true
      ∧ (((policyServer addPolicy).step Session.anonymous
          (.add (Entry.named usersName))).2.world.store.subordinates topName).length ≤ 2 := by
  obtain ⟨hvalues, hentries⟩ := limits_kept
  have hmodified : checkModifications nobody (Entry.named userName) [oneMail]
      (Entry.named userName) [.adding "mail" ["a@u"]] = .ok mailUser := by rfl
  have hadded : requireAddition nobody mailUser [oneMail] none = .ok () := by rfl
  have hdone : ((policyServer addPolicy).step Session.anonymous
      (.add (Entry.named usersName))).1.isOk = true := by decide +kernel
  obtain ⟨answer, hstep⟩ : ∃ answer, ((policyServer addPolicy).step Session.anonymous
      (.add (Entry.named usersName))).1 = .ok answer := by
    cases hresult : ((policyServer addPolicy).step Session.anonymous
        (.add (Entry.named usersName))).1 with
    | ok answer => exact ⟨answer, rfl⟩
    | error e =>
        rw [hresult] at hdone
        cases hdone
  have hstandard : Standard groupConfig (policyServer addPolicy) :=
    ((Reachable.start (.empty [topName]) (start_fresh groupConfig _)).run _).standard
  have hcached : (policyServer addPolicy).world.tuples
      = some ((policyServer addPolicy).world.tuples.getD TupleCache.empty) := by
    obtain ⟨t, ht⟩ := hstandard.loaded
    rw [ht]
    rfl
  refine ⟨hmodified, ?_, hadded, ?_, hdone, ?_⟩
  · have hlower : ∀ m ∈ [Modification.adding "mail" ["a@u"]], m.IsLower := fun m hm => by
      rw [List.mem_singleton.mp hm]
      exact (Modification.isLower_made "mail" ["a@u"]).1
    exact (hvalues _ _ _ "mail" 1 (oneMail_limits (by decide))).1 _ _ hlower hmodified
      ⟨"a@u", by decide +kernel, by decide +kernel⟩
  · exact (hvalues _ _ _ "MAIL" 1 (oneMail_limits (by decide))).2 _ hadded
  · exact hentries hstandard rfl Session.anonymous (Entry.named usersName) _ 2 (by decide +kernel)
      (World.tuplesFor_of_loaded hcached _ _) (by decide +kernel) _ hstep topName (by decide)

end Server

end DirectoryAccess
