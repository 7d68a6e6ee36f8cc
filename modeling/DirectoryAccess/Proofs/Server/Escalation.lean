import DirectoryAccess.Proofs.Authorization.CriticalEntries
import DirectoryAccess.Proofs.Server.GroupCoherence
import DirectoryAccess.Proofs.Server.Relocation
import DirectoryAccess.Proofs.Text.Case

/-! # Escalation — who becomes an administrator under the fixed policy

    While access control is switched off, nobody but an administrator deletes or
    relocates the administrators group or puts another entry in its place by a
    relocation, and whoever goes by its name modifies nothing of it that says who is
    a member.  Two ways are left: the group is not there, and an entry is added under
    its name; or the relocation of some name above it takes it along, or brings another
    group to its name.  Along a run of operations of others the administrators stay the
    same unless one of the two happens. -/

namespace DirectoryAccess

-- ── Modifying the group one goes by ──────────────────────────────────────────────

/-- Modifications of the members of a group say who somebody is. -/
theorem Entry.isIdentityShifting_of_isAbout {e : Entry} {attr : String}
    (hattr : e.memberAttr? = some attr) {m : Modification} (h : m.isAbout attr = true) :
    Attribute.isIdentityShifting m.attr = true := by
  unfold Attribute.isIdentityShifting
  rcases Entry.memberAttr?_cases hattr with rfl | rfl
  · rw [Text.lowercase_of_same h (by decide)]
    decide
  · rw [Text.lowercase_of_same h (by decide)]
    decide

/-- Modifications that leave alone who somebody is leave alone who is a member. -/
theorem Entry.followed_of_not_shifting {e : Entry} {mods : List Modification}
    (h : ∀ m ∈ mods, Attribute.isIdentityShifting m.attr = false) (members : NameSet) :
    e.followed mods members = members := by
  unfold followed
  cases hattr : e.memberAttr? with
  | none => rfl
  | some attr =>
      have hnone : (mods.filter fun m => m.isAbout attr) = [] := by
        refine List.filter_eq_nil_iff.mpr fun m hm habout => ?_
        have hshifting := Entry.isIdentityShifting_of_isAbout hattr habout
        rw [h m hm] at hshifting
        cases hshifting
      show List.foldl _ members (mods.filter _) = members
      rw [hnone]
      rfl

/-- What somebody who is no administrator modifies of a protected entry leaves alone who
    they are. -/
theorem DefaultStage.check_modify_shifting {stage : DefaultStage} {principal dn : Dn}
    {mods : List Modification} (h : stage.check false principal (.modify dn mods) = .ok ())
    (hprotected : stage.areas.isProtected dn = true) :
    ∀ m ∈ mods, Attribute.isIdentityShifting m.attr = false := by
  simp only [check, checkModify, hprotected] at h
  split at h
  · split at h
    · next hown =>
      obtain ⟨-, hnone⟩ := Bool.and_eq_true_iff.mp hown
      intro m hm
      simpa using List.any_eq_false.mp (by simpa using hnone) m hm
    · cases h
  · next hnot => exact absurd rfl hnot

/-- Nobody but an administrator relocates anything to a protected name. -/
theorem DefaultStage.check_relocation_new {stage : DefaultStage} {principal : Dn}
    {op : Operation} {new : Dn} (hnew : op.newDn? = some new)
    (h : stage.check false principal op = .ok ()) : stage.areas.isProtected new = false := by
  have hto : ∀ dn, stage.checkRelocation false dn (some new) = .ok () →
      stage.areas.isProtected new = false := by
    intro dn hc
    exact (Bool.or_eq_false_iff.mp (of_refusal hc)).2
  cases op with
  | rename dn rdn deleteOld => exact hto dn (by rw [← hnew]; exact h)
  | move dn superior => exact hto dn (by rw [← hnew]; exact h)
  | moveAndRename dn superior rdn deleteOld => exact hto dn (by rw [← hnew]; exact h)
  | add _ | delete _ | modify _ _ | compare _ _ _ | lookup _ _ | hasEntry _
  | search _ _ _ _ => cases hnew

-- ── The members of one group under each operation ────────────────────────────────

namespace GroupCache

/-- A relocation from `old` to `new` displaces a group if it leads to another name, and
    the group is strictly below `old` or is where a cached group from strictly below
    `old` lands. -/
def Displaces (c : GroupCache) (old new g : Dn) : Prop :=
  new.same old = false
    ∧ (g.isDescendantOf old = true
      ∨ ∃ e ∈ c.groups.entries, e.1.isDescendantOf old = true
        ∧ ∃ r, e.1.rebase? old new = some r ∧ r.same g = true)

/-- The members of the cached group that lands on a name, unless it is swept away from there.
    If there is none, nobody. -/
def Lands (c : GroupCache) (old new g d : Dn) : Prop :=
  ∃ k r, k.rebase? old new = some r ∧ r.key = g.key
    ∧ ¬c.groups.Sweeps old (fun k k' => compare k k' = .lt) k g ∧ c.Lists k d

/-- A group that is displaced has the members of the one that lands in its place. -/
theorem lists_displaced {c : GroupCache} {old new g : Dn} (h : c.Displaces old new g) (d : Dn) :
    (c.groupRenamed old new).Lists g d ↔ c.Lands old new g d := by
  refine (c.lists_groupRenamed_leaves old new g d).trans (or_iff_right ?_)
  rintro ⟨hout, hfree, -⟩
  rcases h.2 with hbelow | ⟨e, he, -, r, hr, hg⟩
  · rw [(Dn.isWithin_iff g old).mpr ((Dn.isDescendantOf_iff g old).mp hbelow).1] at hout
    cases hout
  · exact hfree ⟨e.1, NameMap.contains_of_mem he, r, hr, (Dn.same_iff r g).mp hg⟩

/-- A relocation to another spelling of a name leaves every group its members. -/
theorem membersOf_respelled (c : GroupCache) {old new : Dn} (hsame : new.key = old.key)
    (g : Dn) : (c.groupRenamed old new).membersOf g = c.membersOf g := by
  have hget : (c.groupRenamed old new).groups.get? g = c.groups.get? g := by
    rw [groupRenamed_groups]
    refine carryAll_respelled hsame (fun e he => ?_) g
    obtain ⟨hmem, hin⟩ := List.mem_filter.mp he
    exact ⟨hin, OrdMap.get?_of_mem c.groups hmem⟩
  rw [membersOf, membersOf, hget]

/-- A relocation neither from nor to a group leaves its members, unless it displaces
    the group. -/
theorem membersOf_groupRenamed (c : GroupCache) {old new g : Dn} (hold : g.key ≠ old.key)
    (hnew : g.key ≠ new.key) (h : ¬ c.Displaces old new g) :
    (c.groupRenamed old new).membersOf g = c.membersOf g := by
  cases hsame : new.same old with
  | true => exact c.membersOf_respelled ((Dn.same_iff new old).mp hsame) g
  | false =>
      have hget : (c.groupRenamed old new).groups.get? g = c.groups.get? g := by
        rw [groupRenamed_groups]
        refine carryAll_frame c.groups ?_ ?_
        · intro e he hkey
          obtain ⟨-, hin⟩ := List.mem_filter.mp he
          rw [Dn.isWithin_congr hkey, Dn.isWithin_iff] at hin
          exact h ⟨hsame, Or.inl ((Dn.isDescendantOf_iff g old).mpr ⟨hin, hold.symm⟩)⟩
        · intro e he r hr hkey
          obtain ⟨hmem, hin⟩ := List.mem_filter.mp he
          have hbelow : e.1.isDescendantOf old = true := by
            refine (Dn.isDescendantOf_iff e.1 old).mpr ⟨(Dn.isWithin_iff e.1 old).mp hin, ?_⟩
            intro htop
            rw [Dn.rebase_self htop.symm] at hr
            cases hr
            exact hnew hkey.symm
          exact h ⟨hsame, Or.inr ⟨e, hmem, hbelow, r, hr, (Dn.same_iff r g).mpr hkey⟩⟩
      rw [membersOf, membersOf, hget]

/-- An addition under another name leaves the members of a group. -/
theorem membersOf_groupAdded (c : GroupCache) {e : Entry} {g : Dn} (h : g.key ≠ e.dn.key) :
    (c.groupAdded e).membersOf g = c.membersOf g := by
  unfold groupAdded
  cases memberSet? e with
  | none => rfl
  | some members =>
      show (OrdMap.get? (c.groups.insert e.dn members) g).getD OrdSet.empty = _
      rw [NameMap.get?_insert, if_neg h]
      rfl

/-- An addition of a group under its own name gives it the members of the entry. -/
theorem lists_groupAdded_self (c : GroupCache) {e : Entry} {g : Dn}
    (hgroup : (memberSet? e).isSome = true) (hg : g.key = e.dn.key) (d : Dn) :
    (c.groupAdded e).Lists g d ↔ e.Lists d := by
  obtain ⟨members, hm⟩ := Option.isSome_iff_exists.mp hgroup
  rw [groupAdded, Entry.Lists, Entry.members, hm]
  show ((OrdMap.get? (c.groups.insert e.dn members) g).getD OrdSet.empty).contains d = true ↔ _
  rw [NameMap.get?_insert, if_pos hg]

/-- An addition of something else leaves the members of every group. -/
theorem groupAdded_of_not_group (c : GroupCache) {e : Entry}
    (hgroup : (memberSet? e).isSome = false) : c.groupAdded e = c := by
  rw [groupAdded, Option.isNone_iff_eq_none.mp (Option.isSome_eq_false_iff.mp hgroup)]

/-- A deletion of another name leaves the members of a group. -/
theorem membersOf_groupDeleted (c : GroupCache) {dn g : Dn} (h : g.key ≠ dn.key) :
    (c.groupDeleted dn).membersOf g = c.membersOf g := by
  show (OrdMap.get? (c.groups.erase dn) g).getD OrdSet.empty = _
  rw [NameMap.get?_erase, if_neg (Ne.symm h)]
  rfl

end GroupCache

namespace Server

/-- With these members of the administrators group somebody becomes an administrator, or
    somebody is one no more. -/
def Shifts (server : Server MemoryStore) (config : Configuration) (members : Dn → Prop) : Prop :=
  ∃ d, d.same config.adminDn = false
    ∧ ¬(members d ↔ server.world.groups.Lists config.adminGroupDn d)

/-- A step INTRUDES on the administrators: it succeeds, and either it adds under the name of
    their group a group whose members shift them, or by a relocation it displaces their
    group, and the members of the one that lands in its place shift them. -/
structure Intrudes (config : Configuration) (server : Server MemoryStore) (session : Session)
    (op : Operation) : Prop where
  succeeds : ∃ answer, (server.step session op).1 = .ok answer
  shifts : (∃ entry, op = .add entry ∧ entry.dn.same config.adminGroupDn = true
      ∧ (memberSet? entry).isSome = true ∧ server.Shifts config entry.Lists)
    ∨ ∃ new, op.newDn? = some new
      ∧ server.world.groups.Displaces op.target new config.adminGroupDn
      ∧ server.Shifts config (server.world.groups.Lands op.target new config.adminGroupDn)

section

variable {config : Configuration} {server : Server MemoryStore} {session : Session}
  {op : Operation}

/-- An operation that the fixed policy allows to somebody who is no administrator leaves
    the members of the administrators group, unless it adds an entry under its name or
    displaces it. -/
theorem allowed_keeps_members {s : MemoryStore} {c : GroupCache}
    (hallowed : (DefaultStage.ofConfiguration config .shared).check false
      session.effective.dn op = .ok ())
    (hadd : ∀ entry, op = .add entry → entry.dn.same config.adminGroupDn = false)
    (hdisplaced : ∀ new, op.newDn? = some new →
      ¬ c.Displaces op.target new config.adminGroupDn) :
    (c.after s op).membersOf config.adminGroupDn = c.membersOf config.adminGroupDn := by
  have hcritical : ∀ {dn : Dn}, config.adminGroupDn.key = dn.key →
      (areas config).isProtected dn = true := by
    intro dn hkey
    have hsame : dn.same config.adminGroupDn = true := (Dn.same_iff _ _).mpr hkey.symm
    show (((_ || dn.same config.adminGroupDn) || _) || _) = true
    rw [hsame, Bool.or_true, Bool.true_or, Bool.true_or]
  have hrelocation : op.isRelocation = true →
      (c.after s op).membersOf config.adminGroupDn = c.membersOf config.adminGroupDn := by
    intro hop
    cases hnew : op.newDn? with
    | none => rw [c.after_of_no_newDn s hop hnew]
    | some new =>
        rw [c.after_relocation s hnew]
        have hold : (areas config).isProtected op.target = false :=
          DefaultStage.check_relocation hop hallowed
        have hto : (areas config).isProtected new = false :=
          DefaultStage.check_relocation_new hnew hallowed
        refine c.membersOf_groupRenamed ?_ ?_ (hdisplaced new hnew)
        · intro hkey
          cases (hcritical hkey).symm.trans hold
        · intro hkey
          cases (hcritical hkey).symm.trans hto
  cases op with
  | add entry =>
      refine c.membersOf_groupAdded fun hkey => ?_
      have hother := hadd entry rfl
      rw [(Dn.same_iff _ _).mpr hkey.symm] at hother
      cases hother
  | delete dn =>
      refine c.membersOf_groupDeleted fun hkey => ?_
      have hfree : (areas config).isProtected dn = false := DefaultStage.check_delete hallowed
      cases (hcritical hkey).symm.trans hfree
  | modify dn mods =>
      cases hlookup : s.lookup dn with
      | none => simp only [GroupCache.after, hlookup]
      | some e =>
          simp only [GroupCache.after, hlookup]
          rw [GroupCache.membersOf_groupModified]
          split
          · next hkey =>
            rw [Entry.followed_of_not_shifting
              (DefaultStage.check_modify_shifting hallowed (hcritical hkey))]
            exact c.membersOf_congr hkey.symm
          · rfl
  | rename _ _ _ | move _ _ | moveAndRename _ _ _ _ => exact hrelocation rfl
  | compare _ _ _ | lookup _ _ | hasEntry _ | search _ _ _ _ => rfl

/-- Members that are the same but for the administrator shift nobody. -/
theorem not_shifts_iff {members : Dn → Prop} :
    ¬server.Shifts config members ↔ ∀ d, d.same config.adminDn = false →
      (members d ↔ server.world.groups.Lists config.adminGroupDn d) := by
  simp only [Shifts, not_exists, not_and, not_not]

/-- Where the group keeps its members nobody is shifted. -/
theorem not_shifts_of_membersOf_eq {c : GroupCache}
    (h : c.membersOf config.adminGroupDn
      = server.world.groups.membersOf config.adminGroupDn) :
    ¬server.Shifts config (c.Lists config.adminGroupDn) := by
  refine not_shifts_iff.mpr fun d _ => ?_
  rw [GroupCache.Lists, h]
  rfl

/-- The addition of an entry under the name of the group shifts somebody exactly if it intrudes:
    an entry that is no group is not cached. -/
theorem shifts_add_iff (s : MemoryStore) {entry : Entry}
    (hok : ∃ answer, (server.step session (.add entry)).1 = .ok answer)
    (hsame : entry.dn.same config.adminGroupDn = true) :
    server.Shifts config ((server.world.groups.after s (.add entry)).Lists config.adminGroupDn)
      ↔ server.Intrudes config session (.add entry) := by
  have hkey := ((Dn.same_iff _ _).mp hsame).symm
  cases hgroup : (memberSet? entry).isSome with
  | true =>
      have hlists : (server.world.groups.after s (.add entry)).Lists config.adminGroupDn
          = entry.Lists :=
        funext fun d => propext (server.world.groups.lists_groupAdded_self hgroup hkey d)
      rw [hlists]
      refine ⟨fun hshifts => ⟨hok, Or.inl ⟨entry, rfl, hsame, hgroup, hshifts⟩⟩, ?_⟩
      rintro ⟨-, ⟨_, hop, -, -, hshifts⟩ | ⟨_, hnew, -⟩⟩
      · cases hop
        exact hshifts
      · cases hnew
  | false =>
      refine iff_of_false (not_shifts_of_membersOf_eq ?_) ?_
      · exact congrArg (·.membersOf config.adminGroupDn)
          (server.world.groups.groupAdded_of_not_group hgroup)
      · rintro ⟨-, ⟨_, hop, -, hsome, -⟩ | ⟨_, hnew, -⟩⟩
        · cases hop
          cases hgroup.symm.trans hsome
        · cases hnew

/-- A relocation that displaces the group shifts somebody exactly if it intrudes. -/
theorem shifts_displaced_iff (s : MemoryStore) {new : Dn} (hnew : op.newDn? = some new)
    (hdisplaces : server.world.groups.Displaces op.target new config.adminGroupDn)
    (hok : ∃ answer, (server.step session op).1 = .ok answer) :
    server.Shifts config ((server.world.groups.after s op).Lists config.adminGroupDn)
      ↔ server.Intrudes config session op := by
  have hlists : (server.world.groups.after s op).Lists config.adminGroupDn
      = server.world.groups.Lands op.target new config.adminGroupDn := by
    rw [server.world.groups.after_relocation s hnew]
    exact funext fun d => propext (GroupCache.lists_displaced hdisplaces d)
  rw [hlists]
  refine ⟨fun hshifts => ⟨hok, Or.inr ⟨new, hnew, hdisplaces, hshifts⟩⟩, ?_⟩
  rintro ⟨-, ⟨entry, rfl, -⟩ | ⟨new', hnew', -, hshifts⟩⟩
  · cases hnew
  · cases hnew.symm.trans hnew'
    exact hshifts

/-- What the group cache makes of an operation that the fixed policy allows to somebody who
    is no administrator shifts somebody exactly if the operation intrudes. -/
theorem shifts_after_iff (s : MemoryStore)
    (hallowed : (DefaultStage.ofConfiguration config .shared).check false
      session.effective.dn op = .ok ())
    (hok : ∃ answer, (server.step session op).1 = .ok answer) :
    server.Shifts config ((server.world.groups.after s op).Lists config.adminGroupDn)
      ↔ server.Intrudes config session op := by
  by_cases hadd : ∃ entry, op = .add entry ∧ entry.dn.same config.adminGroupDn = true
  · obtain ⟨entry, rfl, hsame⟩ := hadd
    exact shifts_add_iff s hok hsame
  by_cases hdisplaced : ∃ new, op.newDn? = some new
      ∧ server.world.groups.Displaces op.target new config.adminGroupDn
  · obtain ⟨new, hnew, hdisplaces⟩ := hdisplaced
    exact shifts_displaced_iff s hnew hdisplaces hok
  · -- all other operations leave the group its members
    refine iff_of_false (not_shifts_of_membersOf_eq ?_) ?_
    · refine allowed_keeps_members hallowed (fun entry hop => ?_) ?_
      · exact eq_false_of_ne_true fun hsame => hadd ⟨entry, hop, hsame⟩
      · exact fun new hnew hdisplaces => hdisplaced ⟨new, hnew, hdisplaces⟩
    · rintro ⟨-, ⟨entry, hop, hsame, -⟩ | ⟨new, hnew, hdisplaces, -⟩⟩
      · exact hadd ⟨entry, hop, hsame⟩
      · exact hdisplaced ⟨new, hnew, hdisplaces⟩

/-- One step of somebody who is no administrator leaves the administrators as they are
    exactly if it does not intrude on them. -/
theorem administrators_step (hreach : Reachable config server)
    (hoff : config.accessControlEnabled = false)
    (hadmin : server.world.groups.isAdministrator session.effective.dn = false) (op : Operation) :
    (∀ d, (server.step session op).2.world.groups.isAdministrator d
        = server.world.groups.isAdministrator d)
      ↔ ¬ server.Intrudes config session op := by
  obtain ⟨hdn, hgroup⟩ := hreach.admin
  obtain ⟨hdn', hgroup'⟩ := (hreach.step session op).admin
  have hone : ∀ d, (server.step session op).2.world.groups.isAdministrator d
        = server.world.groups.isAdministrator d
      ↔ (d.same config.adminDn = false →
        ((server.step session op).2.world.groups.Lists config.adminGroupDn d
          ↔ server.world.groups.Lists config.adminGroupDn d)) := by
    intro d
    simp only [GroupCache.isAdministrator_eq, hdn, hgroup, hdn', hgroup']
    cases d.same config.adminDn with
    | true => exact iff_of_true rfl fun htrue => by cases htrue
    | false =>
        rw [Bool.false_or, Bool.false_or, Bool.eq_iff_iff]
        exact ⟨fun hsame _ => hsame, fun hsame => hsame rfl⟩
  rw [forall_congr' hone, ← not_shifts_iff]
  rcases hreach.standard.step_cases session op with
    ⟨⟨e, herr⟩, hsame⟩ | ⟨hok, w, hw, ⟨s', -, rfl⟩, hallows⟩
  · rw [hsame]
    refine iff_of_true (not_shifts_iff.mpr fun _ _ => Iff.rfl) ?_
    rintro ⟨⟨answer, hok⟩, -⟩
    cases herr.symm.trans hok
  · rw [hw]
    exact not_congr (shifts_after_iff _ (check_of_allows hoff hadmin hallows) hok)

/-- **NO ESCALATION WITHOUT INTRUSION**: along a run of operations, each made by somebody
    who is no administrator at that moment, the administrators are at every time those of
    the start exactly if no step intrudes on them. -/
theorem administrators_kept_iff (hreach : Reachable config server)
    (hoff : config.accessControlEnabled = false) (ops : List (Session × Operation))
    (hothers : ∀ n op, ops[n]? = some op →
      (server.run (ops.take n)).world.groups.isAdministrator op.1.effective.dn = false) :
    (∀ n d, (server.run (ops.take n)).world.groups.isAdministrator d
        = server.world.groups.isAdministrator d)
      ↔ ∀ n op, ops[n]? = some op → ¬ (server.run (ops.take n)).Intrudes config op.1 op.2 := by
  have hstep : ∀ {reached : Server MemoryStore}, Reachable config reached →
      (∀ d, reached.world.groups.isAdministrator d = server.world.groups.isAdministrator d) →
      ∀ session op, reached.world.groups.isAdministrator session.effective.dn = false →
      ((∀ d, (reached.step session op).2.world.groups.isAdministrator d
          = server.world.groups.isAdministrator d)
        ↔ ¬ reached.Intrudes config session op) := by
    intro reached hreached hsame session op hadmin
    rw [← administrators_step hreached hoff hadmin op]
    exact forall_congr' fun d => by rw [hsame d]
  exact hreach.run_iff_of_kind (P := fun reached => ∀ d, _ = _) hstep (fun _ => rfl) ops hothers

end

-- ── A small directory ────────────────────────────────────────────────────────────

/-- A group below the base of the groups. -/
def stewardsName : Dn := groupsName.child (component "cn" "g" (by decide))

/-- A server with the fixed policy, whose administrators are the top and the members of
    the group, which has none but the deputy. -/
def stewardServer : Server MemoryStore :=
  (fresh ⟨false, topName, stewardsName, usersName, groupsName, .info⟩ [topName]).run
    [(adminSession, .add (Entry.named topName)), (adminSession, .add (Entry.named groupsName)),
     (adminSession, .add (((Entry.named stewardsName).addAva Attribute.objectClass
       ObjectClass.groupOfNames).addAva Attribute.member "cn=a,dc=x"))]

/-- A session of the user. -/
def userSession : Session := Session.of (Principal.named userName .simple)

/-- What a user may do: put up the base of the users and their own entry, and describe
    themselves. -/
def userWork : List (Session × Operation) :=
  [(userSession, .add (Entry.named usersName)), (userSession, .add (Entry.named userName)),
   (userSession, .modify userName [.add Attribute.description ["new"]])]

/-- None of it makes the user an administrator. -/
theorem user_work_keeps_administrators :
    (stewardServer.run userWork).world.groups.isAdministrator userName
      = stewardServer.world.groups.isAdministrator userName := by
  refine (administrators_kept_iff
    ((Reachable.start (.empty [topName]) (start_fresh _ _)).run _) rfl userWork ?_).mpr ?_
    3 userName
  · intro n op hop
    rcases n with _ | _ | _ | n <;> cases hop <;> decide +kernel
  · intro n op hop
    rintro ⟨-, ⟨entry, hadd, hsame, -⟩ | ⟨new, hnew, -⟩⟩
    · rcases n with _ | _ | _ | n <;> cases hop <;> cases hadd
      all_goals exact absurd hsame (by decide +kernel)
    · rcases n with _ | _ | _ | n <;> cases hop <;> cases hnew

/-- What a user may do as well: call the base of the groups something else, and put up
    another one with another group in it. -/
def userCoup : List (Session × Operation) :=
  [(userSession, .rename groupsName otherBase true),
   (userSession, .add (Entry.named groupsName)),
   (userSession, .add (((Entry.named stewardsName).addAva Attribute.objectClass
     ObjectClass.groupOfNames).addAva Attribute.member "cn=a,ou=u,dc=x"))]

/-- At no time of it is the user an administrator, and in the end they are; the deputy
    is none any more. -/
theorem user_coup_takes_over :
    (∀ n < 3, (stewardServer.run (userCoup.take n)).world.groups.isAdministrator userName = false)
      ∧ (stewardServer.run userCoup).world.groups.isAdministrator userName = true
      ∧ stewardServer.world.groups.isAdministrator deputyName = true
      ∧ (stewardServer.run userCoup).world.groups.isAdministrator deputyName = false := by
  decide +kernel

end Server

end DirectoryAccess
