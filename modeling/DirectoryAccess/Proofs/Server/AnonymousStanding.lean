import DirectoryAccess.Proofs.Cache.BlankMembers
import DirectoryAccess.Proofs.Server.GroupCoherence
import DirectoryAccess.Proofs.Server.Relocation

/-! # The standing of the anonymous principal — nobody, unless a blank is a member

    Somebody who proved nothing goes by the name of the root.  As long as that is not
    the administrator, they are nobody in particular, except where a cached group
    lists the root.  It does so exactly if a blank stands among the member values that
    the cache was loaded with, or was added to them by an operation since. -/

namespace DirectoryAccess

namespace GroupCache

/-- The operations that bring a blank among the members of a cached group: an addition
    of a group with a blank, and a modification that leaves one. -/
def EnlistsAnonymous (s : MemoryStore) : Operation → Prop
  | .add entry => entry.ListsBlank
  | .modify dn mods => ∃ e, s.lookup dn = some e ∧ e.blankFollowed mods = true
  | _ => False

/-- A relocation makes nobody a member. -/
theorem exists_lists_relocation {c : GroupCache} {s : MemoryStore} {op : Operation} {g d : Dn}
    (hop : op.isRelocation = true) (h : (c.after s op).Lists g d) : ∃ g', c.Lists g' d := by
  cases hnew : op.newDn? with
  | some new =>
      rw [c.after_relocation s hnew] at h
      exact exists_lists_groupRenamed h
  | none =>
      rw [c.after_of_no_newDn s hop hnew] at h
      exact ⟨g, h⟩

/-- Where no cached group lists the anonymous principal, one does afterwards exactly if
    the operation brings a blank. -/
theorem exists_lists_after {c : GroupCache} (h : ∀ g, ¬ c.Lists g Dn.root) (s : MemoryStore)
    (op : Operation) : (∃ g, (c.after s op).Lists g Dn.root) ↔ EnlistsAnonymous s op := by
  have hnone : ∀ {c' : GroupCache}, (∀ g, c'.Lists g Dn.root → ∃ g', c.Lists g' Dn.root) →
      ((∃ g, c'.Lists g Dn.root) ↔ False) := by
    intro c' hback
    refine iff_false_intro ?_
    rintro ⟨g, hg⟩
    obtain ⟨g', hg'⟩ := hback g hg
    exact h g' hg'
  cases op with
  | add entry => exact (exists_lists_groupAdded h entry).trans entry.lists_root
  | delete dn => exact hnone fun g hg => ⟨g, ((lists_groupDeleted c dn g _).mp hg).2⟩
  | modify dn mods =>
      simp only [after, EnlistsAnonymous]
      cases hlookup : s.lookup dn with
      | none =>
          refine (hnone fun g hg => ⟨g, hg⟩).trans (iff_of_false id ?_)
          rintro ⟨e, he, -⟩
          cases he
      | some e =>
          refine (exists_lists_groupModified h dn mods e).trans ?_
          simp only [Option.some.injEq, exists_eq_left']
  | rename _ _ _ | move _ _ | moveAndRename _ _ _ _ =>
      exact hnone fun g hg => exists_lists_relocation rfl hg
  | compare _ _ _ | lookup _ _ | hasEntry _ | search _ _ _ _ =>
      exact hnone fun g hg => ⟨g, hg⟩

end GroupCache

namespace Server

/-- The anonymous principal is neither an administrator nor a member of any cached
    group. -/
def AnonymousIsNobody (server : Server MemoryStore) : Prop :=
  server.world.groups.isAdministrator Principal.anonymous.dn = false
    ∧ ∀ g members, server.world.groups.members? g = some members →
      members.contains Principal.anonymous.dn = false

/-- If the step succeeds, its operation brings a blank among the members of a cached
    group. -/
def EnlistsAnonymous (server : Server MemoryStore) (session : Session) (op : Operation) :
    Prop :=
  (∃ answer, (server.step session op).1 = .ok answer)
    ∧ GroupCache.EnlistsAnonymous server.world.store op

section

variable {config : Configuration} {server : Server MemoryStore}

/-- Where the administrator is not the root, the anonymous principal is nobody if no
    group lists the root. -/
theorem Reachable.anonymousIsNobody_iff (hreach : Reachable config server)
    (hadmin : config.adminDn.isRoot = false) :
    server.AnonymousIsNobody ↔ ∀ g, ¬ server.world.groups.Lists g Dn.root := by
  have hother : Dn.root.same server.world.groups.adminDn = false := by
    rw [hreach.admin.1, ← Bool.not_eq_true, Dn.same_iff]
    intro hroot
    rw [(Dn.isRoot_iff _).mpr hroot.symm] at hadmin
    cases hadmin
  unfold AnonymousIsNobody
  rw [GroupCache.isAdministrator_eq]
  show (Dn.root.same _ || _) = false ∧ _ ↔ _
  rw [hother, Bool.false_or]
  constructor
  · rintro ⟨-, hmembers⟩ g hlisted
    obtain ⟨ms, hget, hroot⟩ := (GroupCache.lists_iff _ g _).mp hlisted
    have hout : ms.contains Dn.root = false := hmembers g ms hget
    rw [hout] at hroot
    cases hroot
  · intro hnone
    refine ⟨eq_false_of_ne_true (hnone _), fun g ms hget => eq_false_of_ne_true fun hroot => ?_⟩
    exact hnone g ((GroupCache.lists_iff _ g _).mpr ⟨ms, hget, hroot⟩)

/-- One step leaves the anonymous principal nobody exactly if it does not enlist
    them. -/
theorem anonymousIsNobody_step (hadmin : config.adminDn.isRoot = false)
    (hreach : Reachable config server) (h : server.AnonymousIsNobody) (session : Session)
    (op : Operation) :
    (server.step session op).2.AnonymousIsNobody ↔ ¬ server.EnlistsAnonymous session op := by
  have hnone := (hreach.anonymousIsNobody_iff hadmin).mp h
  unfold EnlistsAnonymous
  rcases hreach.standard.step_cases session op with
    ⟨⟨e, herr⟩, hsame⟩ | ⟨hok, w, hw, ⟨s', -, rfl⟩, -⟩
  · rw [hsame, herr]
    refine iff_of_true h ?_
    rintro ⟨⟨answer, hok⟩, -⟩
    cases hok
  · rw [(hreach.step session op).anonymousIsNobody_iff hadmin, hw, and_iff_right hok,
      ← GroupCache.exists_lists_after hnone server.world.store op]
    exact not_exists.symm

/-- **THE STANDING OF THE ANONYMOUS PRINCIPAL**: at no time of a run is it an
    administrator or a member of a cached group, exactly if the server started over no
    group with a blank among its members and no step of the run brings one. -/
theorem anonymous_is_nobody_iff {store : MemoryStore} (hadmin : config.adminDn.isRoot = false)
    (hbuilt : store.Built) (hstart : Server.start config store = .ok server)
    (ops : List (Session × Operation)) :
    (∀ n, (server.run (ops.take n)).AnonymousIsNobody)
      ↔ (∀ g e, store.Reaches g → store.lookup g = some e → ¬ e.ListsBlank)
        ∧ ∀ n op, ops[n]? = some op →
          ¬ (server.run (ops.take n)).EnlistsAnonymous op.1 op.2 := by
  have hreach : Reachable config server := .start hbuilt hstart
  have hfirst : server.AnonymousIsNobody
      ↔ ∀ g e, store.Reaches g → store.lookup g = some e → ¬ e.ListsBlank := by
    obtain ⟨-, -, -, hload, -⟩ := start_ok hstart
    rw [GroupCache.load_unloaded] at hload
    injection hload with hloaded
    rw [hreach.anonymousIsNobody_iff hadmin, ← hloaded]
    simp only [GroupCache.lists_loaded _ _ hbuilt.named, MemoryStore.Lists, Entry.lists_root,
      not_and, not_exists]
    exact ⟨fun h g e hg he => h g hg e he, fun h g hg e he => h g e hg he⟩
  rw [← hfirst]
  constructor
  · intro hall
    exact ⟨hall 0, (hreach.run_iff (anonymousIsNobody_step hadmin) (hall 0) ops).mp hall⟩
  · rintro ⟨hnobody, hsteps⟩
    exact (hreach.run_iff (anonymousIsNobody_step hadmin) hnobody ops).mpr hsteps

end

-- ── A small directory ────────────────────────────────────────────────────────────

/-- The operations that make the directory, and a request that adds a blank to the group
    and takes it away in another spelling. -/
def blankPassing : List (Session × Operation) :=
  groupAdditions ++ [(adminSession, .modify adminGroupName
    [.add Attribute.member [" "], .remove Attribute.member [""]])]

/-- A blank that the same request takes away leaves the anonymous principal nobody. -/
theorem passing_blank_enlists_nobody :
    ((fresh groupConfig [topName]).run blankPassing).AnonymousIsNobody := by
  refine (anonymous_is_nobody_iff rfl (.empty [topName]) (start_fresh _ _) blankPassing).mpr
    ⟨fun g e _ he => ?_, fun n op hop => ?_⟩ 3
  · cases he
  · rintro ⟨-, henlists⟩
    have hlist : blankPassing
        = [(adminSession, .add (Entry.named topName)), (adminSession, .add adminGroup),
          (adminSession, .modify adminGroupName
            [.add Attribute.member [" "], .remove Attribute.member [""]])] := rfl
    rw [hlist] at hop
    rcases n with _ | _ | _ | n
    · cases hop
      exact not_lists_named topName Dn.root ((Entry.lists_root _).mpr henlists)
    · cases hop
      have hlists : adminGroup.Lists Dn.root := (Entry.lists_root _).mpr henlists
      exact absurd hlists (by unfold Entry.Lists; decide +kernel)
    · cases hop
      obtain ⟨e, he, hblank⟩ := henlists
      have hgroup : ((fresh groupConfig [topName]).run
          (blankPassing.take 2)).world.store.lookup adminGroupName = some adminGroup := by
        decide +kernel
      cases hgroup.symm.trans he
      exact absurd hblank (by decide +kernel)
    · cases hop

/-- The directory after a blank has been added to the administrators. -/
def blankServer : Server MemoryStore :=
  (fresh groupConfig [topName]).run (groupAdditions ++
    [(adminSession, .modify adminGroupName [.add Attribute.member [" "]])])

/-- The administrator, who is not the root, adds a blank to the group.  From then on
    whoever proved nothing is an administrator, and may delete the group. -/
theorem blank_member_is_anonymous :
    groupConfig.adminDn.isRoot = false ∧ Reachable groupConfig blankServer
      ∧ blankServer.world.groups.isAdministrator Principal.anonymous.dn = true
      ∧ (blankServer.world.groups.groupsOf Principal.anonymous.dn).contains adminGroupName = true
      ∧ blankServer.world.store.lookup adminGroupName ≠ none
      ∧ (blankServer.step Session.anonymous (.delete adminGroupName)).2.world.store.lookup
        adminGroupName = none := by
  refine ⟨rfl, (Reachable.start (.empty [topName]) (start_fresh _ _)).run _, ?_, ?_, ?_, ?_⟩
  all_goals decide +kernel

end Server

end DirectoryAccess
