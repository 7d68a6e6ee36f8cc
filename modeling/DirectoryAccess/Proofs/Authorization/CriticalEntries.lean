import DirectoryAccess.Proofs.Authorization.ProtectedAreas

/-! # Critical entries — what nobody is to take away

    While access control is switched on, the access control stage refuses everybody
    but an administrator to remove or rename the administrator, before any tuple is
    looked at.  While it is switched off, the fixed policy refuses everybody to remove
    or rename the administrator and the administrators group.  Both look at the name
    an operation acts on and at no name above it.  A critical entry therefore stays
    where it is, unless a relocation of some name above it displaces it. -/

namespace DirectoryAccess

open DirectoryAccess.Action

/-- The operations that take an entry away from its name. -/
def Operation.isVacating : Operation → Bool
  | delete _ => true
  | op => op.isRelocation

-- ── What both stages refuse ──────────────────────────────────────────────────────

/-- Nobody whom the access control stage asks for tuples takes the administrator away,
    whatever comes after the stage. -/
theorem AciStage.fails_critical {σ : Type} [Backend σ] {stage : AciStage} {session : Session}
    {op : Operation} {w : World σ} {t : TupleCache} (ht : w.tuples = some t)
    (hasked : stage.bypasses w.groups session = false)
    (hcritical : op.target.same stage.adminDn = true) (hop : op.isVacating = true)
    (next : Handling σ (Outcome (World σ))) : Fails (stage.handle session op next) w := by
  have hget : (MonadState.get : Handling σ (World σ)) w = .ok w w := rfl
  have hrefused : ∀ {dn : Dn}, dn.same stage.adminDn = true →
      Fails (Action.ofExcept (stage.protectCritical dn) : Handling σ Unit) w := by
    intro dn h
    refine Fails.ofExcept (e := .criticalEntryProtected) ?_ w
    rw [protectCritical, h, Bool.or_true]
    rfl
  unfold AciStage.handle
  refine Fails.after (World.tupleCache_of_loaded ht) ?_
  cases op with
  | delete dn =>
      unfold AciStage.delete
      refine Fails.after hget ?_
      simp only [hasked]
      exact Fails.bind (hrefused hcritical)
  | rename dn rdn deleteOld =>
      unfold AciStage.rename
      dsimp only
      split
      · exact ⟨_, w, rfl⟩
      · refine Fails.after hget ?_
        simp only [hasked]
        exact Fails.bind (hrefused hcritical)
  | move dn superior =>
      unfold AciStage.move
      dsimp only
      split
      · exact ⟨_, w, rfl⟩
      · refine Fails.after hget ?_
        simp only [hasked]
        exact Fails.bind (hrefused hcritical)
  | moveAndRename dn superior rdn deleteOld =>
      unfold AciStage.moveAndRename
      refine Fails.after hget ?_
      simp only [hasked]
      exact Fails.bind (hrefused hcritical)
  | add _ | modify _ _ | compare _ _ _ | lookup _ _ | hasEntry _ | search _ _ _ _ => cases hop

/-- Nobody at all takes a critical entry away past the fixed policy. -/
theorem DefaultStage.check_vacating {stage : DefaultStage} {admin : Bool} {principal : Dn}
    {op : Operation} (hop : op.isVacating = true) (h : stage.check admin principal op = .ok ()) :
    stage.areas.isCritical op.target = false := by
  have hprotect : ∀ {dn : Dn} {f : Unit → Except OperationError Unit},
      (stage.protectCritical dn).bind f = .ok () → stage.areas.isCritical dn = false := by
    intro dn f hc
    rw [protectCritical] at hc
    cases hcritical : stage.areas.isCritical dn with
    | false => rfl
    | true =>
        rw [hcritical] at hc
        cases hc
  cases op with
  | delete _ | rename _ _ _ | move _ _ | moveAndRename _ _ _ _ => exact hprotect h
  | add _ | modify _ _ | compare _ _ _ | lookup _ _ | hasEntry _ | search _ _ _ _ => cases hop

-- ── What stays ───────────────────────────────────────────────────────────────────

namespace Server

/-- A step whose first stage is an access control stage that fails has failed. -/
theorem step_of_fails {σ : Type} [Backend σ] {server : Server σ} {stage : AciStage}
    {rest : List Stage} {session : Session} {op : Operation}
    (hstages : server.stages = .aci stage :: rest)
    (h : ∀ next, Fails (stage.handle session (prepare op) next) server.world) :
    ∃ e, (server.step session op).1 = .error e := by
  have hperform : Fails (perform server.stages session op) server.world := by
    unfold perform Chain.execute
    rw [hstages]
    exact Fails.bind (Fails.bind (h (Chain.proceed session (prepare op) rest)))
  obtain ⟨e, w, he⟩ := hperform
  refine ⟨e, ?_⟩
  rw [step, he]

/-- A name is guarded against a session: while access control is switched on, that of the
    administrator against everybody who is no administrator; while it is switched off,
    both critical names against everybody. -/
def Guarded (config : Configuration) (groups : GroupCache) (session : Session) (x : Dn) : Prop :=
  if config.accessControlEnabled then
    x.same config.adminDn = true ∧ groups.isAdministrator session.effective.dn = false
  else (areas config).isCritical x = true

section

variable {config : Configuration} {server : Server MemoryStore} {session : Session}
  {op : Operation} {x : Dn} {e : Entry}

/-- An operation that succeeds and takes an entry away does not act on a guarded name. -/
theorem Guarded.not_target (hreach : Reachable config server)
    (h : Guarded config server.world.groups session x) (hop : op.isVacating = true)
    {answer : Answer} (hok : (server.step session op).1 = .ok answer)
    (hallows : Allows config session op server.world) : x.key ≠ op.target.key := by
  intro hkey
  rw [Guarded] at h
  split at h
  · next hon =>
    obtain ⟨hadminDn, hadmin⟩ := h
    obtain ⟨t, ht⟩ := hreach.standard.loaded
    have hasked : (AciStage.ofConfiguration config).bypasses server.world.groups session
        = false := by
      rw [AciStage.bypasses, hadmin, Bool.or_false]
      show (!config.accessControlEnabled) = false
      rw [hon]
      rfl
    have htarget : op.target.same (AciStage.ofConfiguration config).adminDn = true :=
      (Dn.same_iff ..).mpr (hkey.symm.trans ((Dn.same_iff ..).mp hadminDn))
    have hprepare : prepare op = op := by
      cases op with
      | compare _ _ _ => cases hop
      | add _ | delete _ | modify _ _ | rename _ _ _ | move _ _ | moveAndRename _ _ _ _
      | lookup _ _ | hasEntry _ | search _ _ _ _ => rfl
    obtain ⟨err, herr⟩ := step_of_fails hreach.standard.stages_eq fun next => by
      rw [hprepare]
      exact AciStage.fails_critical ht hasked htarget hop next
    rw [herr] at hok
    cases hok
  · next hoff =>
    have hon : (DefaultStage.ofConfiguration config .shared).enabled = true := by
      show (!config.accessControlEnabled) = true
      rw [eq_false_of_ne_true hoff]
      rfl
    have hfree : (areas config).isCritical op.target = false :=
      DefaultStage.check_vacating hop (hallows hon)
    rw [ProtectedAreas.isCritical_congr _ hkey, hfree] at h
    cases h

/-- A guarded entry stays under its name at every step, whatever tuples there are, with the
    attributes it had or those that the step modifies it to; unless it is displaced by the
    relocation of a name above it.  If it is, what is found under its name afterwards is
    another entry. -/
theorem critical_entry_stays (hreach : Reachable config server)
    (hguarded : Guarded config server.world.groups session x)
    (hstored : server.world.store.lookup x = some e) (op : Operation) :
    (¬server.Displaced session op x →
        (server.step session op).2.world.store.Holds x e.attrs
          ∨ ∃ dn mods, op = .modify dn mods ∧ dn.same x = true
            ∧ (server.step session op).2.world.store.Holds x
                (mods.foldl Entry.project e).attrs)
      ∧ (server.Displaced session op x →
        ∀ e', (server.step session op).2.world.store.lookup x = some e' →
          ∃ d ∈ server.world.store.entries.entries, d.1.same x = false
            ∧ d.1.isDescendantOf op.target = true ∧ e'.attrs = d.2.attrs) := by
  have hnamed := hreach.built.named
  rcases hreach.standard.step_cases session op with
    ⟨⟨err, herr⟩, hsame⟩ | ⟨⟨answer, hok⟩, w, hw, ⟨s', hs', rfl⟩, hallows⟩
  · rw [hsame]
    refine ⟨fun _ => Or.inl (hnamed.holds hstored), ?_⟩
    rintro ⟨⟨answer, hanswer⟩, -⟩
    rw [herr] at hanswer
    cases hanswer
  · have hnamed' := hnamed.after hs'
    have hstore : (server.step session op).2.world.store = s' := by
      rw [hw]
      rfl
    rw [hstore]
    cases hop : op.isRelocation with
    | false =>
        constructor
        · intro _
          by_cases hkey : x.key = op.target.key
          · cases op with
            | add entry => exact absurd hkey (MemoryStore.add_target hs' hstored)
            | delete dn => exact absurd hkey (hguarded.not_target hreach rfl hok hallows)
            | modify dn mods =>
                have hkey : x.key = dn.key := hkey
                obtain ⟨e₀, he₀, -, rfl⟩ := MemoryStore.modify_ok hs'
                rw [← NameMap.get?_congr _ hkey] at he₀
                cases he₀.symm.trans hstored
                have hlookup : OrdMap.get? (server.world.store.entries.insert dn
                    (mods.foldl Entry.project e)) x = some (mods.foldl Entry.project e) :=
                  (NameMap.get?_insert ..).trans (if_pos hkey)
                exact Or.inr ⟨dn, mods, rfl, (Dn.same_iff dn x).mpr hkey.symm,
                  hnamed'.holds hlookup⟩
            | rename _ _ _ | move _ _ | moveAndRename _ _ _ _ => cases hop
            | compare _ _ _ | lookup _ _ | hasEntry _ | search _ _ _ _ =>
                cases hs'
                exact Or.inl (hnamed.holds hstored)
          · exact Or.inl (hnamed'.holds ((MemoryStore.lookup_after hs' hop hkey).trans hstored))
        · rintro ⟨-, new, hnew, -⟩
          rw [Operation.isRelocation_of_newDn hnew] at hop
          cases hop
    | true =>
        have hvacating : op.isVacating = true := by
          cases op <;> first | rfl | exact hop
        have htarget := hguarded.not_target hreach hvacating hok hallows
        obtain ⟨new, hnew, hrelocate⟩ := MemoryStore.after_relocation hop hs'
        constructor
        · intro hnot
          refine Or.inl (MemoryStore.relocate_keeps hnamed hrelocate hstored htarget ?_)
          exact fun hd => hnot ⟨⟨answer, hok⟩, new, hnew, hd⟩
        · rintro ⟨-, new', hnew', hd⟩ e' he'
          rw [hnew] at hnew'
          cases hnew'
          exact MemoryStore.relocate_displaces hrelocate hstored hd he'

end

-- ── A small directory ────────────────────────────────────────────────────────────

/-- Not even the administrator deletes the administrator's entry, which is the top. -/
theorem top_stays :
    (topServer.step adminSession (.delete topName)).1 = .error .criticalEntryProtected
      ∧ (topServer.step adminSession (.delete topName)).2.world.store.Holds topName
          (Entry.named topName).attrs := by
  have hrefused : (topServer.step adminSession (.delete topName)).1
      = .error .criticalEntryProtected := by rfl
  have hcritical : Guarded ⟨false, topName, topName, topName, topName, .info⟩
      topServer.world.groups adminSession topName := by
    show (areas _).isCritical topName = true
    rfl
  have hnot : ¬topServer.Displaced adminSession (.delete topName) topName := by
    rintro ⟨⟨answer, hanswer⟩, -⟩
    cases hrefused.symm.trans hanswer
  refine ⟨hrefused, ?_⟩
  rcases (critical_entry_stays ((Reachable.start (.empty [topName]) (start_fresh _ _)).run _)
    hcritical (e := Entry.named topName) (by rfl) (.delete topName)).1 hnot with
    hkept | ⟨_, _, hmodify, -⟩
  · exact hkept
  · cases hmodify

/-- A server whose administrator stands below the base of the users. -/
def lowAdminServer : Server MemoryStore :=
  (fresh ⟨false, userName, groupsName, usersName, groupsName, .info⟩ [topName]).run
    [(Session.anonymous, .add (Entry.named topName)),
     (Session.anonymous, .add (Entry.named usersName)),
     (Session.anonymous, .add (Entry.named userName))]

/-- The base is not critical itself.  Somebody unknown may rename it, and takes the
    administrator along. -/
theorem admin_displaced_by_rename :
    Guarded lowAdminServer.config lowAdminServer.world.groups Session.anonymous userName
      ∧ lowAdminServer.world.store.Holds userName (Entry.named userName).attrs
      ∧ (lowAdminServer.step Session.anonymous (.rename usersName otherBase true)).1 = .ok .done
      ∧ (lowAdminServer.step Session.anonymous
          (.rename usersName otherBase true)).2.world.store.lookup userName = none := by
  refine ⟨?_, ⟨Entry.named userName, by rfl, by rfl, rfl⟩, by rfl, by rfl⟩
  show (areas _).isCritical userName = true
  rfl

end Server

end DirectoryAccess
