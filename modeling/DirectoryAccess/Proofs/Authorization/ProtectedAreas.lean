import DirectoryAccess.Proofs.Server.Reachable
import DirectoryAccess.Proofs.Store.Relocation

/-! # Protected areas — what the fixed policy keeps from changing

    The fixed policy looks at the name an operation acts on, and at the new name of
    a relocation.  A relocation takes everything below its target along, and nobody
    asks whether that is protected.  A protected entry that is not the requester's
    own therefore stays as it is, unless a relocation of some name above it
    DISPLACES it: takes it away, or puts another entry in its place. -/

namespace DirectoryAccess

/-- A relocation from `dn` to `new` displaces a name if it leads to another name, and
    the displaced one is strictly below `dn` or is where something from strictly
    below `dn` lands. -/
def MemoryStore.Displaces (s : MemoryStore) (dn new x : Dn) : Prop :=
  new.same dn = false ∧
    (x.isDescendantOf dn = true
      ∨ ∃ d ∈ s.entries.entries, d.1.isDescendantOf dn = true
        ∧ ∃ r, d.1.rebase? dn new = some r ∧ r.same x = true)

namespace ProtectedAreas

/-- A name is critical in every spelling. -/
theorem isCritical_congr (areas : ProtectedAreas) {x y : Dn} (h : x.key = y.key) :
    areas.isCritical x = areas.isCritical y := by
  rw [Bool.eq_iff_iff]
  simp only [isCritical, Bool.or_eq_true, Dn.same_iff, h]

theorem isProtected_congr (areas : ProtectedAreas) {x y : Dn} (h : x.key = y.key) :
    areas.isProtected x = areas.isProtected y := by
  rw [Bool.eq_iff_iff]
  simp only [isProtected, isCritical, Bool.or_eq_true, Dn.same_iff, Dn.isDescendantOf_iff, h]

end ProtectedAreas

namespace DefaultStage

/-- A check that is refused under a condition was passed where it does not hold. -/
theorem of_refusal {c : Except OperationError Unit} {b : Bool} {e : OperationError}
    (h : (c.bind fun _ => if b then .error e else .ok ()) = .ok ()) : b = false := by
  cases b with
  | false => rfl
  | true => cases c <;> cases h

/-- Nobody but an administrator deletes what is protected. -/
theorem check_delete {stage : DefaultStage} {principal dn : Dn}
    (h : stage.check false principal (.delete dn) = .ok ()) :
    stage.areas.isProtected dn = false :=
  of_refusal h

/-- Nobody but an administrator modifies what is protected, except for their own
    entry. -/
theorem check_modify {stage : DefaultStage} {principal dn : Dn} {mods : List Modification}
    (h : stage.check false principal (.modify dn mods) = .ok ()) :
    stage.areas.isProtected dn = false ∨ dn.same principal = true := by
  simp only [check, checkModify] at h
  cases hp : stage.areas.isProtected dn with
  | false => exact Or.inl rfl
  | true =>
      rw [hp] at h
      cases hown : dn.same principal with
      | true => exact Or.inr rfl
      | false =>
          rw [hown] at h
          cases h

/-- Nobody but an administrator relocates what is protected. -/
theorem check_relocation {stage : DefaultStage} {principal : Dn} {op : Operation}
    (hop : op.isRelocation = true) (h : stage.check false principal op = .ok ()) :
    stage.areas.isProtected op.target = false := by
  have hboth : ∀ dn new, stage.checkRelocation false dn new = .ok () →
      stage.areas.isProtected dn = false := by
    intro dn new hc
    exact (Bool.or_eq_false_iff.mp (of_refusal hc)).1
  cases op with
  | rename dn rdn deleteOld => exact hboth dn _ h
  | move dn superior => exact hboth dn _ h
  | moveAndRename dn superior rdn deleteOld =>
      exact hboth dn (some (superior.child rdn)) h
  | add _ | delete _ | modify _ _ | compare _ _ _ | lookup _ _ | hasEntry _
  | search _ _ _ _ => cases hop

end DefaultStage

-- ── What a relocation keeps ──────────────────────────────────────────────────────

namespace MemoryStore

/-- An entry is stored under a name with certain attributes. -/
def Holds (s : MemoryStore) (x : Dn) (attrs : Attributes) : Prop :=
  ∃ e, s.lookup x = some e ∧ e.dn.same x = true ∧ e.attrs = attrs

theorem Named.holds {s : MemoryStore} (h : s.Named) {x : Dn} {e : Entry}
    (he : s.lookup x = some e) : s.Holds x e.attrs :=
  ⟨e, he, (Dn.same_iff e.dn x).mpr (h x e he), rfl⟩

/-- What lands on a stored name, in a relocation to another name, comes from strictly
    below the old one: the entry itself lands on a free name. -/
theorem isDescendantOf_of_lands {s s' : MemoryStore} {dn new x : Dn} {adjust : Entry → Entry}
    {e : Entry} (h : s.relocate dn new adjust = .ok s') (hsame : new.same dn = false)
    (he : s.lookup x = some e) {d r : Dn} (hd : d.isWithin dn = true)
    (hr : d.rebase? dn new = some r) (hrx : r.key = x.key) : d.isDescendantOf dn = true := by
  refine (Dn.isDescendantOf_iff d dn).mpr ⟨(Dn.isWithin_iff d dn).mp hd, ?_⟩
  intro hdn
  rw [Dn.rebase_self hdn.symm] at hr
  cases hr
  obtain ⟨-, hfree, -⟩ := relocate_ok h
  rcases hfree with hs | hfree
  · rw [hsame] at hs
    cases hs
  · rw [OrdMap.contains_eq_false_iff, NameMap.get?_congr s.entries hrx] at hfree
    have he : OrdMap.get? s.entries x = some e := he
    rw [hfree] at he
    cases he

/-- An entry that lands on a stored name, in a relocation to another name, was stored under
    another one and comes with the attributes that it had there. -/
theorem landed_of_lands {s s' : MemoryStore} {dn new x : Dn} {adjust : Entry → Entry}
    {e : Entry} (h : s.relocate dn new adjust = .ok s') (hsame : new.same dn = false)
    (he : s.lookup x = some e) {d : Dn × Entry} (hd : d.1.isWithin dn = true) {r : Dn}
    (hr : d.1.rebase? dn new = some r) (hrx : r.key = x.key) :
    d.1.same x = false ∧ d.1.isDescendantOf dn = true
      ∧ (landed dn adjust d.1 r d.2).attrs = d.2.attrs := by
  have hdn := isDescendantOf_of_lands h hsame he hd hr hrx
  obtain ⟨rel, hrel, hrkey⟩ := Dn.key_rebase hr
  refine ⟨?_, hdn, ?_⟩
  · rw [← Bool.not_eq_true, Dn.same_iff]
    intro hdx
    have hrels : rel ++ new.key = rel ++ dn.key := by
      rw [← hrkey, ← hrel, hrx, hdx]
    rw [(Dn.same_iff new dn).mpr (List.append_cancel_left hrels)] at hsame
    cases hsame
  · have hnot : d.1.same dn = false := by
      rw [← Bool.not_eq_true, Dn.same_iff]
      exact Ne.symm ((Dn.isDescendantOf_iff d.1 dn).mp hdn).2
    rw [landed, hnot]
    rfl

/-- A relocation to another spelling of a name leaves every entry but the one itself in
    its place. -/
theorem respelling_keeps {s s' : MemoryStore} (hnamed : s.Named) {dn new x : Dn}
    {adjust : Entry → Entry} {e : Entry} (h : s.relocate dn new adjust = .ok s')
    (hsame : new.key = dn.key) (he : s.lookup x = some e) (htarget : x.key ≠ dn.key) :
    s'.Holds x e.attrs := by
  obtain ⟨l, ⟨hl, hdistinct⟩, hcarried⟩ := relocate_carries h
  obtain ⟨k, hk, hkx⟩ := NameMap.mem_of_get? s.entries he
  cases hin : x.isWithin dn with
  | false =>
      refine ⟨e, ?_, (Dn.same_iff e.dn x).mpr (hnamed x e he), rfl⟩
      show OrdMap.get? s'.entries x = some e
      rw [hcarried]
      exact (get?_carryAll_of_free hl hdistinct (Or.inl hsame)).mpr (Or.inl ⟨hin, he⟩)
  | true =>
      have hw : k.isWithin dn = true := (Dn.isWithin_congr hkx dn).trans hin
      obtain ⟨rel, hrel⟩ := (Dn.isWithin_iff k dn).mp hw
      obtain ⟨r, hr, hrkey⟩ := Dn.rebase_of_within hrel.symm new
      have hrx : r.key = x.key := by
        rw [hrkey, hsame, hrel, hkx]
      have hnot : k.same dn = false := by
        rw [← Bool.not_eq_true, Dn.same_iff, hkx]
        exact htarget
      refine ⟨e.withDn r, ?_, (Dn.same_iff r x).mpr hrx, rfl⟩
      show OrdMap.get? s'.entries x = _
      rw [hcarried]
      refine (get?_carryAll_of_free hl hdistinct (Or.inl hsame)).mpr
        (Or.inr ⟨(k, e), (hl (k, e)).mpr ⟨hk, hw⟩, r, hr, hrx, ?_⟩)
      rw [landed, hnot]
      rfl

/-- A relocation keeps an entry that is neither its own nor displaced by it. -/
theorem relocate_keeps {s s' : MemoryStore} (hnamed : s.Named) {dn new x : Dn}
    {adjust : Entry → Entry} {e : Entry} (h : s.relocate dn new adjust = .ok s')
    (he : s.lookup x = some e) (htarget : x.key ≠ dn.key)
    (hkept : ¬s.Displaces dn new x) : s'.Holds x e.attrs := by
  cases hsame : new.same dn with
  | true => exact respelling_keeps hnamed h ((Dn.same_iff new dn).mp hsame) he htarget
  | false =>
      obtain ⟨l, ⟨hl, -⟩, hcarried⟩ := relocate_carries h
      have hnotin : x.isWithin dn = false := by
        rw [← Bool.not_eq_true]
        intro hw
        have hbelow := (Dn.isDescendantOf_iff x dn).mpr
          ⟨(Dn.isWithin_iff x dn).mp hw, Ne.symm htarget⟩
        exact hkept ⟨hsame, Or.inl hbelow⟩
      refine ⟨e, ?_, (Dn.same_iff e.dn x).mpr (hnamed x e he), rfl⟩
      show OrdMap.get? s'.entries x = some e
      rw [hcarried]
      refine (carryAll_frame s.entries ?_ ?_).trans he
      · intro d hd hdx
        rw [← Dn.isWithin_congr hdx, ((hl d).mp hd).2] at hnotin
        cases hnotin
      · intro d hd r hr hrx
        have hdn := isDescendantOf_of_lands h hsame he ((hl d).mp hd).2 hr hrx
        exact hkept ⟨hsame, Or.inr ⟨d, ((hl d).mp hd).1, hdn, r, hr, (Dn.same_iff r x).mpr hrx⟩⟩

/-- What is found under a displaced name afterwards is another entry, which was stored
    strictly below the old name. -/
theorem relocate_displaces {s s' : MemoryStore} {dn new x : Dn} {adjust : Entry → Entry}
    {e e' : Entry} (h : s.relocate dn new adjust = .ok s') (he : s.lookup x = some e)
    (hdisplaced : s.Displaces dn new x) (he' : s'.lookup x = some e') :
    ∃ d ∈ s.entries.entries, d.1.same x = false ∧ d.1.isDescendantOf dn = true
      ∧ e'.attrs = d.2.attrs := by
  obtain ⟨hsame, hcase⟩ := hdisplaced
  obtain ⟨l, ⟨hl, hdistinct⟩, hcarried⟩ := relocate_carries h
  have hmoved : (carryAll (landed dn adjust) dn new l s.entries).get? x = some e' := by
    rw [← hcarried]
    exact he'
  have hcame : ∃ d ∈ l, ∃ r, d.1.rebase? dn new = some r ∧ r.key = x.key
      ∧ e' = landed dn adjust d.1 r d.2 := by
    rcases carryAll_origin hmoved with ⟨-, hleft⟩ | hcame
    · -- nothing has been taken away from here, so something has landed here
      rcases hcase with hbelow | ⟨d, hd, hdn, r, hr, hrx⟩
      · obtain ⟨k, hk, hkx⟩ := NameMap.mem_of_get? s.entries he
        have hw : k.isWithin dn = true := by
          rw [Dn.isWithin_congr hkx, Dn.isWithin_iff]
          exact ((Dn.isDescendantOf_iff x dn).mp hbelow).1
        exact absurd hkx (hleft (k, e) ((hl (k, e)).mpr ⟨hk, hw⟩))
      · have hrx := (Dn.same_iff r x).mp hrx
        have hmem : d ∈ l := (hl d).mpr ⟨hd, Dn.isWithin_of_rebase hr⟩
        have hland : (carryAll (landed dn adjust) dn new l s.entries).get? x
            = some (landed dn adjust d.1 r d.2) :=
          carryAll_lands s.entries hdistinct hmem hr hrx
            (hdistinct.imp_of_mem fun _ hd' _ _ => hleft _ hd')
        exact ⟨d, hmem, r, hr, hrx, Option.some.inj (hmoved.symm.trans hland)⟩
    · exact hcame
  obtain ⟨d, hd, r, hr, hrx, rfl⟩ := hcame
  obtain ⟨hmem, hw⟩ := (hl d).mp hd
  exact ⟨d, hmem, landed_of_lands h hsame he hw hr hrx⟩

end MemoryStore

/-- Only a relocation has a new name. -/
theorem Operation.isRelocation_of_newDn {op : Operation} {new : Dn}
    (h : op.newDn? = some new) : op.isRelocation = true := by
  cases op with
  | rename _ _ _ | move _ _ | moveAndRename _ _ _ _ => rfl
  | add _ | delete _ | modify _ _ | compare _ _ _ | lookup _ _ | hasEntry _
  | search _ _ _ _ => cases h

namespace Server

/-- The names that the fixed policy of a configuration is about. -/
def areas (config : Configuration) : ProtectedAreas :=
  (DefaultStage.ofConfiguration config .shared).areas

/-- A step relocates something, and displaces a name by it. -/
def Displaced (server : Server MemoryStore) (session : Session) (op : Operation) (x : Dn) :
    Prop :=
  (∃ answer, (server.step session op).1 = .ok answer)
    ∧ ∃ new, op.newDn? = some new ∧ server.world.store.Displaces op.target new x

section

variable {config : Configuration} {server : Server MemoryStore} {session : Session}
  {op : Operation} {x : Dn} {e : Entry}

/-- An operation that the fixed policy allows to somebody who is no administrator
    leaves a protected entry that is not their own as it is, unless it relocates. -/
theorem allowed_keeps {s' : MemoryStore}
    (hallowed : (DefaultStage.ofConfiguration config .shared).check false
      session.effective.dn op = .ok ())
    (hprotected : (areas config).isProtected x = true)
    (hown : x.same session.effective.dn = false)
    (hstored : server.world.store.lookup x = some e) (hop : op.isRelocation = false)
    (hstep : server.world.store.after op = .ok s') : s'.lookup x = some e := by
  by_cases hx : x.key = op.target.key
  · have htarget : (areas config).isProtected op.target = true := by
      rw [← ProtectedAreas.isProtected_congr _ hx]
      exact hprotected
    cases op with
    | add entry => exact absurd hx (MemoryStore.add_target hstep hstored)
    | delete dn =>
        have hfree : (areas config).isProtected dn = false := DefaultStage.check_delete hallowed
        cases hfree.symm.trans htarget
    | modify dn mods =>
        rcases DefaultStage.check_modify hallowed with hnot | howner
        · cases hnot.symm.trans htarget
        · rw [← Bool.not_eq_true, Dn.same_iff, hx] at hown
          exact absurd ((Dn.same_iff dn _).mp howner) hown
    | rename _ _ _ | move _ _ | moveAndRename _ _ _ _ => cases hop
    | compare _ _ _ | lookup _ _ | hasEntry _ | search _ _ _ _ =>
        cases hstep
        exact hstored
  · exact (MemoryStore.lookup_after hstep hop hx).trans hstored

/-- What the fixed policy allows to somebody who is no administrator has passed its
    check. -/
theorem check_of_allows {w : World MemoryStore} (hoff : config.accessControlEnabled = false)
    (hadmin : w.groups.isAdministrator session.effective.dn = false)
    (h : Allows config session op w) :
    (DefaultStage.ofConfiguration config .shared).check false session.effective.dn op
      = .ok () := by
  have hon : (DefaultStage.ofConfiguration config .shared).enabled = true := by
    show (!config.accessControlEnabled) = true
    rw [hoff]
    rfl
  have hchecked := h hon
  rw [show (DefaultStage.ofConfiguration config .shared).groups w = w.groups from rfl, hadmin]
    at hchecked
  exact hchecked

/-- While access control is switched off, a protected entry stays as it is under every
    operation of somebody who is no administrator and whose own entry it is not,
    unless it is displaced by the relocation of a name above it.  If it is, what is
    found under its name afterwards is another entry. -/
theorem protected_entry_kept (hreach : Reachable config server)
    (hoff : config.accessControlEnabled = false)
    (hadmin : server.world.groups.isAdministrator session.effective.dn = false)
    (hprotected : (areas config).isProtected x = true)
    (hown : x.same session.effective.dn = false)
    (hstored : server.world.store.lookup x = some e) (op : Operation) :
    (¬server.Displaced session op x →
        (server.step session op).2.world.store.Holds x e.attrs)
      ∧ (server.Displaced session op x →
        ∀ e', (server.step session op).2.world.store.lookup x = some e' →
          ∃ d ∈ server.world.store.entries.entries, d.1.same x = false
            ∧ d.1.isDescendantOf op.target = true ∧ e'.attrs = d.2.attrs) := by
  have hholds := hreach.built.named.holds hstored
  rcases hreach.standard.step_cases session op with
    ⟨⟨err, herr⟩, hsame⟩ | ⟨hok, w, hw, ⟨s', hs', rfl⟩, hallows⟩
  · rw [hsame]
    refine ⟨fun _ => hholds, ?_⟩
    rintro ⟨⟨answer, hanswer⟩, -⟩
    rw [herr] at hanswer
    cases hanswer
  · have hstore : (server.step session op).2.world.store = s' := by
      rw [hw]
      rfl
    have hcheck := check_of_allows hoff hadmin hallows
    rw [hstore]
    cases hop : op.isRelocation with
    | false =>
        have hkept := allowed_keeps hcheck hprotected hown hstored hop hs'
        refine ⟨fun _ => (hreach.built.named.after hs').holds hkept, ?_⟩
        rintro ⟨-, new, hnew, -⟩
        rw [Operation.isRelocation_of_newDn hnew] at hop
        cases hop
    | true =>
        obtain ⟨new, hnew, hrelocate⟩ := MemoryStore.after_relocation hop hs'
        have htarget : x.key ≠ op.target.key := by
          intro hkey
          rw [ProtectedAreas.isProtected_congr _ hkey,
            show (areas config).isProtected op.target = false from
              DefaultStage.check_relocation hop hcheck] at hprotected
          cases hprotected
        constructor
        · intro hnot
          refine MemoryStore.relocate_keeps hreach.built.named hrelocate hstored htarget ?_
          exact fun hd => hnot ⟨hok, new, hnew, hd⟩
        · rintro ⟨-, new', hnew', hd⟩ e' he'
          rw [hnew] at hnew'
          cases hnew'
          exact MemoryStore.relocate_displaces hrelocate hstored hd he'

end

-- ── A small directory ────────────────────────────────────────────────────────────

/-- A server with the fixed policy and one user. -/
def smallServer : Server MemoryStore :=
  (fresh ⟨false, topName, groupsName, usersName, groupsName, .info⟩ [topName]).run
    [(Session.anonymous, .add (Entry.named topName)),
     (Session.anonymous, .add (Entry.named usersName)),
     (Session.anonymous, .add (Entry.named userName))]

/-- Somebody unknown is refused to delete the user, who stays. -/
theorem user_kept_from_deletion :
    (smallServer.step Session.anonymous (.delete userName)).1 = .error .accessDenied
      ∧ (smallServer.step Session.anonymous (.delete userName)).2.world.store.Holds userName
          (Entry.named userName).attrs := by
  have hdenied : (smallServer.step Session.anonymous (.delete userName)).1
      = .error .accessDenied := by rfl
  refine ⟨hdenied, (protected_entry_kept
    ((Reachable.start (.empty [topName]) (start_fresh _ _)).run _)
    (by rfl) (by rfl) (by rfl) (by rfl) (by rfl) (.delete userName)).1 ?_⟩
  rintro ⟨⟨answer, hanswer⟩, -⟩
  cases hdenied.symm.trans hanswer

/-- The base of the users is not protected itself.  Somebody unknown may rename it, and
    takes the user along. -/
theorem user_displaced_by_rename :
    (areas smallServer.config).isProtected userName = true
      ∧ smallServer.world.groups.isAdministrator Session.anonymous.effective.dn = false
      ∧ smallServer.world.store.Holds userName (Entry.named userName).attrs
      ∧ (smallServer.step Session.anonymous (.rename usersName
          ⟨"ou", "v", by decide, by decide, by decide, by decide⟩ true)).1 = .ok .done
      ∧ (smallServer.step Session.anonymous (.rename usersName
          ⟨"ou", "v", by decide, by decide, by decide, by decide⟩ true)).2.world.store.lookup
            userName = none :=
  ⟨by rfl, by rfl, ⟨Entry.named userName, by rfl, by rfl, rfl⟩, by rfl, by rfl⟩

end Server

end DirectoryAccess
