import DirectoryAccess.Proofs.Authorization.ProtectedAreas
import DirectoryAccess.Proofs.Server.Reading
import DirectoryAccess.Proofs.Server.Secrecy

/-! # Hiding — what the fixed policy does not keep to itself

    Take two servers with the fixed policy that are the same but for what one entry holds,
    stored under a protected name.  Nobody but administrators and the bearer of the name
    learns from a lookup, from a search or from asking whether an entry is there which of
    the two they are talking to.  A comparison is passed on without a look at the name, so
    anybody learns from it which values the entry holds. -/

namespace DirectoryAccess

open DirectoryAccess.Action

-- ── Stores that differ in one entry ──────────────────────────────────────────────

/-- What is stored under two names: the names are the same, and so are the entries, unless
    the name is this one; then they are called the same. -/
def Entry.DifferAt (x : Dn) (d d' : Dn × Entry) : Prop :=
  d.1 = d'.1 ∧ (d.2 = d'.2 ∨ d.1 = x ∧ d.2.dn = d'.2.dn)

/-- Worlds with the same groups that hold the same, but for the attributes of the entry
    stored under one name. -/
structure World.DifferAt (x : Dn) (w w' : World MemoryStore) : Prop where
  entries : List.Forall₂ (Entry.DifferAt x) w.store.entries.entries w'.store.entries.entries
  groups_eq : w.groups = w'.groups

/-- What differs in one attribute of an entry differs at its name. -/
theorem World.AlikeBut.differAt {x : Dn} {a : String} {w w' : World MemoryStore}
    (h : w.AlikeBut x a w') : w.DifferAt x w' :=
  ⟨h.store.entries.imp fun _ _ hd => ⟨hd.1, hd.2.imp_right fun hx => ⟨hx.1, hx.2.dn_eq⟩⟩,
    h.groups_eq⟩

namespace World.DifferAt

variable {x : Dn} {w w' : World MemoryStore} (h : w.DifferAt x w')

include h

/-- Under another name the same is stored. -/
theorem lookup_eq {dn : Dn} (hdn : dn.key ≠ x.key) : w.store.lookup dn = w'.store.lookup dn := by
  have hvalue : ∀ {l l' : List (Dn × Entry)}, List.Forall₂ (Entry.DifferAt x) l l' →
      valueIn l dn = valueIn l' dn := by
    intro l l' hl
    induction hl with
    | nil => rfl
    | @cons d d' l l' hd _ ih =>
        obtain ⟨hname, hentry⟩ := hd
        rw [valueIn_cons, valueIn_cons, ← hname, ih]
        rcases hentry with hsame | ⟨hx, -⟩
        · rw [hsame]
        · rw [hx, if_neg fun hsame => hdn ((Dn.compare_eq_iff dn x).mp hsame),
            if_neg fun hsame => hdn ((Dn.compare_eq_iff dn x).mp hsame)]
  exact hvalue h.entries

theorem contains_eq (dn : Dn) : w.store.entries.contains dn = w'.store.entries.contains dn := by
  have hvalue : ∀ {l l' : List (Dn × Entry)}, List.Forall₂ (Entry.DifferAt x) l l' →
      (valueIn l dn).isSome = (valueIn l' dn).isSome := by
    intro l l' hl
    induction hl with
    | nil => rfl
    | @cons d d' l l' hd _ ih =>
        rw [valueIn_cons, valueIn_cons, ← hd.1]
        split
        · rfl
        · exact ih
  exact hvalue h.entries

end World.DifferAt

/-- The operation that tells such worlds apart: a comparison of the entry with what it holds
    in one of them alone. -/
def Operation.Betrays (w w' : World MemoryStore) (x : Dn) : Operation → Prop
  | .compare dn attr value => dn.same x = true
      ∧ ∃ e e', w.store.lookup x = some e ∧ w'.store.lookup x = some e'
        ∧ e.holds (Text.lowercase attr) value ≠ e'.holds (Text.lowercase attr) value
  | _ => False

namespace Server

variable {config : Configuration} {session : Session} {w w' : World MemoryStore} {x : Dn}

-- ── With the fixed policy ────────────────────────────────────────────────────────

/-- With access control switched off nobody is asked. -/
theorem bypasses_of_off (hoff : config.accessControlEnabled = false) (groups : GroupCache)
    (session : Session) : (AciStage.ofConfiguration config).bypasses groups session = true := by
  have henabled : (AciStage.ofConfiguration config).enabled = false := hoff
  rw [AciStage.bypasses, henabled]
  rfl

/-- What is not hidden is shown as it is. -/
theorem shows_of_off (hoff : config.accessControlEnabled = false) (attrs : Option (List String))
    (e : Entry) :
    w.shows config session attrs e
      = if w.hides config session e.dn then none else some (e.select attrs) := by
  have hb := bypasses_of_off hoff w.groups session
  rw [World.shows, permits_of_bypassed hb, revealed_of_bypassed hb]
  rfl

/-- With access control off what is hidden is not looked up, and everything else is read
    from the store. -/
theorem lookedUp_of_off (hoff : config.accessControlEnabled = false) (dn : Dn)
    (attrs : Option (List String)) :
    w.lookedUp config session dn attrs
      = if w.hides config session dn then .error .accessDenied
        else (w.store.required dn).map fun e => e.select attrs := by
  have hb := bypasses_of_off hoff w.groups session
  rw [World.lookedUp]
  split
  · rfl
  · simp only [permits_of_bypassed hb, revealed_of_bypassed hb]
    cases w.store.required dn <;> rfl

/-- With access control off an entry is present if the store holds it. -/
theorem present_of_off (hoff : config.accessControlEnabled = false) (dn : Dn) :
    w.present config session dn = (dn.isRoot || w.store.entries.contains dn) := by
  have hb := bypasses_of_off hoff w.groups session
  have hcontains : w.store.entries.contains dn = (w.store.lookup dn).isSome := rfl
  rw [World.present, hcontains]
  cases w.store.lookup dn with
  | none => rfl
  | some e => exact congrArg (_ || ·) (permits_of_bypassed hb _ e)

/-- A name is hidden in every spelling. -/
theorem hides_congr {dn dn' : Dn} (hkey : dn.key = dn'.key) :
    w.hides config session dn = w.hides config session dn' := by
  have hsame : dn.same session.effective.dn = dn'.same session.effective.dn := by
    rw [Bool.eq_iff_iff, Dn.same_iff, Dn.same_iff, hkey]
  rw [World.hides, World.hides, ProtectedAreas.isProtected_congr _ hkey, hsame]

-- ── Telling the worlds apart ─────────────────────────────────────────────────────

theorem hides_eq (h : w.DifferAt x w') (dn : Dn) :
    w.hides config session dn = w'.hides config session dn := by
  rw [World.hides, World.hides, h.groups_eq]

/-- A lookup is refused in both worlds, or shows the same. -/
theorem lookedUp_eq (hoff : config.accessControlEnabled = false) (h : w.DifferAt x w')
    (hhidden : w.hides config session x = true) (dn : Dn) (attrs : Option (List String)) :
    w.lookedUp config session dn attrs = w'.lookedUp config session dn attrs := by
  rw [lookedUp_of_off hoff, lookedUp_of_off hoff, ← hides_eq h]
  split
  · rfl
  · next hshown =>
    have hdn : dn.key ≠ x.key := by
      intro hkey
      rw [hides_congr hkey] at hshown
      exact hshown hhidden
    rw [MemoryStore.required, MemoryStore.required, h.lookup_eq hdn]

/-- The same entries are present in both worlds. -/
theorem present_eq (hoff : config.accessControlEnabled = false) (h : w.DifferAt x w') (dn : Dn) :
    w.present config session dn = w'.present config session dn := by
  rw [present_of_off hoff, present_of_off hoff, h.contains_eq]

/-- A search shows the same: whatever it finds of the entry is dropped on its way out. -/
theorem searchedFor_eq (hoff : config.accessControlEnabled = false) (h : w.DifferAt x w')
    (hhidden : w.hides config session x = true) (hnamed : w.store.Named) (base : Dn)
    (scope : SearchScope) (filter : Filter) (attrs : Option (List String)) :
    w.searchedFor config session base scope filter attrs
      = w'.searchedFor config session base scope filter attrs := by
  have hshows : ∀ e, w.shows config session attrs e = w'.shows config session attrs e := by
    intro e
    rw [shows_of_off hoff, shows_of_off hoff, hides_eq h]
  have hnone : ∀ e, e.dn.key = x.key → w.shows config session attrs e = none := by
    intro e hkey
    rw [shows_of_off hoff, hides_congr hkey, hhidden]
    rfl
  rw [World.searchedFor, World.searchedFor, h.contains_eq]
  split
  · rfl
  · refine congrArg Except.ok ?_
    rw [AciStage.filterMap_found, AciStage.filterMap_found]
    refine AciStage.filterMap_congr_of_forall₂ h.entries ?_
    rintro ⟨k, e⟩ hd ⟨k', e'⟩ - ⟨rfl, hentry⟩
    dsimp only at hentry ⊢
    rcases hentry with rfl | ⟨rfl, hdn⟩
    · rw [hshows]
    · have hkey : e.dn.key = k.key := hnamed k e (w.store.entries.get?_of_mem hd)
      rw [← hshows, hnone e hkey, hnone e' (hdn ▸ hkey), ite_self, ite_self]

/-- A comparison is made on the entry that must be there. -/
theorem compare_eq_required (s : MemoryStore) (dn : Dn) (attr value : String) :
    s.compare dn attr value = (s.required dn).map fun e => e.holds attr value := by
  rw [MemoryStore.compare, MemoryStore.required, MemoryStore.lookup]
  cases s.entries.get? dn <;> rfl

/-- A comparison tells the worlds apart exactly if it is one of the entry with what it holds
    in one of them alone. -/
theorem compare_eq_iff (h : w.DifferAt x w') (dn : Dn) (attr value : String) :
    w.store.compare dn (Text.lowercase attr) value = w'.store.compare dn (Text.lowercase attr) value
      ↔ ¬(Operation.compare dn attr value).Betrays w w' x := by
  rw [compare_eq_required, compare_eq_required]
  by_cases hkey : dn.key = x.key
  · have hsame : dn.same x = true := (Dn.same_iff dn x).mpr hkey
    have hboth := h.contains_eq x
    rw [MemoryStore.required, MemoryStore.required, MemoryStore.lookup_congr hkey,
      MemoryStore.lookup_congr hkey, Operation.Betrays]
    rw [OrdMap.contains, OrdMap.contains] at hboth
    rw [MemoryStore.lookup, MemoryStore.lookup]
    cases he : w.store.entries.get? x with
    | none =>
        cases he' : w'.store.entries.get? x with
        | none =>
            refine iff_of_true rfl ?_
            rintro ⟨-, e, -, he, -⟩
            cases he
        | some e' =>
            rw [he, he'] at hboth
            cases hboth
    | some e =>
        cases he' : w'.store.entries.get? x with
        | none =>
            rw [he, he'] at hboth
            cases hboth
        | some e' =>
            constructor
            · rintro hanswer ⟨-, d, d', hd, hd', hdiffer⟩
              cases hd
              cases hd'
              exact hdiffer (Except.ok.inj hanswer)
            · intro hnot
              refine congrArg Except.ok (Classical.byContradiction fun hdiffer => ?_)
              exact hnot ⟨hsame, e, e', rfl, rfl, hdiffer⟩
  · have hnot : ¬(Operation.compare dn attr value).Betrays w w' x := by
      rintro ⟨hsame, -⟩
      exact hkey ((Dn.same_iff dn x).mp hsame)
    rw [MemoryStore.required, MemoryStore.required, h.lookup_eq hkey]
    exact iff_of_true rfl hnot

/-- **PROTECTED CONTENTS ARE HIDDEN, BUT FOR COMPARISONS**: two servers with the fixed policy
    that are the same but for the attributes of the entry at one protected name answer
    whatever somebody else reads the same, exactly unless it is a comparison of the entry
    with what it holds in one of them alone. -/
theorem protected_contents_hidden_iff {config : Configuration}
    (hoff : config.accessControlEnabled = false) {server server' : Server MemoryStore}
    (hstandard : Standard config server) (hstandard' : Standard config server')
    (hnamed : server.world.store.Named) {x : Dn} (hdiffer : server.world.DifferAt x server'.world)
    (hprotected : (areas config).isProtected x = true) {session : Session}
    (hadmin : server.world.groups.isAdministrator session.effective.dn = false)
    (hother : x.same session.effective.dn = false) {op : Operation} (hop : op.isReading = true) :
    (server.step session op).1 = (server'.step session op).1
      ↔ ¬op.Betrays server.world server'.world x := by
  have hhidden : server.world.hides config session x = true := by
    rw [World.hides, hoff, hadmin, hother, Bool.not_false, Bool.true_and, Bool.true_and,
      Bool.and_true]
    exact hprotected
  cases op with
  | add _ | delete _ | modify _ _ | rename _ _ _ | move _ _ | moveAndRename _ _ _ _ => cases hop
  | lookup dn attrs =>
      rw [step_lookup hstandard, step_lookup hstandard', lookedUp_eq hoff hdiffer hhidden]
      exact iff_of_true rfl id
  | hasEntry dn =>
      rw [step_hasEntry hstandard, step_hasEntry hstandard', present_eq hoff hdiffer]
      exact iff_of_true rfl id
  | search base scope filter attrs =>
      rw [step_search hstandard, step_search hstandard',
        searchedFor_eq hoff hdiffer hhidden hnamed]
      exact iff_of_true rfl id
  | compare dn attr value =>
      rw [step_compare hstandard (bypasses_of_off hoff _ _),
        step_compare hstandard' (bypasses_of_off hoff _ _), ← compare_eq_iff hdiffer]
      constructor
      · exact eq_of_map_eq fun _ _ => Answer.truth.inj
      · intro hsame
        rw [hsame]

-- ── A small directory ────────────────────────────────────────────────────────────

/-- The small directory with a description of its user, who is protected. -/
def describedUserServer : Server MemoryStore :=
  smallServer.run [(adminSession, .modify userName [.replace Attribute.description ["one"]])]

/-- The same once an administrator has described the user in another way. -/
def redescribedUserServer : Server MemoryStore :=
  (describedUserServer.step adminSession (.modify userName redescribing)).2

theorem reachable_describedUser : Reachable smallServer.config describedUserServer :=
  ((Reachable.start (.empty [topName]) (start_fresh _ _)).run _).run _

/-- The two servers are the same but for the description of the user. -/
theorem alike_describedUser :
    describedUserServer.world.AlikeBut userName Attribute.description
      redescribedUserServer.world := by
  refine alikeBut_step_modify reachable_describedUser.standard adminSession
    (e := (Entry.named userName).addAva Attribute.description "one") ?_ rfl ?_ ?_ ?_ ?_
  all_goals decide +kernel

/-- Searching for the new description, somebody unknown is told the same by both servers. -/
theorem description_not_found :
    (describedUserServer.step Session.anonymous
        (.search topName .subtree (.equality Attribute.description "two") none)).1
      = (redescribedUserServer.step Session.anonymous
        (.search topName .subtree (.equality Attribute.description "two") none)).1 := by
  have hstandard := reachable_describedUser.standard
  exact (protected_contents_hidden_iff rfl hstandard (hstandard.step _ _)
    reachable_describedUser.built.named alike_describedUser.differAt (by decide +kernel)
    (by decide +kernel) (by decide +kernel) rfl).mpr id

/-- Comparing with the new description, somebody unknown is told by the second server alone
    that it is that of the user, whose entry neither of them shows. -/
theorem description_compared :
    Reachable smallServer.config describedUserServer
      ∧ Reachable smallServer.config redescribedUserServer
      ∧ smallServer.config.accessControlEnabled = false
      ∧ describedUserServer.world.AlikeBut userName Attribute.description
          redescribedUserServer.world
      ∧ (areas smallServer.config).isProtected userName = true
      ∧ describedUserServer.world.groups.isAdministrator Session.anonymous.effective.dn = false
      ∧ userName.same Session.anonymous.effective.dn = false
      ∧ (describedUserServer.step Session.anonymous (.lookup userName none)).1
          = .error .accessDenied
      ∧ (describedUserServer.step Session.anonymous
            (.compare userName Attribute.description "two")).1 = .ok (.truth false)
      ∧ (redescribedUserServer.step Session.anonymous
            (.compare userName Attribute.description "two")).1 = .ok (.truth true) := by
  refine ⟨reachable_describedUser, reachable_describedUser.step _ _, rfl, alike_describedUser,
    ?_, ?_, ?_, ?_, ?_, ?_⟩
  all_goals decide +kernel

end Server

end DirectoryAccess
