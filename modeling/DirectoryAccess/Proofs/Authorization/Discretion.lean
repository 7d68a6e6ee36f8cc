import DirectoryAccess.Proofs.Authorization.Sparing

/-! # Discretion — what the access control stage tells of an attribute that is denied

    Two worlds are ALIKE BUT for an attribute of an entry if their caches are the same and
    their stores are alike.  Somebody who is denied the attribute in both is told the same
    by the stage, whatever they ask for: the same tuples are in force, the same questions
    are asked of them, and what is passed on is carried out or refused alike. -/

namespace DirectoryAccess

open DirectoryAccess.Action

namespace World

/-- Worlds with the same caches, whose stores are alike but for an attribute of the entry
    at one name. -/
structure AlikeBut (x : Dn) (a : String) (w w' : World MemoryStore) : Prop where
  store : w.store.AlikeBut x a w'.store
  groups_eq : w.groups = w'.groups
  tuples_eq : w.tuples = w'.tuples

/-- Being alike goes both ways. -/
theorem AlikeBut.symm {x : Dn} {a : String} {w w' : World MemoryStore} (h : w.AlikeBut x a w') :
    w'.AlikeBut x a w := ⟨h.store.symm, h.groups_eq.symm, h.tuples_eq.symm⟩

/-- The tuples in force for an entry.  There are none before the cache has been loaded. -/
def inForce (w : World MemoryStore) (entry : Entry) : List AciTuple :=
  match AciStage.tuplesFor entry true w with
  | .ok tuples _ => tuples
  | .error _ _ => []

/-- Somebody is denied every micro operation on an attribute of the entry at a name, and
    on each value that it holds. -/
def Denies (w : World MemoryStore) (asker : Requester) (x : Dn) (a : String) : Prop :=
  ∀ e, w.store.lookup x = some e → ∀ op,
    let check := AccessCheck.onEntry asker e [op] (w.inForce e)
    (check.onAttribute a).hasPermission = false
      ∧ ∀ v, (e.valuesAt a).contains v = true → (check.onValue a v).hasPermission = false

/-- No tuple in force for the entry at a name holds other values against those of an
    attribute. -/
def Overlooks (w : World MemoryStore) (x : Dn) (a : String) : Prop :=
  ∀ e, w.store.lookup x = some e → ∀ t ∈ w.inForce e, t.Overlooks a

/-- Who is denied an attribute is denied it on the entry that is found. -/
theorem Denies.deniedOn {w : World MemoryStore} {asker : Requester} {x : Dn} {a : String}
    (h : w.Denies asker x a) {e : Entry} (he : w.store.lookup x = some e) :
    DeniedOn asker e (w.inForce e) a :=
  ⟨fun op => (h e he op).1, fun op => (h e he op).2⟩

end World

-- ── The tuples in force ──────────────────────────────────────────────────────────

section

variable {x : Dn} {a : String} {w w' : World MemoryStore}

/-- Entries that are alike have the same tuples collected for them. -/
theorem tell_collectTuples {s s' : MemoryStore} (hs : s.AlikeBut x a s')
    (ha : a ∉ Attribute.deciding) {e e' : Entry} (he : e.AlikeBut a e') (cache : TupleCache)
    (includeEntryAci : Bool) :
    Tell (collectTuples cache e includeEntryAci) (collectTuples cache e' includeEntryAci) s s'
      (· = ·) := by
  have hprescribed : Tell (prescribedTuples cache e) (prescribedTuples cache e') s s' (· = ·) := by
    rw [prescribedTuples, prescribedTuples, he.isSubentry_eq ha, he.dn_eq]
    split
    · split
      · exact ⟨rfl, rfl, rfl⟩
      · next parentDn _ =>
        refine Tell.bind (MemoryStore.AlikeBut.tell_lookup s s' parentDn) ?_
        rintro _ _ ⟨rfl, rfl⟩
        have hpaired := hs.lookup parentDn
        generalize s.lookup parentDn = parent at hpaired ⊢
        generalize s'.lookup parentDn = parent' at hpaired ⊢
        cases hpaired with
        | none | same _ => exact ⟨rfl, rfl, rfl⟩
        | @differ p p' _ halike =>
            refine ⟨?_, rfl, rfl⟩
            dsimp only
            rw [halike.prescriptiveTuples_eq ha, halike.heldTuples_eq ha (by decide)]
    · exact ⟨he.prescriptiveTuples_eq ha cache e'.dn, rfl, rfl⟩
  refine Tell.bind hprescribed ?_
  rintro tuples _ rfl
  refine ⟨?_, rfl, rfl⟩
  rw [he.heldTuples_eq ha (by decide)]

/-- An entry that must be there is found in both worlds, or in neither. -/
theorem tell_required (h : w.AlikeBut x a w') (dn : Dn) :
    Tell (World.onStore (Backend.lookupRequired dn)) (World.onStore (Backend.lookupRequired dn))
      w w' fun e e' => w.store.lookup dn = some e ∧ w'.store.lookup dn = some e'
        ∧ MemoryStore.Paired x a dn (some e) (some e') := by
  refine Agree.mono (Tell.onStore (h.store.tell_required dn)) ?_
  rintro e e' v v' ⟨⟨he, he'⟩, hv, hv'⟩
  have hpaired := h.store.lookup dn
  rw [he, he'] at hpaired
  exact ⟨⟨he, he', hpaired⟩, hv, hv'⟩

/-- The same tuples are in force for entries that are alike. -/
theorem tell_tuplesFor (h : w.AlikeBut x a w') (ha : a ∉ Attribute.deciding) {e e' : Entry}
    (he : e.AlikeBut a e') (includeEntryAci : Bool) :
    Tell (AciStage.tuplesFor e includeEntryAci) (AciStage.tuplesFor e' includeEntryAci) w w'
      (· = ·) := by
  refine Tell.bind (tell_tupleCache h.tuples_eq) ?_
  rintro cache _ rfl
  exact Tell.onStore (tell_collectTuples h.store ha he cache includeEntryAci)

/-- Entries that are alike have the same tuples in force, in worlds that are alike. -/
theorem inForce_eq (h : w.AlikeBut x a w') (ha : a ∉ Attribute.deciding) {e e' : Entry}
    (he : e.AlikeBut a e') : w.inForce e = w'.inForce e' := by
  have htold := tell_tuplesFor h ha he true
  rw [Tell, Agree] at htold
  rw [World.inForce, World.inForce]
  cases hr : AciStage.tuplesFor e true w <;> cases hr' : AciStage.tuplesFor e' true w' <;>
    simp only [hr, hr'] at htold ⊢
  exact htold.1

/-- What has been told of the tuples in force is what is in force. -/
theorem tell_inForce (h : w.AlikeBut x a w') (ha : a ∉ Attribute.deciding) {e e' : Entry}
    (he : e.AlikeBut a e') :
    Tell (AciStage.tuplesFor e true) (AciStage.tuplesFor e' true) w w' fun tuples tuples' =>
      tuples = tuples' ∧ tuples = w.inForce e := by
  have htold := tell_tuplesFor h ha he true
  rw [Tell, Agree] at htold ⊢
  rw [World.inForce]
  cases hr : AciStage.tuplesFor e true w <;> cases hr' : AciStage.tuplesFor e' true w' <;>
    simp only [hr, hr'] at htold ⊢
  · exact ⟨⟨htold.1, trivial⟩, htold.2⟩
  · exact htold

end

-- ── What may be read ─────────────────────────────────────────────────────────────

/-- Of what is found under one name, the same may be read by somebody who is denied the
    attribute. -/
theorem readable_paired {x : Dn} {a : String} {w : World MemoryStore}
    (ha : a ∉ Attribute.deciding) {asker : Requester} (hdenied : w.Denies asker x a)
    (hoverlooked : w.Overlooks x a) {dn : Dn} {e e' : Entry} (he : w.store.lookup dn = some e)
    (hpaired : MemoryStore.Paired x a dn (some e) (some e')) :
    readable asker e (w.inForce e) = readable asker e' (w.inForce e) := by
  cases hpaired with
  | same _ => rfl
  | differ hkey halike =>
      rw [MemoryStore.lookup_congr hkey] at he
      exact readable_congr ha (hoverlooked e he) halike (hdenied e he .read).1

-- ── Passing an operation on ──────────────────────────────────────────────────────

section

variable {x : Dn} {a : String} {w w' : World MemoryStore}

/-- Both have carried an operation out in storage, and done nothing else. -/
structure BothStored (w w' : World MemoryStore) (op : Operation)
    (o o' : Outcome (World MemoryStore)) (v v' : World MemoryStore) : Prop where
  outcome_eq : o = o'
  stored : w.store.after op = .ok v.store
  stored' : w'.store.after op = .ok v'.store
  tuples_eq : v.tuples = v'.tuples

/-- An operation that changes something is carried out or refused alike, unless it modifies
    an entry. -/
theorem agree_dispatch (h : w.AlikeBut x a w') {op : Operation} (hop : op.isReading = false)
    (hmods : ∀ dn mods, op ≠ .modify dn mods) :
    Agree (dispatch op) (dispatch op) w w' (BothStored w w' op) := by
  have hupdate : (dispatch op : Handling MemoryStore _) = do
      World.onStore (MemoryStore.update fun s => s.after op)
      return .done := by
    cases op with
    | add _ | delete _ | modify _ _ | rename _ _ _ | move _ _ | moveAndRename _ _ _ _ => rfl
    | compare _ _ _ | lookup _ _ | hasEntry _ | search _ _ _ _ => cases hop
  have hverdict := MemoryStore.verdict_congr h.store hmods
  rw [MemoryStore.verdict, MemoryStore.verdict] at hverdict
  rw [hupdate]
  have hstores : Agree (MemoryStore.update fun s => s.after op)
      (MemoryStore.update fun s => s.after op) w.store w'.store fun _ _ t t' =>
        w.store.after op = .ok t ∧ w'.store.after op = .ok t' := by
    rw [Agree, MemoryStore.update, MemoryStore.update]
    cases hr : w.store.after op <;> cases hr' : w'.store.after op <;>
      simp only [hr, hr', Except.map] at hverdict ⊢
    · exact Except.error.inj hverdict
    · cases hverdict
    · cases hverdict
    · exact ⟨trivial, trivial⟩
  refine (Agree.onStore hstores).bind ?_
  rintro _ _ _ _ ⟨t, t', ⟨ht, ht'⟩, rfl, rfl⟩
  exact ⟨rfl, ht, ht', h.tuples_eq⟩

end

-- ── The access control stage ─────────────────────────────────────────────────────

namespace AciStage

section

variable {x : Dn} {a : String} {w w' : World MemoryStore} (h : w.AlikeBut x a w')
  (ha : a ∉ Attribute.deciding) {stage : AciStage} {session : Session}
  (hasked : stage.bypasses w.groups session = false)

include h ha

/-- The check at the source lets both entries pass, or neither. -/
theorem tell_checkSource (asker : Requester) (dn : Dn) (operations : List MicroOperation) :
    Tell (checkSource asker dn operations) (checkSource asker dn operations) w w'
      fun e e' => e.AlikeBut a e' := by
  refine Tell.bind (tell_required h dn) ?_
  rintro e e' ⟨-, -, hpaired⟩
  have halike := hpaired.alike
  refine Tell.bind (tell_tuplesFor h ha halike true) ?_
  rintro tuples _ rfl
  refine Agree.after_except
    ((AccessCheck.likewise_onEntry halike asker operations tuples).require_eq ha) fun _ _ => ?_
  exact ⟨halike, rfl, rfl⟩

/-- The check at the destination lets both entries pass, or neither. -/
theorem tell_checkDestination (asker : Requester) {e e' : Entry} (he : e.AlikeBut a e') :
    Tell (checkDestination asker e) (checkDestination asker e') w w' fun _ _ => True := by
  refine Tell.bind (tell_tuplesFor h ha he true) ?_
  rintro tuples _ rfl
  have hrequire := (AccessCheck.likewise_onEntry he asker [.importEntry] tuples).require_eq ha
  rw [hrequire]
  cases (AccessCheck.onEntry asker e' [.importEntry] tuples).require with
  | ok u => exact ⟨trivial, rfl, rfl⟩
  | error err => exact .of_error rfl rfl

omit ha in
/-- Once storage has carried a relocation out, the caches follow alike. -/
theorem agree_relocated {op : Operation} (hop : op.isRelocation = true) (old new : Dn) :
    Agree (do
        let outcome ← dispatch op
        relocated old new
        return outcome) (do
        let outcome ← dispatch op
        relocated old new
        return outcome) w w' fun o o' _ _ => o = o' := by
  have hreading : op.isReading = false := by cases op <;> first | rfl | cases hop
  have hmods : ∀ dn mods, op ≠ .modify dn mods := by
    rintro dn mods rfl
    cases hop
  refine (agree_dispatch h hreading hmods).bind ?_
  rintro o _ v v' ⟨rfl, -, -, htuples⟩
  have hfollowed : Agree (relocated old new) (relocated old new) v v' fun _ _ _ _ => True := by
    refine Tell.bind (tell_tupleCache htuples) ?_
    rintro cache _ rfl
    have hrest : ∀ {u u' : World MemoryStore}, u.tuples = u'.tuples → Agree (do
          World.onTuples (MonadState.modifyGet fun cache => ((), cache.rebaseSubtree old new))
          World.changeGroups fun groups => groups.groupRenamed old new) (do
          World.onTuples (MonadState.modifyGet fun cache => ((), cache.rebaseSubtree old new))
          World.changeGroups fun groups => groups.groupRenamed old new) u u'
        fun _ _ _ _ => True :=
      fun hu => (Agree.onTuples hu _).bind fun _ _ _ _ _ => trivial
    split
    · exact (Agree.onTuples htuples _).bind fun _ _ _ _ hu => hrest hu.2
    · exact hrest htuples
  exact hfollowed.bind fun _ _ _ _ _ => rfl

include hasked

/-- An addition has the same outcome in both worlds. -/
theorem agree_add (entry : Entry) :
    Agree (stage.add session entry (dispatch (.add entry)))
      (stage.add session entry (dispatch (.add entry))) w w' fun o o' _ _ => o = o' := by
  have htail : Agree (do
        let outcome ← dispatch (.add entry)
        let _ ← World.onTuples (TupleCache.subentryAdded entry.dn entry)
        World.changeGroups fun groups => groups.groupAdded entry
        return outcome) (do
        let outcome ← dispatch (.add entry)
        let _ ← World.onTuples (TupleCache.subentryAdded entry.dn entry)
        World.changeGroups fun groups => groups.groupAdded entry
        return outcome) w w' fun o o' _ _ => o = o' := by
    have hstored : Agree (dispatch (.add entry)) (dispatch (.add entry)) w w'
        (BothStored w w' (.add entry)) := agree_dispatch h rfl nofun
    refine hstored.bind ?_
    rintro o _ v v' ⟨rfl, -, -, htuples⟩
    exact (Agree.onTuples htuples _).bind fun _ _ _ _ _ => rfl
  unfold AciStage.add
  refine Agree.after_except rfl fun _ _ => Agree.after_get ?_
  rw [← h.groups_eq]
  simp only [hasked, Bool.not_false, if_true]
  refine Tell.bind (tell_tuplesFor h ha (.refl a entry) false) ?_
  rintro tuples _ rfl
  split
  · next parent _ =>
    split
    · refine Tell.bind (Tell.onStore (h.store.tell_countChildren parent)) ?_
      rintro count _ rfl
      exact Agree.after_except rfl fun _ _ => htail
    · exact Agree.after_except rfl fun _ _ => htail
  · exact Agree.after_except rfl fun _ _ => htail

/-- A deletion has the same outcome in both worlds. -/
theorem agree_delete (dn : Dn) :
    Agree (stage.delete session dn (dispatch (.delete dn)))
      (stage.delete session dn (dispatch (.delete dn))) w w' fun o o' _ _ => o = o' := by
  unfold AciStage.delete
  refine Agree.after_get ?_
  rw [← h.groups_eq]
  simp only [hasked, Bool.not_false, if_true]
  refine Agree.after_except rfl fun _ _ => ?_
  refine Tell.bind (tell_required h dn) ?_
  rintro e e' ⟨-, -, hpaired⟩
  have halike := hpaired.alike
  refine Tell.bind (tell_tuplesFor h ha halike true) ?_
  rintro tuples _ rfl
  refine Agree.after_except
    ((AccessCheck.likewise_onEntry halike _ [.remove] tuples).require_eq ha) fun _ _ => ?_
  have hstored : Agree (dispatch (.delete dn)) (dispatch (.delete dn)) w w'
      (BothStored w w' (.delete dn)) := agree_dispatch h rfl nofun
  refine hstored.bind ?_
  rintro o _ v v' ⟨rfl, -, -, htuples⟩
  have hsame : TupleCache.subentryDeleted dn e = TupleCache.subentryDeleted dn e' := by
    rw [TupleCache.subentryDeleted, TupleCache.subentryDeleted,
      halike.has_eq (Attribute.readAs_ne ha (by decide))]
  rw [hsame]
  exact (Agree.onTuples htuples _).bind fun _ _ _ _ _ => rfl

/-- A renaming has the same outcome in both worlds. -/
theorem agree_rename (dn : Dn) (rdn : Rdn) (deleteOld : Bool) :
    Agree (stage.rename session dn rdn (dispatch (.rename dn rdn deleteOld)))
      (stage.rename session dn rdn (dispatch (.rename dn rdn deleteOld))) w w'
      fun o o' _ _ => o = o' := by
  unfold AciStage.rename
  split
  · exact .of_error rfl rfl
  · refine Agree.after_get ?_
    rw [← h.groups_eq]
    simp only [hasked, Bool.not_false, if_true]
    refine Agree.after_except rfl fun _ _ => ?_
    refine Tell.bind (tell_checkSource h ha _ dn [.rename]) fun _ _ _ => ?_
    exact agree_relocated h rfl dn _

/-- A move has the same outcome in both worlds. -/
theorem agree_move (dn superior : Dn) :
    Agree (stage.move session dn superior (dispatch (.move dn superior)))
      (stage.move session dn superior (dispatch (.move dn superior))) w w'
      fun o o' _ _ => o = o' := by
  unfold AciStage.move
  split
  · exact .of_error rfl rfl
  · refine Agree.after_get ?_
    rw [← h.groups_eq]
    simp only [hasked, Bool.not_false, if_true]
    refine Agree.after_except rfl fun _ _ => ?_
    refine Tell.bind (tell_checkSource h ha _ dn [.exportEntry]) fun _ _ halike => ?_
    refine Tell.bind (tell_checkDestination h ha _ (halike.withDn _)) fun _ _ _ => ?_
    exact agree_relocated h rfl dn _

omit h ha hasked in
/-- What is to be stored under a new name is alike if the entries are. -/
theorem provisionalEntry_alike {e e' : Entry} (halike : e.AlikeBut a e') (dn new : Dn) (rdn : Rdn)
    (deleteOld : Bool) :
    (provisionalEntry e dn new rdn deleteOld).AlikeBut a
      (provisionalEntry e' dn new rdn deleteOld) := by
  have hmoved := halike.withDn new
  unfold provisionalEntry
  refine Entry.AlikeBut.addAva ?_ rdn.attr rdn.value
  split
  · cases dn.rdn? with
    | none => exact hmoved
    | some old => exact hmoved.removeAva old.attr old.value
  · exact hmoved

/-- A move to another name has the same outcome in both worlds. -/
theorem agree_moveAndRename (dn superior : Dn) (rdn : Rdn) (deleteOld : Bool) :
    Agree (stage.moveAndRename session dn superior rdn deleteOld
        (dispatch (.moveAndRename dn superior rdn deleteOld)))
      (stage.moveAndRename session dn superior rdn deleteOld
        (dispatch (.moveAndRename dn superior rdn deleteOld))) w w' fun o o' _ _ => o = o' := by
  unfold AciStage.moveAndRename
  refine Agree.after_get ?_
  rw [← h.groups_eq]
  simp only [hasked, Bool.not_false, if_true]
  refine Agree.after_except rfl fun _ _ => ?_
  refine Tell.bind (tell_checkSource h ha _ dn [.exportEntry, .rename]) fun _ _ halike => ?_
  refine Tell.bind (tell_checkDestination h ha _
    (provisionalEntry_alike halike dn (superior.child rdn) rdn deleteOld)) fun _ _ _ => ?_
  exact agree_relocated h rfl dn _

-- ── Reading ──────────────────────────────────────────────────────────────────────

omit ha hasked in
/-- Both stores say the same of whether an entry is there. -/
theorem tell_dispatch_hasEntry (dn : Dn) :
    Tell (dispatch (.hasEntry dn)) (dispatch (.hasEntry dn)) w w' (· = ·) := by
  rw [dispatch]
  split
  · exact ⟨rfl, rfl, rfl⟩
  · refine Tell.bind (Tell.onStore (MemoryStore.AlikeBut.tell_lookup w.store w'.store dn)) ?_
    rintro _ _ ⟨rfl, rfl⟩
    have hpaired := h.store.lookup dn
    generalize w.store.lookup dn = found at hpaired ⊢
    generalize w'.store.lookup dn = found' at hpaired ⊢
    cases hpaired <;> exact ⟨rfl, rfl, rfl⟩

omit hasked in
/-- Whether an entry is there is the same in both worlds. -/
theorem agree_hasEntry (dn : Dn) :
    Agree (stage.hasEntry session dn (dispatch (.hasEntry dn)))
      (stage.hasEntry session dn (dispatch (.hasEntry dn))) w w' fun o o' _ _ => o = o' := by
  unfold AciStage.hasEntry
  refine Tell.bind (tell_dispatch_hasEntry h dn) ?_
  rintro o _ rfl
  refine Agree.after_except rfl fun present _ => Agree.after_get ?_
  rw [← h.groups_eq]
  dsimp only
  split
  · exact rfl
  · refine Tell.bind (Tell.onStore (MemoryStore.AlikeBut.tell_lookup w.store w'.store dn)) ?_
    rintro _ _ ⟨rfl, rfl⟩
    have hpaired := h.store.lookup dn
    generalize w.store.lookup dn = found at hpaired ⊢
    generalize w'.store.lookup dn = found' at hpaired ⊢
    have hbrowsed : ∀ {e e' : Entry}, e.AlikeBut a e' → Agree (do
          let tuples ← tuplesFor e true
          let check := AccessCheck.onEntry (requester w.groups session) e [.browse] tuples
          return .hasEntry check.hasPermission) (do
          let tuples ← tuplesFor e' true
          let check := AccessCheck.onEntry (requester w.groups session) e' [.browse] tuples
          return .hasEntry check.hasPermission) w w'
        fun (o o' : Outcome (World MemoryStore)) _ _ => o = o' := by
      intro e e' halike
      refine Tell.bind (tell_tuplesFor h ha halike true) ?_
      rintro tuples _ rfl
      exact congrArg Outcome.hasEntry
        ((AccessCheck.likewise_onEntry halike _ [.browse] tuples).hasPermission_eq ha)
    cases hpaired with
    | none => exact rfl
    | same e => exact hbrowsed (.refl a e)
    | differ _ halike => exact hbrowsed halike

variable (hdenied : w.Denies (requester w.groups session) x a) (hoverlooked : w.Overlooks x a)

include hdenied hoverlooked

/-- Nobody who is denied the attribute gets so far as to compare it. -/
theorem agree_compare (dn : Dn) {attr : String} (hattr : Attribute.readAs attr = attr)
    (value : String) :
    Agree (stage.compare session dn attr value (dispatch (.compare dn attr value)))
      (stage.compare session dn attr value (dispatch (.compare dn attr value))) w w'
      fun o o' _ _ => o = o' := by
  unfold AciStage.compare
  refine Agree.after_get ?_
  rw [← h.groups_eq]
  simp only [hasked, Bool.not_false, if_true]
  refine Tell.bind (tell_required h dn) ?_
  rintro e e' ⟨he, -, hpaired⟩
  refine Tell.bind (tell_inForce h ha hpaired.alike) ?_
  rintro tuples _ ⟨rfl, rfl⟩
  have hlikewise := fun ops =>
    AccessCheck.likewise_onEntry hpaired.alike (requester w.groups session) ops (w.inForce e)
  have hvalue : ((AccessCheck.onEntry (requester w.groups session) e [.compare]
        (w.inForce e)).onValue attr value).require
      = ((AccessCheck.onEntry (requester w.groups session) e' [.compare]
        (w.inForce e)).onValue attr value).require := by
    cases hpaired with
    | same _ => rfl
    | differ hkey _ =>
        rw [MemoryStore.lookup_congr hkey] at he
        exact ((hlikewise [.compare]).onValue (hoverlooked e he) attr value
          (nomatch ·)).require_eq ha
  rw [(hlikewise [.read]).require_eq ha, ((hlikewise [.compare]).onAttribute attr).require_eq ha,
    hvalue]
  refine Agree.after_except rfl fun _ hpassed => ?_
  have hother : dn.key = x.key → Attribute.readAs attr ≠ a := by
    rintro hkey hsame
    rw [MemoryStore.lookup_congr hkey] at he
    obtain ⟨-, hpassed⟩ := check_then_ok.mp hpassed
    obtain ⟨hpassed, -⟩ := check_then_ok.mp hpassed
    rw [AccessCheck.require_ok, ← ((hlikewise [.compare]).onAttribute attr).hasPermission_eq ha,
      ← hattr, hsame, (hdenied e he .compare).1] at hpassed
    cases hpassed
  refine Tell.bind (Tell.onStore (h.store.tell_compare hother value)) ?_
  rintro held _ rfl
  exact rfl

/-- What may be read of an entry leaves the attribute out. -/
theorem agree_lookup (dn : Dn) (attrs : Option (List String)) :
    Agree (stage.lookup session dn (dispatch (.lookup dn attrs)))
      (stage.lookup session dn (dispatch (.lookup dn attrs))) w w' fun o o' _ _ => o = o' := by
  unfold AciStage.lookup
  refine Agree.after_get ?_
  rw [← h.groups_eq]
  simp only [hasked, Bool.false_eq_true, if_false]
  refine Tell.bind (tell_required h dn) ?_
  rintro e e' ⟨he, he', hpaired⟩
  refine Tell.bind (tell_inForce h ha hpaired.alike) ?_
  rintro tuples _ ⟨rfl, rfl⟩
  refine Agree.after_except
    ((AccessCheck.likewise_onEntry hpaired.alike _ _ _).require_eq ha) fun _ _ => ?_
  have hfound : Tell (dispatch (.lookup dn attrs)) (dispatch (.lookup dn attrs)) w w'
      fun o o' => o = .entry e ∧ o' = .entry e' := by
    refine Tell.bind (tell_required h dn) ?_
    rintro d d' ⟨hd, hd', -⟩
    rw [he] at hd
    rw [he'] at hd'
    cases hd
    cases hd'
    exact ⟨⟨rfl, rfl⟩, rfl, rfl⟩
  refine Tell.bind hfound ?_
  rintro _ _ ⟨rfl, rfl⟩
  exact congrArg Outcome.entry (readable_paired ha hdenied hoverlooked he hpaired)

end

-- ── Searching ────────────────────────────────────────────────────────────────────

section

variable {w : World MemoryStore} {t : TupleCache}

/-- Where the cache is loaded the tuples worked out for an entry are those in force. -/
theorem tuplesFor_ok (ht : w.tuples = some t) (e : Entry) :
    tuplesFor e true w = .ok (w.inForce e) w := by
  have hprescribed : ∃ tuples, prescribedTuples t e w.store = .ok tuples w.store := by
    rw [prescribedTuples]
    split
    · cases e.dn.parent? with
      | none => exact ⟨_, rfl⟩
      | some parentDn =>
          have hlookup : (Backend.lookup parentDn : Action MemoryStore _) w.store
              = .ok (w.store.lookup parentDn) w.store := rfl
          exact ⟨_, bind_of_ok hlookup⟩
    · exact ⟨_, rfl⟩
  obtain ⟨tuples, htuples⟩ := hprescribed
  have hinForce : tuplesFor e true w = .ok (tuples ++ heldTuples e Attribute.entryAci) w := by
    rw [tuplesFor, bind_of_ok (World.tupleCache_of_loaded ht), World.onStore, Action.onPart,
      collectTuples, bind_of_ok htuples]
    rfl
  rw [World.inForce, hinForce]

/-- What comes out of a search for an entry that was found, if anything does. -/
def shown (w : World MemoryStore) (asker : Requester) (attrs : Option (List String))
    (e : Entry) : Option Entry :=
  if (AccessCheck.onEntry asker e searchOperations (w.inForce e)).hasPermission then
    some ((readable asker e (w.inForce e)).select attrs)
  else none

end

/-- Related lists give the same if all pairs of their elements that are related do. -/
theorem filterMap_congr_of_forall₂ {α β γ : Type} {R : α → β → Prop} {f : α → Option γ}
    {g : β → Option γ} {l : List α} {l' : List β} (hl : List.Forall₂ R l l')
    (hfg : ∀ d ∈ l, ∀ d' ∈ l', R d d' → f d = g d') : l.filterMap f = l'.filterMap g := by
  induction hl with
  | nil => rfl
  | cons hd _ ih =>
      have hrest := ih fun d hd d' hd' =>
        hfg d (List.mem_cons_of_mem _ hd) d' (List.mem_cons_of_mem _ hd')
      rw [List.filterMap_cons, List.filterMap_cons, hrest,
        hfg _ List.mem_cons_self _ List.mem_cons_self hd]

section

variable {α β γ : Type} {R : α → β → Prop} {f : α → Option γ} {g : β → Option γ} {l : List α}
  {l' : List β}

/-- An element adds itself or nothing to what is kept of a list. -/
theorem length_filterMap_cons (f : α → Option γ) (c : α) (l : List α) :
    ((c :: l).filterMap f).length = (f c).toList.length + (l.filterMap f).length := by
  cases hc : f c with
  | none => rw [List.filterMap_cons_none hc, Option.toList_none, List.length_nil, Nat.zero_add]
  | some r =>
      rw [List.filterMap_cons_some hc, List.length_cons, Option.toList_some, List.length_singleton,
        Nat.add_comm]

/-- One option gives no more than another if it gives nothing where the other does not. -/
theorem toList_length_le {o o' : Option γ} (h : o = none → o' = none) :
    o'.toList.length ≤ o.toList.length := by
  cases o with
  | none => exact Nat.le_of_eq (by rw [h rfl])
  | some r => cases o' <;> simp

/-- Of related lists one gives at least as much as the other, if it gives something for each
    of its elements for which the other does. -/
theorem length_filterMap_le_of_forall₂ (hl : List.Forall₂ R l l')
    (hfg : ∀ d ∈ l, ∀ d' ∈ l', R d d' → f d = none → g d' = none) :
    (l'.filterMap g).length ≤ (l.filterMap f).length := by
  induction hl with
  | nil => exact Nat.le_refl 0
  | cons hd _ ih =>
      have hrest := ih fun d hd d' hd' =>
        hfg d (List.mem_cons_of_mem _ hd) d' (List.mem_cons_of_mem _ hd')
      rw [length_filterMap_cons, length_filterMap_cons]
      exact Nat.add_le_add
        (toList_length_le (hfg _ List.mem_cons_self _ List.mem_cons_self hd)) hrest

/-- It gives more, if it gives something for an element for which the other does not. -/
theorem length_filterMap_lt_of_forall₂ (hl : List.Forall₂ R l l')
    (hfg : ∀ d ∈ l, ∀ d' ∈ l', R d d' → f d = none → g d' = none) {c : α} (hc : c ∈ l)
    (hmore : ∃ r, f c = some r) (hless : ∀ c' ∈ l', R c c' → g c' = none) :
    (l'.filterMap g).length < (l.filterMap f).length := by
  induction hl with
  | nil => cases hc
  | @cons d d' l l' hd hrel ih =>
      have hrest := fun d hd d' hd' =>
        hfg d (List.mem_cons_of_mem _ hd) d' (List.mem_cons_of_mem _ hd')
      rw [length_filterMap_cons, length_filterMap_cons]
      rcases List.mem_cons.mp hc with rfl | hin
      · obtain ⟨r, hr⟩ := hmore
        rw [hr, hless d' List.mem_cons_self hd]
        have hle := length_filterMap_le_of_forall₂ hrel hrest
        simp only [Option.toList_some, Option.toList_none, List.length_singleton, List.length_nil]
        omega
      · have hlt := ih hrest hin fun c' hc' => hless c' (List.mem_cons_of_mem _ hc')
        have hle := toList_length_le (hfg d List.mem_cons_self d' List.mem_cons_self hd)
        omega

end

/-- To find entries and to sift them is one pass over what is stored. -/
theorem filterMap_found (base : Dn) (scope : SearchScope) (filter : Filter)
    (g : Entry → Option Entry) (l : List (Dn × Entry)) :
    (MemoryStore.found base scope filter l).filterMap g
      = l.filterMap fun d =>
          if scope.selects base d.1 && filter.isMetBy d.2 then g d.2 else none := by
  rw [MemoryStore.found, List.filterMap_filter, List.filterMap_map, List.filterMap_filter]
  refine congrArg (List.filterMap · l) (funext fun d => ?_)
  dsimp only [Function.comp]
  cases scope.selects base d.1 <;> rfl

/-- A search SIFTS two worlds APART if its scope selects the entry at a name, and this may be
    shown and meets the filter in just one of them. -/
def SiftsApart (w w' : World MemoryStore) (asker : Requester) (x base : Dn) (scope : SearchScope)
    (filter : Filter) : Prop :=
  scope.selects base x = true
    ∧ ∃ e e', w.store.lookup x = some e ∧ w'.store.lookup x = some e'
      ∧ filter.isMetBy e ≠ filter.isMetBy e'
      ∧ (AccessCheck.onEntry asker e searchOperations (w.inForce e)).hasPermission = true

section

variable {x : Dn} {a : String} {w w' : World MemoryStore} (h : w.AlikeBut x a w')
  (ha : a ∉ Attribute.deciding) {asker : Requester}

include h ha

/-- What may be read of an entry is shown alike. -/
theorem shown_congr (attrs : Option (List String)) {e e' : Entry} (he : e.AlikeBut a e')
    (hreadable : readable asker e (w.inForce e) = readable asker e' (w.inForce e)) :
    shown w asker attrs e = shown w' asker attrs e' := by
  rw [shown, shown, ← inForce_eq h ha he, hreadable,
    (AccessCheck.likewise_onEntry he asker searchOperations (w.inForce e)).hasPermission_eq ha]

/-- More is shown in the world in which the entry meets the filter, if it may be shown. -/
theorem length_filterMap_found_lt {base : Dn} {scope : SearchScope} {filter : Filter}
    {attrs : Option (List String)} {e e' : Entry} (he : w.store.lookup x = some e)
    (he' : w'.store.lookup x = some e') (hselected : scope.selects base x = true)
    (hmet : filter.isMetBy e = true) (hmet' : filter.isMetBy e' = false)
    (hshown : ∃ r, shown w asker attrs e = some r) :
    ((MemoryStore.found base scope filter w'.store.entries.entries).filterMap
        (shown w' asker attrs)).length
      < ((MemoryStore.found base scope filter w.store.entries.entries).filterMap
        (shown w asker attrs)).length := by
  -- the entry that is found under the name is paired with the other one
  have hpaired : ∀ {k : Dn} {d d' : Entry}, (k, d) ∈ w.store.entries.entries →
      (k, d') ∈ w'.store.entries.entries → k.key = x.key → d = e ∧ d' = e' := by
    intro k d d' hd hd' hkey
    have hfound : w.store.lookup k = some d := w.store.entries.get?_of_mem hd
    have hfound' : w'.store.lookup k = some d' := w'.store.entries.get?_of_mem hd'
    rw [MemoryStore.lookup_congr hkey] at hfound hfound'
    exact ⟨Option.some.inj (hfound.symm.trans he), Option.some.inj (hfound'.symm.trans he')⟩
  obtain ⟨k, hk, hkey⟩ := w.store.entries.mem_of_get? he
  rw [filterMap_found, filterMap_found]
  refine length_filterMap_lt_of_forall₂ h.store.entries ?_ hk ?_ ?_
  · rintro ⟨n, d⟩ hd ⟨n', d'⟩ hd' ⟨rfl, rfl | ⟨rfl, -⟩⟩ hnone
    · dsimp only at hnone ⊢
      rw [← shown_congr h ha attrs (.refl a d) rfl]
      exact hnone
    · obtain ⟨-, rfl⟩ := hpaired hd hd' rfl
      dsimp only
      rw [hmet', Bool.and_false, if_neg Bool.false_ne_true]
  · dsimp only
    rw [SearchScope.selects_congr hkey, hselected, hmet, Bool.and_self, if_pos rfl]
    exact hshown
  · rintro ⟨n', d'⟩ hd' ⟨rfl, -⟩
    obtain ⟨-, rfl⟩ := hpaired hk hd' hkey
    dsimp only
    rw [hmet', Bool.and_false, if_neg Bool.false_ne_true]

/-- A search that shows the same of both worlds does not sift them apart: of an entry that may be
    shown and meets the filter in just one of them, the other world would show less. -/
theorem not_siftsApart_of_eq {base : Dn} {scope : SearchScope} {filter : Filter}
    {attrs : Option (List String)}
    (hsame : (MemoryStore.found base scope filter w.store.entries.entries).filterMap
        (shown w asker attrs)
      = (MemoryStore.found base scope filter w'.store.entries.entries).filterMap
        (shown w' asker attrs)) :
    ¬SiftsApart w w' asker x base scope filter := by
  rintro ⟨hselected, e, e', he, he', hmet, hpermitted⟩
  have halike : e.AlikeBut a e' := by
    have hpaired := h.store.lookup x
    rw [he, he'] at hpaired
    exact hpaired.alike
  have hshown : ∃ r, shown w asker attrs e = some r := ⟨_, if_pos hpermitted⟩
  have hshown' : ∃ r, shown w' asker attrs e' = some r := by
    rw [(AccessCheck.likewise_onEntry halike asker searchOperations _).hasPermission_eq ha,
      inForce_eq h ha halike] at hpermitted
    exact ⟨_, if_pos hpermitted⟩
  cases hm : filter.isMetBy e with
  | true =>
      rw [hm] at hmet
      have hlt := length_filterMap_found_lt h ha he he' hselected hm
        (eq_false_of_ne_true hmet.symm) hshown
      exact Nat.ne_of_lt hlt (congrArg List.length hsame.symm)
  | false =>
      rw [hm] at hmet
      have hlt := length_filterMap_found_lt h.symm ha he' he hselected
        (eq_true_of_ne_false hmet.symm) hm hshown'
      exact Nat.ne_of_lt hlt (congrArg List.length hsame)

/-- To somebody who is denied the attribute both worlds show the same of the entry itself, if a
    search does not sift them apart. -/
theorem sifted_congr (hdenied : w.Denies asker x a) (hoverlooked : w.Overlooks x a) {base : Dn}
    {scope : SearchScope} {filter : Filter}
    (hnot : ¬SiftsApart w w' asker x base scope filter) (attrs : Option (List String))
    {e e' : Entry} (he : w.store.lookup x = some e) (he' : w'.store.lookup x = some e')
    (halike : e.AlikeBut a e') :
    (if scope.selects base x && filter.isMetBy e then shown w asker attrs e else none)
      = if scope.selects base x && filter.isMetBy e' then shown w' asker attrs e' else none := by
  have hreadable := readable_congr ha (hoverlooked e he) halike (hdenied e he .read).1
  rw [← shown_congr h ha attrs halike hreadable]
  by_cases hsame : filter.isMetBy e = filter.isMetBy e'
  · rw [hsame]
  · cases hselected : scope.selects base x with
    | false => rfl
    | true =>
        have hnone : shown w asker attrs e = none :=
          if_neg fun hpermitted => hnot ⟨hselected, e, e', he, he', hsame, hpermitted⟩
        rw [hnone, ite_self, ite_self]

/-- What a search shows to somebody who is denied the attribute is the same, exactly if it does
    not sift the worlds apart. -/
theorem filterMap_found_eq_iff (hdenied : w.Denies asker x a) (hoverlooked : w.Overlooks x a)
    (base : Dn) (scope : SearchScope) (filter : Filter) (attrs : Option (List String)) :
    (MemoryStore.found base scope filter w.store.entries.entries).filterMap (shown w asker attrs)
        = (MemoryStore.found base scope filter w'.store.entries.entries).filterMap
          (shown w' asker attrs)
      ↔ ¬SiftsApart w w' asker x base scope filter := by
  refine ⟨not_siftsApart_of_eq h ha, fun hnot => ?_⟩
  rw [filterMap_found, filterMap_found]
  refine filterMap_congr_of_forall₂ h.store.entries ?_
  rintro ⟨n, e⟩ hd ⟨n', e'⟩ hd' ⟨rfl, rfl | ⟨rfl, halike⟩⟩
  · dsimp only
    rw [shown_congr h ha attrs (.refl a e) rfl]
  · exact sifted_congr h ha hdenied hoverlooked hnot attrs (w.store.entries.get?_of_mem hd)
      (w'.store.entries.get?_of_mem hd') halike

end

end AciStage

end DirectoryAccess
