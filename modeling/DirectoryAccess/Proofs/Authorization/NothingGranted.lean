import DirectoryAccess.Proofs.Aci.Decision
import DirectoryAccess.Proofs.Authorization.Modification
import DirectoryAccess.Proofs.Server.Reachable
import DirectoryAccess.Proofs.Store.Looking

/-! # Nothing granted — what is refused where no policy is in force

    Where no stored entry has access control items and no subentry is cached, no
    tuple is in force for any entry, and every question that is asked is answered no.
    An operation of somebody who is no administrator is refused with the first question
    that is asked about it.  One kind of request is asked nothing at all: modifications
    that change nothing of what is read under the names that they spell. -/

namespace DirectoryAccess

open DirectoryAccess.Action

-- ── Questions without tuples ─────────────────────────────────────────────────────

namespace AccessCheck

/-- Without tuples nothing is granted. -/
theorem not_hasPermission {c : AccessCheck} (htuples : c.tuples = []) (hops : c.operations ≠ []) :
    c.hasPermission = false := by
  refine not_hasPermission_of_none hops fun op t ht => ?_
  rw [htuples] at ht
  cases ht

/-- Without tuples whatever is asked about is denied. -/
theorem require_denied {c : AccessCheck} (htuples : c.tuples = []) (hops : c.operations ≠ []) :
    c.require = .error .accessDenied := by
  rw [require, not_hasPermission htuples hops]
  rfl

end AccessCheck

/-- An entry without access control items of any kind. -/
def Entry.Bare (e : Entry) : Prop :=
  ∀ attr ∈ [Attribute.prescriptiveAci, Attribute.entryAci, Attribute.subentryAci],
    e.has attr = false

/-- An entry without items holds no tuples. -/
theorem heldTuples_of_not_has {e : Entry} {attr : String} (h : e.has attr = false) :
    heldTuples e attr = [] := by
  rw [Entry.has, Option.isSome_eq_false_iff, Option.isNone_iff_eq_none] at h
  rw [heldTuples, h]

/-- A cache that keeps nothing prescribes nothing. -/
theorem TupleCache.prescriptiveTuples_of_empty {t : TupleCache} (h : t.subentries.entries = [])
    (dn : Dn) (entry : Option Entry) : t.prescriptiveTuples dn entry = [] := by
  rw [prescriptiveTuples, h]
  rfl

-- ── Modifications about which nothing is asked ───────────────────────────────────

/-- The values that are read under a name as it is spelt. -/
def Entry.valuesRead (e : Entry) (attr : String) : ValueSet := (e.values? attr).getD OrdSet.empty

/-- No modification changes what is read under the name that it spells. -/
def Unnoticed : Entry → List Modification → Prop
  | _, [] => True
  | view, m :: rest =>
      (view.project m).valuesRead m.attr = view.valuesRead m.attr
        ∧ Unnoticed (view.project m) rest

/-- An addition of nothing but values that are held goes unnoticed. -/
theorem unnoticed_of_held {e : Entry} {attr : String} {vs : List String}
    (hattr : Text.Plain attr)
    (hheld : ∀ v ∈ vs,
      (e.valuesRead attr).contains (Attributes.heldValue (Text.lowercase attr) v) = true) :
    Unnoticed e [.add attr vs] := by
  have hread : ∀ e' : Entry, e'.valuesRead attr = e'.attrs.valuesAt (Text.lowercase attr) :=
    fun e' => congrArg (·.getD OrdSet.empty) (Attributes.values?_of_plain e'.attrs hattr)
  have hadded : (e.project (.add attr vs)).attrs.valuesAt (Text.lowercase attr)
      = (e.attrs.valuesAt (Text.lowercase attr)).insertAll
          (vs.map (Attributes.heldValue (Text.lowercase attr))) :=
    Attributes.valuesAt_put_self ..
  refine ⟨?_, trivial⟩
  show (e.project (.add attr vs)).valuesRead attr = e.valuesRead attr
  rw [hread, hadded, ← hread]
  refine OrdSet.eq_of_contains fun a => ?_
  rw [Bool.eq_iff_iff, OrdSet.contains_insertAll, or_iff_right_iff_imp]
  rintro ⟨held, hmem, hcompare⟩
  obtain ⟨v, hv, rfl⟩ := List.mem_map.mp hmem
  rw [Std.LawfulEqCmp.eq_of_compare hcompare]
  exact hheld v hv

/-- Modifications of a stored entry that go unnoticed, and leave a valid subentry if they
    leave one at all. -/
def MemoryStore.PassesUnasked (s : MemoryStore) (dn : Dn) (mods : List Modification) : Prop :=
  mods ≠ [] ∧ ∃ e, s.lookup dn = some e
    ∧ validateSubentry (mods.foldl Entry.project e) = .ok () ∧ Unnoticed e mods

/-- Without tuples a modification passes its check if nothing that it changes is read. -/
theorem checkModification_nothing {requester : Requester} {entry view post : Entry}
    {m : Modification} :
    checkModification requester entry [] view m = .ok post
      ↔ post = view.project m ∧ (view.project m).valuesRead m.attr = view.valuesRead m.attr := by
  rw [checkModification_ok]
  have hdenied : ∀ {c : AccessCheck}, c.tuples = [] → c.operations ≠ [] →
      c.hasPermission ≠ true := by
    intro c htuples hops
    rw [AccessCheck.not_hasPermission htuples hops]
    exact Bool.false_ne_true
  refine and_congr_right ?_
  rintro rfl
  constructor
  · intro h
    refine OrdSet.eq_of_contains fun v => ?_
    rw [Bool.eq_iff_iff]
    constructor
    · intro hafter
      refine Classical.not_not.mp fun hbefore => ?_
      exact absurd (h.added v hafter (eq_false_of_ne_true hbefore))
        (hdenied rfl (List.cons_ne_nil _ _))
    · intro hbefore
      refine Classical.not_not.mp fun hafter => ?_
      exact absurd (h.removed v hbefore (eq_false_of_ne_true hafter))
        (hdenied rfl (List.cons_ne_nil _ _))
  · intro h
    have h : ((view.project m).values? m.attr).getD OrdSet.empty
        = (view.values? m.attr).getD OrdSet.empty := h
    rw [h]
    exact StepGranted.of_eq

/-- Without tuples a list of modifications passes exactly if it goes unnoticed. -/
theorem checkModifications_nothing {requester : Requester} {entry view : Entry}
    {mods : List Modification} :
    (∃ final, checkModifications requester entry [] view mods = .ok final)
      ↔ Unnoticed view mods := by
  induction mods generalizing view with
  | nil => exact iff_of_true ⟨view, rfl⟩ trivial
  | cons m rest ih =>
      have hcons : checkModifications requester entry [] view (m :: rest)
          = (checkModification requester entry [] view m).bind fun post =>
              checkModifications requester entry [] post rest := rfl
      rw [hcons, Unnoticed, ← ih]
      constructor
      · rintro ⟨final, hfinal⟩
        cases hm : checkModification requester entry [] view m with
        | error e =>
            rw [hm] at hfinal
            cases hfinal
        | ok post =>
            obtain ⟨hpost, hread⟩ := checkModification_nothing.mp hm
            rw [hm] at hfinal
            exact ⟨hread, final, hpost ▸ hfinal⟩
      · rintro ⟨hread, final, hfinal⟩
        rw [checkModification_nothing.mpr ⟨rfl, hread⟩]
        exact ⟨final, hfinal⟩

-- ── The tuples in force ──────────────────────────────────────────────────────────

section

variable {σ : Type} [Backend σ] {inner : σ → MemoryStore} {Looked : σ → σ → Prop}

variable (inner) in
/-- No policy is in force: no stored entry has access control items, and no subentry is
    cached. -/
structure Barren (w : World σ) : Prop where
  bare : ∀ x e, (inner w.store).lookup x = some e → e.Bare
  cached : ∃ t, w.tuples = some t ∧ t.subentries.entries = []

variable {w w' : World σ}

/-- Looking changes nothing about the policy, nor about who is asked. -/
theorem Barren.looked (hlook : Looking inner Looked) (h : Barren inner w)
    (hw : w.LookedAt Looked w') : Barren inner w' ∧ w'.groups = w.groups
      ∧ inner w'.store = inner w.store := by
  obtain ⟨s', hs', rfl⟩ := hw
  have hinner := hlook.inner_eq hs'
  refine ⟨⟨fun x e he => h.bare x e ?_, h.cached⟩, rfl, hinner⟩
  rw [← hinner]
  exact he

/-- No tuples come to an entry from outside. -/
theorem prescribedTuples_nothing (hlook : Looking inner Looked) {t : TupleCache}
    (ht : t.subentries.entries = []) {s : σ}
    (hbare : ∀ x e, (inner s).lookup x = some e → e.Bare) (entry : Entry) :
    ∃ s', Looked s s' ∧ prescribedTuples t entry s = .ok [] s' := by
  have hnone := t.prescriptiveTuples_of_empty ht
  rw [prescribedTuples]
  split
  · cases hp : entry.dn.parent? with
    | none => exact ⟨s, hlook.refl s, rfl⟩
    | some parentDn =>
        obtain ⟨s', hs', hlookup⟩ := hlook.lookup parentDn s
        refine ⟨s', hs', (bind_of_ok hlookup).trans ?_⟩
        cases hparent : (inner s).lookup parentDn with
        | none =>
            simp only [hnone]
            rfl
        | some p =>
            have hheld : heldTuples p Attribute.subentryAci = [] :=
              heldTuples_of_not_has (hbare parentDn p hparent _ (by decide))
            simp only [hnone, hheld]
            rfl
  · rw [hnone]
    exact ⟨s, hlook.refl s, rfl⟩

/-- No tuple is in force for an entry without items of its own. -/
theorem Barren.answers_tuplesFor (hlook : Looking inner Looked) (h : Barren inner w)
    {entry : Entry} {includeEntryAci : Bool}
    (hentry : includeEntryAci = true → entry.has Attribute.entryAci = false) :
    Answers Looked (AciStage.tuplesFor entry includeEntryAci) w [] := by
  obtain ⟨t, ht, hempty⟩ := h.cached
  obtain ⟨s', hs', hprescribed⟩ := prescribedTuples_nothing hlook hempty h.bare entry
  have hcollect : collectTuples t entry includeEntryAci w.store = .ok [] s' := by
    rw [collectTuples, bind_of_ok hprescribed]
    cases includeEntryAci with
    | false => rfl
    | true =>
        simp only [heldTuples_of_not_has (hentry rfl)]
        rfl
  refine ⟨_, ⟨s', hs', rfl⟩, ?_⟩
  rw [AciStage.tuplesFor, bind_of_ok (World.tupleCache_of_loaded ht), World.onStore,
    Action.onPart, hcollect]

-- ── What the stage refuses ───────────────────────────────────────────────────────

namespace AciStage

variable {stage : AciStage} {session : Session}
  {next : Handling σ (Outcome (World σ))}

/-- A stored entry may be looked for, and then nothing about it is granted. -/
theorem refuses_required (hlook : Looking inner Looked) (hb : Barren inner w) {β : Type}
    {f : Entry → Handling σ β} (dn : Dn)
    (hf : ∀ e w', Barren inner w' → w'.groups = w.groups → e.Bare → Refuses Looked (f e) w') :
    Refuses Looked (World.onStore (Backend.lookupRequired dn) >>= f) w := by
  rcases lookupRequired_cases hlook dn w with ⟨-, hrefused⟩ | ⟨e, he, hanswer⟩
  · exact hrefused.bind
  · refine hanswer.refuses hlook fun w' hw' => ?_
    obtain ⟨hb', hgroups, -⟩ := hb.looked hlook hw'
    exact hf e w' hb' hgroups (hb.bare dn e he)

/-- Whoever is asked for something on an entry is refused. -/
theorem refuses_question (hlook : Looking inner Looked) (hb : Barren inner w) {β : Type}
    {entry : Entry} {includeEntryAci : Bool}
    (hentry : includeEntryAci = true → entry.has Attribute.entryAci = false)
    {question : List AciTuple → Except OperationError Unit}
    (hquestion : question [] = .error .accessDenied) {f : List AciTuple → Unit → Handling σ β} :
    Refuses Looked (do
      let tuples ← tuplesFor entry includeEntryAci
      let u ← Action.ofExcept (question tuples)
      f tuples u) w := by
  refine (hb.answers_tuplesFor hlook hentry).refuses hlook fun w' _ => ?_
  exact (Refuses.ofExcept hlook hquestion).bind

/-- Nothing passes the check at the source if any operation is asked about. -/
theorem refuses_checkSource (hlook : Looking inner Looked) (hb : Barren inner w)
    (requester : Requester) (dn : Dn) {operations : List MicroOperation} (hops : operations ≠ []) :
    Refuses Looked (checkSource requester dn operations) w := by
  unfold checkSource
  refine refuses_required hlook hb dn fun e w' hb' _ he => ?_
  exact refuses_question hlook hb' (fun _ => he _ (by decide)) (AccessCheck.require_denied rfl hops)

/-- An addition is refused, having only looked at the store. -/
theorem refuses_add (hlook : Looking inner Looked) (hb : Barren inner w)
    (hasked : stage.bypasses w.groups session = false) (entry : Entry) :
    Refuses Looked (stage.add session entry next) w := by
  unfold AciStage.add
  refine .after_except hlook fun _ _ => .after_get ?_
  simp only [hasked, Bool.not_false, if_true]
  have htuples : Answers Looked (tuplesFor entry false) w [] := hb.answers_tuplesFor hlook nofun
  refine htuples.refuses hlook fun w' _ => ?_
  have hdenied : ∀ count, requireAddition (requester w.groups session) entry [] count
      = .error .accessDenied := by
    intro count
    have hrequire : ((AccessCheck.onEntry (requester w.groups session) entry [.add]
        []).withImmSubordinates count).require = .error .accessDenied :=
      AccessCheck.require_denied rfl (List.cons_ne_nil _ _)
    rw [requireAddition, hrequire]
    rfl
  have hlimits : limitsImmSubordinates [] = false := rfl
  split
  · simp only [hlimits, Bool.false_eq_true, if_false, pure_bind]
    exact (Refuses.ofExcept hlook (hdenied none)).bind
  · rw [pure_bind]
    exact (Refuses.ofExcept hlook (hdenied none)).bind

/-- A deletion is refused without tuples. -/
theorem refuses_delete (hlook : Looking inner Looked) (hb : Barren inner w)
    (hasked : stage.bypasses w.groups session = false) (dn : Dn) :
    Refuses Looked (stage.delete session dn next) w := by
  unfold AciStage.delete
  refine .after_get ?_
  simp only [hasked, Bool.not_false, if_true]
  refine .after_except hlook fun _ _ => ?_
  refine refuses_required hlook hb dn fun e w' hb' _ he => ?_
  exact refuses_question hlook hb' (fun _ => he _ (by decide))
    (AccessCheck.require_denied rfl (List.cons_ne_nil _ _))

/-- A renaming is refused without tuples. -/
theorem refuses_rename (hlook : Looking inner Looked) (hb : Barren inner w)
    (hasked : stage.bypasses w.groups session = false) (dn : Dn) (rdn : Rdn) :
    Refuses Looked (stage.rename session dn rdn next) w := by
  unfold AciStage.rename
  split
  · exact .of_error hlook rfl
  · refine .after_get ?_
    simp only [hasked, Bool.not_false, if_true]
    refine .after_except hlook fun _ _ => ?_
    exact (refuses_checkSource hlook hb _ dn (List.cons_ne_nil _ _)).bind

/-- A move is refused without tuples. -/
theorem refuses_move (hlook : Looking inner Looked) (hb : Barren inner w)
    (hasked : stage.bypasses w.groups session = false) (dn superior : Dn) :
    Refuses Looked (stage.move session dn superior next) w := by
  unfold AciStage.move
  split
  · exact .of_error hlook rfl
  · refine .after_get ?_
    simp only [hasked, Bool.not_false, if_true]
    refine .after_except hlook fun _ _ => ?_
    exact (refuses_checkSource hlook hb _ dn (List.cons_ne_nil _ _)).bind

/-- A move to another name is refused without tuples. -/
theorem refuses_moveAndRename (hlook : Looking inner Looked) (hb : Barren inner w)
    (hasked : stage.bypasses w.groups session = false) (dn superior : Dn) (rdn : Rdn)
    (deleteOld : Bool) :
    Refuses Looked (stage.moveAndRename session dn superior rdn deleteOld next) w := by
  unfold AciStage.moveAndRename
  refine .after_get ?_
  simp only [hasked, Bool.not_false, if_true]
  refine .after_except hlook fun _ _ => ?_
  exact (refuses_checkSource hlook hb _ dn (List.cons_ne_nil _ _)).bind

/-- A comparison is refused without tuples. -/
theorem refuses_compare (hlook : Looking inner Looked) (hb : Barren inner w)
    (hasked : stage.bypasses w.groups session = false) (dn : Dn) (attr value : String) :
    Refuses Looked (stage.compare session dn attr value next) w := by
  unfold AciStage.compare
  refine .after_get ?_
  simp only [hasked, Bool.not_false, if_true]
  refine refuses_required hlook hb dn fun e w' hb' _ he => ?_
  refine refuses_question hlook hb' (fun _ => he _ (by decide)) ?_
  rw [AccessCheck.require_denied rfl (List.cons_ne_nil _ _)]
  rfl

/-- A lookup is refused without tuples. -/
theorem refuses_lookup (hlook : Looking inner Looked) (hb : Barren inner w)
    (hasked : stage.bypasses w.groups session = false) (dn : Dn) :
    Refuses Looked (stage.lookup session dn next) w := by
  unfold AciStage.lookup
  refine .after_get ?_
  simp only [hasked, Bool.false_eq_true, if_false]
  refine refuses_required hlook hb dn fun e w' hb' _ he => ?_
  exact refuses_question hlook hb' (fun _ => he _ (by decide))
    (AccessCheck.require_denied rfl (List.cons_ne_nil _ _))

/-- What is left to do for the caches after modifications have been passed on. -/
def followModified (dn : Dn) (mods : List Modification) (pre : Entry)
    (outcome : Outcome (World σ)) : Handling σ (Outcome (World σ)) := do
  World.changeGroups fun groups => groups.groupModified dn mods pre
  match ← World.onStore (Backend.lookup dn) with
  | some post =>
      let _ ← World.onTuples (TupleCache.subentryModified dn mods post)
  | none => pure ()
  return outcome

/-- The caches follow without a change to what is stored. -/
theorem leaves_followModified (hlook : Looking inner Looked) {P : σ → Prop}
    (hkeeps : ∀ s s', Looked s s' → P s → P s') (hP : P w.store) (dn : Dn)
    (mods : List Modification) (pre : Entry) (outcome : Outcome (World σ)) :
    Leaves P (followModified dn mods pre outcome) w := by
  unfold followModified
  have hgroups : Leaves P (World.changeGroups fun groups => groups.groupModified dn mods pre) w :=
    hP
  refine hgroups.bind fun _ w₁ hP₁ => ?_
  refine ((answers_lookup hlook dn w₁).leaves hkeeps hP₁).bind fun post w₂ hP₂ => ?_
  cases post with
  | none => exact hP₂
  | some post => exact (leaves_onTuples hP₂ _).bind fun _ w₃ hP₃ => hP₃

/-- Modifications about which something is asked are refused. -/
theorem refuses_modify (hlook : Looking inner Looked) (hb : Barren inner w)
    (hasked : stage.bypasses w.groups session = false) {dn : Dn} {mods : List Modification}
    (hmods : ¬(inner w.store).PassesUnasked dn mods) :
    Refuses Looked (stage.modify session dn mods next) w := by
  unfold AciStage.modify
  split
  · exact .of_error hlook rfl
  · next hsome =>
    have hne : mods ≠ [] := fun h => hsome (List.isEmpty_iff.mpr h)
    rcases lookupRequired_cases hlook dn w with ⟨-, hrefused⟩ | ⟨pre, hpre, hfound⟩
    · exact hrefused.bind
    · refine hfound.refuses hlook fun w' hw' => ?_
      obtain ⟨hb', hgroups, -⟩ := hb.looked hlook hw'
      refine .after_except hlook fun _ hvalid => .after_get ?_
      rw [hgroups]
      simp only [hasked, Bool.not_false, if_true]
      have htuples : Answers Looked (tuplesFor pre true) w' [] :=
        hb'.answers_tuplesFor hlook fun _ => hb.bare dn pre hpre _ (by decide)
      refine htuples.refuses hlook fun w'' _ => .after_except hlook fun final hfinal => ?_
      have hunnoticed : Unnoticed pre mods := checkModifications_nothing.mp ⟨final, hfinal⟩
      exact absurd ⟨hne, pre, hpre, hvalid, hunnoticed⟩ hmods

variable (next) in
/-- All other modifications are passed on. -/
theorem modify_passes (hlook : Looking inner Looked) (hb : Barren inner w)
    (hasked : stage.bypasses w.groups session = false) {dn : Dn} {mods : List Modification}
    (hmods : (inner w.store).PassesUnasked dn mods) :
    ∃ pre w', w.LookedAt Looked w'
      ∧ stage.modify session dn mods next w = (next >>= followModified dn mods pre) w' := by
  obtain ⟨hne, pre, hpre, hvalid, hunnoticed⟩ := hmods
  have hchecked : ∃ final, checkModifications (requester w.groups session) pre [] pre mods
      = .ok final := checkModifications_nothing.mpr hunnoticed
  obtain ⟨final, hfinal⟩ := hchecked
  rcases lookupRequired_cases hlook dn w with ⟨hnone, -⟩ | ⟨pre', hpre', w₁, hw₁, hfound⟩
  · rw [hpre] at hnone
    cases hnone
  · cases Option.some.inj (hpre.symm.trans hpre')
    obtain ⟨hb₁, hgroups, -⟩ := hb.looked hlook hw₁
    have htuples : Answers Looked (tuplesFor pre true) w₁ [] :=
      hb₁.answers_tuplesFor hlook fun _ => hb.bare dn pre hpre _ (by decide)
    obtain ⟨w₂, hw₂, htuples⟩ := htuples
    refine ⟨pre, w₂, hw₁.trans hlook hw₂, ?_⟩
    have hget : (MonadState.get : Handling σ (World σ)) w₁ = .ok w₁ w₁ := rfl
    have hok : ∀ {α : Type} (a : α) (w : World σ),
        (Action.ofExcept (.ok a) : Handling σ α) w = .ok a w := fun _ _ => rfl
    unfold AciStage.modify
    simp only [List.isEmpty_eq_false_iff.mpr hne, Bool.false_eq_true, if_false]
    rw [bind_of_ok hfound, hvalid, bind_of_ok (hok () w₁), bind_of_ok hget]
    simp only [hgroups, hasked, Bool.not_false, if_true]
    rw [bind_of_ok htuples, hfinal, bind_of_ok (hok final w₂)]
    rfl

/-- Nobody is told that an entry is there, unless it is the root. -/
theorem hasEntry_denied (hlook : Looking inner Looked) (hb : Barren inner w)
    (hasked : stage.bypasses w.groups session = false) {dn : Dn} {present : Bool}
    (hnext : Answers Looked next w (.hasEntry present)) :
    Answers Looked (stage.hasEntry session dn next) w (.hasEntry (present && dn.isRoot)) := by
  unfold AciStage.hasEntry
  refine hnext.bind hlook fun w₁ hw₁ => ?_
  obtain ⟨hb₁, hgroups, -⟩ := hb.looked hlook hw₁
  refine .after_value (.after_get ?_)
  simp only [hgroups, hasked, Bool.or_false]
  cases present with
  | false => exact .of_ok hlook rfl
  | true =>
      cases hroot : dn.isRoot with
      | true => exact .of_ok hlook rfl
      | false =>
          refine (answers_lookup hlook dn w₁).bind hlook fun w₂ hw₂ => ?_
          obtain ⟨hb₂, -, -⟩ := hb₁.looked hlook hw₂
          cases hfound : (inner w₁.store).lookup dn with
          | none => exact .of_ok hlook rfl
          | some e =>
              have htuples : Answers Looked (tuplesFor e true) w₂ [] :=
                hb₂.answers_tuplesFor hlook fun _ => hb₁.bare dn e hfound _ (by decide)
              refine htuples.bind hlook fun w₃ _ => ?_
              rw [AccessCheck.not_hasPermission rfl (List.cons_ne_nil _ _)]
              exact .of_ok hlook rfl

-- ── Searching ────────────────────────────────────────────────────────────────────

/-- No entry without access control items comes out of a search. -/
theorem searchFilter_denied (hlook : Looking inner Looked) (hb : Barren inner w)
    (asker : Requester) {entry : Entry} (hentry : entry.Bare) :
    Answers Looked (searchFilter asker entry) w none := by
  have htuples : Answers Looked (tuplesFor entry true) w [] :=
    hb.answers_tuplesFor hlook fun _ => hentry _ (by decide)
  unfold searchFilter
  refine htuples.bind hlook fun w' _ => ?_
  rw [AccessCheck.not_hasPermission rfl (List.cons_ne_nil _ _)]
  exact .of_ok hlook rfl

/-- Whatever else is in the way of the results, nothing comes out. -/
theorem collectFrom_denied (hlook : Looking inner Looked) (hb : Barren inner w)
    (asker : Requester) (more : List (EntryFilter (World σ)))
    {results : List (Except OperationError Entry)}
    (hresults : ∀ r ∈ results, ∃ e : Entry, r = .ok e ∧ e.Bare) :
    Answers Looked (EntryCursor.collectFrom (searchFilter asker :: more) results) w [] := by
  induction results generalizing w with
  | nil => exact .of_ok hlook rfl
  | cons r rest ih =>
      obtain ⟨e, rfl, he⟩ := hresults r (List.mem_cons_self ..)
      have hdropped : Answers Looked (EntryCursor.through e (searchFilter asker :: more)) w none :=
        (searchFilter_denied hlook hb asker he).bind hlook fun w' _ => .of_ok hlook rfl
      refine hdropped.bind hlook fun w' hw' => ?_
      exact ih (hb.looked hlook hw').1 fun r' hr' => hresults r' (List.mem_cons_of_mem _ hr')

/-- A search is passed on, and what comes back is then held against the decision. -/
theorem search_answers (hlook : Looking inner Looked)
    (hasked : stage.bypasses w.groups session = false) {cursor : EntryCursor (World σ)}
    (hnext : Answers Looked next w (.search cursor)) :
    Answers Looked (stage.search session next) w
      (.search (cursor.addFilter (searchFilter (requester w.groups session)))) := by
  unfold AciStage.search
  refine .after_get ?_
  simp only [hasked, Bool.false_eq_true, if_false]
  exact hnext.bind hlook fun w' _ => .of_ok hlook rfl

/-- A search is refused where storage refuses it. -/
theorem search_refuses (hasked : stage.bypasses w.groups session = false)
    (hnext : Refuses Looked next w) : Refuses Looked (stage.search session next) w := by
  unfold AciStage.search
  refine .after_get ?_
  simp only [hasked, Bool.false_eq_true, if_false]
  exact hnext.bind

end AciStage

end

end DirectoryAccess
