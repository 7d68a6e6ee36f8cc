import DirectoryAccess.Proofs.Authorization.Bypass
import DirectoryAccess.Proofs.Authorization.Limits
import DirectoryAccess.Proofs.Authorization.Secrecy
import DirectoryAccess.Proofs.Store.Retention

/-! # Sparing — what may be done to an attribute that is denied

    A modification is asked about the values that come and go.  Who is denied an attribute
    and all that an entry holds of it can still modify it, as long as none of this goes and
    the attribute is not called into being: above all, by changing nothing.  Such
    modifications SPARE the attribute.  They are let through while all others are refused,
    so they tell two entries apart if they spare the attribute of just one of them. -/

namespace DirectoryAccess

-- ── Sparing an attribute ─────────────────────────────────────────────────────────

/-- Somebody is denied every micro operation on an attribute of an entry, and on each value
    that it holds. -/
structure DeniedOn (asker : Requester) (e : Entry) (tuples : List AciTuple) (a : String) :
    Prop where
  onAttribute : ∀ op, ((AccessCheck.onEntry asker e [op] tuples).onAttribute a).hasPermission
    = false
  onValue : ∀ op v, (e.valuesAt a).contains v = true →
    ((AccessCheck.onEntry asker e [op] tuples).onValue a v).hasPermission = false

/-- A modification SPARES an attribute of an entry if it leaves each value that the entry
    holds, does not call the attribute into being, and if the values that come and go
    besides are granted. -/
structure Spares (asker : Requester) (e : Entry) (tuples : List AciTuple) (a : String)
    (view post : Entry) : Prop where
  retains : e.Retains a post
  added : ∀ v, (post.valuesAt a).contains v = true → (view.valuesAt a).contains v = false →
    ((questionIn asker e tuples post .add).onValue a v).hasPermission = true
  removed : ∀ v, (view.valuesAt a).contains v = true → (post.valuesAt a).contains v = false →
    ((questionIn asker e tuples view .remove).onValue a v).hasPermission = true

/-- Each of a list of modifications spares an attribute. -/
def SparedBy (asker : Requester) (e : Entry) (tuples : List AciTuple) (a : String) :
    Entry → List Modification → Prop
  | _, [] => True
  | view, m :: rest => Spares asker e tuples a view (view.project m)
      ∧ SparedBy asker e tuples a (view.project m) rest

/-- What spares an attribute all along retains it all along. -/
theorem SparedBy.retained {asker : Requester} {e : Entry} {tuples : List AciTuple} {a : String}
    {view : Entry} {mods : List Modification} (h : SparedBy asker e tuples a view mods) :
    Entry.RetainedBy a e view mods := by
  induction mods generalizing view with
  | nil => trivial
  | cons m rest ih => exact ⟨h.1.retains, ih h.2⟩

/-- What leaves an attribute as it is spares it. -/
theorem spares_of_eq {asker : Requester} {e : Entry} {tuples : List AciTuple} {a : String}
    {view post : Entry} (hview : e.Retains a view) (hsame : post.valuesAt a = view.valuesAt a) :
    Spares asker e tuples a view post := by
  refine ⟨hview.congr hsame, fun v hv hnot => ?_, fun v hv hnot => ?_⟩
  · rw [← hsame, hv] at hnot
    cases hnot
  · rw [hsame, hv] at hnot
    cases hnot

section

variable {a : String} (ha : a ∉ Attribute.deciding) {asker : Requester} {tuples : List AciTuple}
  (hoverlooked : ∀ t ∈ tuples, t.Overlooks a) {e : Entry}

include ha hoverlooked

variable (hdenied : DeniedOn asker e tuples a)

include hdenied

/-- What spares an attribute that is denied is what is granted of the change to it. -/
theorem spares_iff {view post : Entry} (hview : e.Retains a view) :
    Spares asker e tuples a view post
      ↔ StepGranted asker e tuples a view post (view.valuesAt a) (post.valuesAt a) := by
  have hquestion : ∀ u op, AccessCheck.Likewise a (questionIn asker e tuples u op)
      (AccessCheck.onEntry asker e [op] tuples) := fun _ op =>
    { AccessCheck.likewise_onEntry (.refl a e) asker [op] tuples with
      counted := fun _ _ ht => nomatch ht }
  have hadding : ((questionIn asker e tuples post .add).onAttribute a).hasPermission = false :=
    (((hquestion post .add).onAttribute a).hasPermission_eq ha).trans (hdenied.onAttribute .add)
  have hremoving : ∀ v, (e.valuesAt a).contains v = true →
      ((questionIn asker e tuples view .remove).onValue a v).hasPermission = false := by
    intro v hv
    -- counting values in the projection makes no difference to a removal
    have hother : MicroOperation.add ∉ [MicroOperation.remove] := by decide
    have hlikewise := (hquestion view .remove).onValue hoverlooked a v fun hadd =>
      absurd hadd hother
    exact (hlikewise.hasPermission_eq ha).trans (hdenied.onValue .remove v hv)
  constructor
  · intro h
    -- neither the first value comes nor the last one goes
    have hnone : (post.valuesAt a).isEmpty = true ↔ (view.valuesAt a).isEmpty = true :=
      h.retains.isEmpty_iff.trans hview.isEmpty_iff.symm
    exact {
      created := fun hbefore hafter => by
        rw [hnone.mpr hbefore] at hafter
        cases hafter
      removed := h.removed
      added := h.added
      ended := fun hbefore hafter => by
        rw [hnone.mp hafter] at hbefore
        cases hbefore }
  · intro h
    refine ⟨⟨fun v hv => ?_, fun hnone => ?_⟩, h.added, h.removed⟩
    · by_contra hgone
      have hgranted := h.removed v (hview.kept v hv) (eq_false_of_ne_true hgone)
      rw [hremoving v hv] at hgranted
      cases hgranted
    · by_contra hsome
      have hgranted := h.created (hview.absent hnone) (eq_false_of_ne_true hsome)
      rw [hadding] at hgranted
      cases hgranted

/-- A modification passes its check exactly if it does as one of another attribute, and the
    attribute that is denied is spared. -/
theorem checkModification_ok_iff_spares {view post : Entry} (hview : e.Retains a view)
    {m : Modification} (hplain : m.Handles a → Text.Plain m.attr) :
    checkModification asker e tuples view m = .ok post
      ↔ post = view.project m
        ∧ (Text.lowercase m.attr ≠ a →
            checkModification asker e tuples view m = .ok (view.project m))
        ∧ Spares asker e tuples a view (view.project m) := by
  by_cases habout : Text.lowercase m.attr = a
  · rw [checkModification_ok_of_plain (hplain (Or.inl habout)) habout]
    refine and_congr_right ?_
    rintro rfl
    rw [spares_iff ha hoverlooked hdenied hview]
    exact (and_iff_right fun hother => absurd habout hother).symm
  · constructor
    · intro hchecked
      obtain ⟨rfl, -⟩ := (checkModification_ok asker e tuples).mp hchecked
      exact ⟨rfl, fun _ => hchecked,
        spares_of_eq hview (Entry.valuesAt_project_of_ne habout view)⟩
    · rintro ⟨rfl, hchecked, -⟩
      exact hchecked habout

/-- A list of modifications passes its check exactly if those of other attributes do, and the
    attribute that is denied is spared. -/
theorem checkModifications_ok_iff {view : Entry} (hview : e.Retains a view)
    {mods : List Modification} (hplain : ∀ m ∈ mods, m.Handles a → Text.Plain m.attr) :
    (∃ final, checkModifications asker e tuples view mods = .ok final)
      ↔ OthersGranted asker e tuples a view mods ∧ SparedBy asker e tuples a view mods := by
  induction mods generalizing view with
  | nil => exact iff_of_true ⟨view, rfl⟩ ⟨trivial, trivial⟩
  | cons m rest ih =>
      obtain ⟨hm, hrest⟩ := List.forall_mem_cons.mp hplain
      constructor
      · rintro ⟨final, hfinal⟩
        obtain ⟨post, hchecked, hfinal⟩ := checkModifications_cons_ok.mp hfinal
        obtain ⟨rfl, hother, hspared⟩ :=
          (checkModification_ok_iff_spares ha hoverlooked hdenied hview hm).mp hchecked
        obtain ⟨hothers, hall⟩ := (ih hspared.retains hrest).mp ⟨final, hfinal⟩
        exact ⟨⟨hother, hothers⟩, hspared, hall⟩
      · rintro ⟨⟨hother, hothers⟩, hspared, hall⟩
        obtain ⟨final, hfinal⟩ := (ih hspared.retains hrest).mpr ⟨hothers, hall⟩
        have hchecked := (checkModification_ok_iff_spares ha hoverlooked hdenied hview hm).mpr
          ⟨rfl, hother, hspared⟩
        exact ⟨final, checkModifications_cons_ok.mpr ⟨_, hchecked, hfinal⟩⟩

end

-- ── What changes nothing ─────────────────────────────────────────────────────────

/-- Each of a list of modifications leaves the values that an entry holds of an attribute as
    they are. -/
def Entry.Keeps (a : String) (e : Entry) (mods : List Modification) : Prop :=
  ∀ m ∈ mods, (e.project m).valuesAt a = e.valuesAt a

/-- An addition that is granted with more values counted is granted with fewer. -/
theorem hasPermission_of_questionIn {asker : Requester} {e view : Entry} {tuples : List AciTuple}
    {a v : String} (hcount : e.valueCount a ≤ view.valueCount a)
    (h : ((questionIn asker e tuples view .add).onValue a v).hasPermission = true) :
    ((AccessCheck.onEntry asker e [.add] tuples).onValue a v).hasPermission = true := by
  have hmax : ∀ t op, AccessCheck.maxValueCountHolds
        ((questionIn asker e tuples view .add).onValue a v) t op = true →
      AccessCheck.maxValueCountHolds
        ((AccessCheck.onEntry asker e [.add] tuples).onValue a v) t op = true := by
    intro t op hholds
    simp only [AccessCheck.maxValueCountHolds, AccessCheck.onValue, Bool.or_eq_true] at hholds ⊢
    refine hholds.imp_right fun hall => List.all_eq_true.mpr fun item hitem => ?_
    have hholds := List.all_eq_true.mp hall item hitem
    cases item with
    | maxValueCount limits =>
        refine List.all_eq_true.mpr fun l hl => decide_eq_true ?_
        exact Nat.le_trans hcount (of_decide_eq_true (List.all_eq_true.mp hholds l hl))
    | _ => rfl
  refine AccessCheck.hasPermission_mono (c := (questionIn asker e tuples view .add).onValue a v)
    rfl rfl (fun op t _ happlies => ?_) (fun op t hdenies happlies => ?_) h
  · have hcounts := AccessCheck.applies_iff.mp happlies
    exact AccessCheck.applies_iff.mpr
      { hcounts with maxValueCount := hmax t op hcounts.maxValueCount }
  · have hcounts := AccessCheck.applies_iff.mp happlies
    have hholds : AccessCheck.maxValueCountHolds
        ((questionIn asker e tuples view .add).onValue a v) t op = true := by
      rw [AccessCheck.maxValueCountHolds, AccessCheck.onValue, hdenies]
      rfl
    exact AccessCheck.applies_iff.mpr { hcounts with maxValueCount := hholds }

section

variable {asker : Requester} {e view : Entry} {tuples : List AciTuple} {a : String}
  (hnone : ∀ v, (e.valuesAt a).contains v = false →
    ((AccessCheck.onEntry asker e [.add] tuples).onValue a v).hasPermission = false)
  (hview : view.valuesAt a = e.valuesAt a)

include hnone hview

/-- Where no other value may be added to an attribute, a modification that spares it changes
    nothing of it. -/
theorem Spares.valuesAt_eq {m : Modification}
    (h : Spares asker e tuples a view (view.project m)) :
    (view.project m).valuesAt a = e.valuesAt a := by
  by_cases hm : Text.lowercase m.attr = a
  · have hread : Attribute.readAs a = a := hm ▸ Attribute.readAs_lowercase m.attr
    have hcount : e.valueCount a ≤ (view.project m).valueCount a := by
      rw [Entry.valueCount_eq, Entry.valueCount_eq, hread]
      exact OrdSet.size_le_of_contains h.retains.kept
    refine OrdSet.eq_of_contains fun v => Bool.eq_iff_iff.mpr ⟨fun hv => ?_, h.retains.kept v⟩
    by_contra hnot
    have hother := eq_false_of_ne_true hnot
    have hgranted := hasPermission_of_questionIn hcount (h.added v hv (hview ▸ hother))
    rw [hnone v hother] at hgranted
    cases hgranted
  · rw [Entry.valuesAt_project_of_ne hm, hview]

/-- Where no other value may be added to an attribute, the modifications that spare it are those
    that change nothing of it. -/
theorem sparedBy_iff_keeps (ha : a ≠ Attribute.objectClass) {mods : List Modification} :
    SparedBy asker e tuples a view mods ↔ e.Keeps a mods := by
  induction mods generalizing view with
  | nil => exact iff_of_true trivial nofun
  | cons m rest ih =>
      have hsame : (view.project m).valuesAt a = (e.project m).valuesAt a := by
        by_cases hm : Text.lowercase m.attr = a
        · have hafter : ∀ u : Entry,
              (u.project m).valuesAt a = Attributes.valuesAfter (u.valuesAt a) m :=
            fun u => Attributes.valuesAt_project u.attrs hm ha
          rw [hafter, hafter, hview]
        · rw [Entry.valuesAt_project_of_ne hm, Entry.valuesAt_project_of_ne hm, hview]
      have hstep : Spares asker e tuples a view (view.project m)
          ↔ (e.project m).valuesAt a = e.valuesAt a := by
        refine ⟨fun h => hsame.symm.trans (h.valuesAt_eq hnone hview), fun hkept => ?_⟩
        exact spares_of_eq ((Entry.Retains.refl a e).congr hview)
          ((hsame.trans hkept).trans hview.symm)
      rw [SparedBy, hstep, Entry.Keeps, List.forall_mem_cons]
      exact and_congr_right fun hkept => ih (hsame.trans hkept)

end

-- ── What becomes of modifications ────────────────────────────────────────────────

/-- What becomes of modifications of an entry: they must leave a valid subentry, if one at
    all, pass their check, and be carried out by storage. -/
def modifying (asker : Requester) (tuples : List AciTuple) (e : Entry)
    (mods : List Modification) : Except OperationError Unit := do
  validateSubentry (mods.foldl Entry.project e)
  let _ ← checkModifications asker e tuples e mods
  (e.modifyAll mods).map fun _ => ()

/-- Modifications TELL two entries APART if they are granted as far as they are about other
    attributes, and spare an attribute of just one of the entries. -/
structure TellsApart (asker : Requester) (tuples : List AciTuple) (a : String) (e e' : Entry)
    (mods : List Modification) : Prop where
  valid : validateSubentry (mods.foldl Entry.project e) = .ok ()
  others : OthersGranted asker e tuples a e mods
  one : ¬(SparedBy asker e tuples a e mods ↔ SparedBy asker e' tuples a e' mods)

/-- Whatever is refused with this check is refused for want of permission. -/
def OnlyDenies {α : Type} (x : Except OperationError α) : Prop :=
  ∀ cause, x = .error cause → cause = .accessDenied

theorem OnlyDenies.ok {α : Type} (b : α) : OnlyDenies (.ok b) := nofun

/-- A sequence of checks only denies if each of them does. -/
theorem OnlyDenies.bind {α β : Type} {x : Except OperationError α}
    {f : α → Except OperationError β} (hx : OnlyDenies x) (hf : ∀ b, OnlyDenies (f b)) :
    OnlyDenies (x.bind f) := by
  cases x with
  | error cause =>
      intro cause' h
      cases h
      exact hx cause rfl
  | ok b => exact hf b

theorem AccessCheck.require_onlyDenies (c : AccessCheck) : OnlyDenies c.require := by
  intro cause h
  rw [require] at h
  split at h
  · cases h
  · cases h
    rfl

theorem requireEach_onlyDenies (c : AccessCheck) (attr : String) (vs : List String) :
    OnlyDenies (requireEach c attr vs) := by
  induction vs with
  | nil => exact .ok ()
  | cons v rest ih => exact (c.onValue attr v).require_onlyDenies.bind fun _ => ih

/-- The check of a modification only denies. -/
theorem checkModification_onlyDenies (asker : Requester) (e : Entry) (tuples : List AciTuple)
    (view : Entry) (m : Modification) :
    OnlyDenies (checkModification asker e tuples view m) := by
  have hif : ∀ (b : Bool) (c : AccessCheck), OnlyDenies (requireIf b c) := by
    intro b c
    rw [requireIf]
    split
    · exact c.require_onlyDenies
    · exact .ok ()
  rw [checkModification_eq]
  refine (hif _ _).bind fun _ => OnlyDenies.bind (requireEach_onlyDenies _ _ _) fun _ => ?_
  exact OnlyDenies.bind (requireEach_onlyDenies _ _ _) fun _ => (hif _ _).bind fun _ => .ok _

/-- The check of a list of modifications only denies. -/
theorem checkModifications_onlyDenies (asker : Requester) (e : Entry) (tuples : List AciTuple)
    (view : Entry) (mods : List Modification) :
    OnlyDenies (checkModifications asker e tuples view mods) := by
  induction mods generalizing view with
  | nil => exact .ok view
  | cons m rest ih => exact (checkModification_onlyDenies asker e tuples view m).bind ih

section

variable {a : String} (ha : a ∉ Attribute.deciding) {asker : Requester} {tuples : List AciTuple}
  (hoverlooked : ∀ t ∈ tuples, t.Overlooks a) {e e' : Entry}

include ha hoverlooked

/-- What becomes of modifications of an entry that pass its check is a matter of storage, and
    it is a refusal of another kind. -/
theorem modifying_eq (hdenied : DeniedOn asker e tuples a) {mods : List Modification}
    (hplain : ∀ m ∈ mods, m.Handles a → Text.Plain m.attr)
    (hvalid : validateSubentry (mods.foldl Entry.project e) = .ok ()) :
    (OthersGranted asker e tuples a e mods ∧ SparedBy asker e tuples a e mods
        ∧ modifying asker tuples e mods = (e.modifyAll mods).map (fun _ => ()))
      ∨ (¬(OthersGranted asker e tuples a e mods ∧ SparedBy asker e tuples a e mods)
        ∧ modifying asker tuples e mods = .error .accessDenied) := by
  have hpasses := checkModifications_ok_iff ha hoverlooked hdenied (.refl a e) hplain
  rw [modifying, hvalid]
  cases hchecked : checkModifications asker e tuples e mods with
  | ok final =>
      obtain ⟨hothers, hspared⟩ := hpasses.mp ⟨final, hchecked⟩
      exact Or.inl ⟨hothers, hspared, rfl⟩
  | error cause =>
      refine Or.inr ⟨fun hboth => ?_, ?_⟩
      · obtain ⟨final, hfinal⟩ := hpasses.mpr hboth
        rw [hchecked] at hfinal
        cases hfinal
      · rw [checkModifications_onlyDenies asker e tuples e mods cause hchecked]
        rfl

/-- Modifications come to the same for entries that are alike, exactly if they do not tell
    them apart. -/
theorem modifying_eq_iff (h : e.AlikeBut a e') (hrules : e.attrs.RulesKept)
    (hrules' : e'.attrs.RulesKept) (hdenied : DeniedOn asker e tuples a)
    (hdenied' : DeniedOn asker e' tuples a) {mods : List Modification}
    (hplain : ∀ m ∈ mods, m.Handles a → Text.Plain m.attr) :
    modifying asker tuples e mods = modifying asker tuples e' mods
      ↔ ¬TellsApart asker tuples a e e' mods := by
  have hvalidated := (h.foldl_project mods).validateSubentry_eq ha
  cases hvalid : validateSubentry (mods.foldl Entry.project e) with
  | error cause =>
      refine iff_of_true ?_ fun htold => ?_
      · rw [modifying, modifying, ← hvalidated, hvalid]
        rfl
      · rw [htold.valid] at hvalid
        cases hvalid
  | ok u =>
      have hothers : OthersGranted asker e tuples a e mods
          ↔ OthersGranted asker e' tuples a e' mods :=
        othersGranted_congr ha hoverlooked h h hplain
      have hother : ∀ {e : Entry}, (e.modifyAll mods).map (fun _ => ()) ≠ .error .accessDenied := by
        intro e heq
        cases hmodified : e.modifyAll mods with
        | ok stored =>
            rw [hmodified] at heq
            cases heq
        | error cause =>
            rw [hmodified] at heq
            cases heq
            exact absurd (Entry.modifyAll_error hmodified) (by decide)
      rcases modifying_eq ha hoverlooked hdenied hplain hvalid with
        ⟨hgranted, hspared, heq⟩ | ⟨hnot, heq⟩ <;>
      rcases modifying_eq ha hoverlooked hdenied' hplain (hvalidated.symm.trans hvalid) with
        ⟨hgranted', hspared', heq'⟩ | ⟨hnot', heq'⟩ <;>
      rw [heq, heq']
      · refine iff_of_true ?_ fun htold => htold.one (iff_of_true hspared hspared')
        refine (Entry.Abreast.start h hrules hrules').modifyAll_eq ?_ hspared.retained
          hspared'.retained
        rintro rfl
        exact ha (List.mem_cons_self ..)
      · refine iff_of_false hother (not_not_intro ⟨hvalid, hgranted, fun hsame => ?_⟩)
        exact hnot' ⟨hothers.mp hgranted, hsame.mp hspared⟩
      · refine iff_of_false (Ne.symm hother) (not_not_intro ⟨hvalid, hothers.mpr hgranted', ?_⟩)
        exact fun hsame => hnot ⟨hothers.mpr hgranted', hsame.mpr hspared'⟩
      · refine iff_of_true rfl fun htold => htold.one ?_
        exact iff_of_false (fun hspared => hnot ⟨htold.others, hspared⟩)
          fun hspared' => hnot' ⟨hothers.mp htold.others, hspared'⟩

end

end DirectoryAccess
