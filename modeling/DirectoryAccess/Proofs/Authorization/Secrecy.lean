import DirectoryAccess.Proofs.Authorization.NothingGranted
import DirectoryAccess.Proofs.Cache.Tuple
import DirectoryAccess.Proofs.Store.Alike

/-! # Secrecy — what the decision tells of an attribute that is denied

    The decision looks at object classes and at access control items, and at the values
    of other attributes only where an item says so.  An attribute that no item looks at
    can differ between two entries without a difference to any question about them, nor to
    the check of a modification of any other attribute. -/

namespace DirectoryAccess

open DirectoryAccess.Action

/-- The attributes that the decision looks at by itself. -/
def Attribute.deciding : List String :=
  [objectClass, entryAci, subentryAci, prescriptiveAci, subtreeSpecification]

/-- An attribute on which decisions rest is never read as one on which none does. -/
theorem Attribute.readAs_ne {a b : String} (ha : a ∉ deciding) (hb : b ∈ deciding) :
    readAs b ≠ a := by
  have hown : ∀ b ∈ deciding, readAs b = b := by decide
  rw [hown b hb]
  rintro rfl
  exact ha hb

-- ── Entries ──────────────────────────────────────────────────────────────────────

namespace Entry.AlikeBut

variable {a : String} {e e' : Entry} (h : AlikeBut a e e') (ha : a ∉ Attribute.deciding)

include h ha

theorem hasClass_eq (name : String) : e.hasClass name = e'.hasClass name :=
  h.holds_eq (Attribute.readAs_ne ha (by decide)) name

theorem isSubentry_eq : e.isSubentry = e'.isSubentry := by
  rw [isSubentry, isSubentry, isAccessControlSubentry, isAccessControlSubentry,
    h.hasClass_eq ha, h.hasClass_eq ha]

/-- Entries that are alike hold the same tuples. -/
theorem heldTuples_eq {attr : String} (hattr : attr ∈ Attribute.deciding) :
    heldTuples e attr = heldTuples e' attr := by
  rw [heldTuples, heldTuples, h.values?_eq (Attribute.readAs_ne ha hattr)]

theorem validateSubentry_eq : validateSubentry e = validateSubentry e' := by
  rw [validateSubentry, validateSubentry, isAccessControlSubentry, isAccessControlSubentry,
    h.hasClass_eq ha, h.has_eq (Attribute.readAs_ne ha (by decide))]

/-- Every subentry selects both or neither. -/
theorem prescriptiveTuples_eq (c : TupleCache) (dn : Dn) :
    c.prescriptiveTuples dn (some e) = c.prescriptiveTuples dn (some e') := by
  have hrefines : ∀ area : SubtreeSpecification,
      area.refines (some e) = area.refines (some e') := by
    intro area
    unfold SubtreeSpecification.refines
    cases area.refinement with
    | none => rfl
    | some r => exact Refinement.isMetBy_congr (h.hasClass_eq ha) r
  have hselects : ∀ (x : Dn) (cached : CachedSubentry),
      TupleCache.areaSelects x cached dn (some e)
        = TupleCache.areaSelects x cached dn (some e') := by
    intro x cached
    rw [TupleCache.areaSelects, TupleCache.areaSelects]
    split
    · rw [SubtreeSpecification.selects, SubtreeSpecification.selects, hrefines]
    · rfl
  simp only [TupleCache.prescriptiveTuples, hselects]

end Entry.AlikeBut

-- ── Questions ────────────────────────────────────────────────────────────────────

/-- A tuple that does not hold other values against those of an attribute. -/
def AciTuple.Overlooks (t : AciTuple) (a : String) : Prop :=
  ∀ restrictions, .restrictedBy restrictions ∈ t.protectedItems →
    ∀ r ∈ restrictions, Attribute.readAs r.valuesIn ≠ a

/-- Tests that agree on the elements of a list are passed by all of them alike. -/
theorem all_congr_of_mem {α : Type} {l : List α} {p q : α → Bool} (h : ∀ x ∈ l, p x = q x) :
    l.all p = l.all q := by
  rw [Bool.eq_iff_iff, List.all_eq_true, List.all_eq_true]
  exact forall₂_congr fun x hx => by rw [h x hx]

namespace AccessCheck

/-- The same question about entries that are alike.  Where it is about a value, the
    attribute is overlooked, and an addition finds as many values. -/
structure Likewise (a : String) (c c' : AccessCheck) : Prop where
  requester_eq : c.requester = c'.requester
  entry : c.entry.AlikeBut a c'.entry
  target_eq : c.target = c'.target
  operations_eq : c.operations = c'.operations
  tuples_eq : c.tuples = c'.tuples
  immSubordinates_eq : c.immSubordinates = c'.immSubordinates
  overlooked : ∀ attr value, c.target = .value attr value → ∀ t ∈ c.tuples, t.Overlooks a
  counted : ∀ attr value, c.target = .value attr value → .add ∈ c.operations →
    c.valueCount attr = c'.valueCount attr

variable {a : String} {c c' : AccessCheck}

theorem Likewise.relatesTo_eq (h : Likewise a c c') (t : AciTuple) :
    c.relatesTo t = c'.relatesTo t := by
  have husers : c.inUserClass = c'.inUserClass := by
    funext u
    cases u <;> simp only [inUserClass, h.requester_eq, h.entry.dn_eq]
  rw [relatesTo, relatesTo, husers, h.requester_eq]

/-- Checks that are likewise cover the same items. -/
theorem Likewise.covers_eq (h : Likewise a c c') (ha : a ∉ Attribute.deciding)
    (item : ProtectedItem) : c.covers item = c'.covers item := by
  unfold covers
  rw [h.target_eq]
  match c'.target with
  | .entry =>
      cases item with
      | classes r => exact Refinement.isMetBy_congr (h.entry.hasClass_eq ha) r
      | _ => rfl
  | .attribute attr => rfl
  | .value attr value => simp only [isOwnName, h.requester_eq]

/-- Checks that are likewise find the same limits on values kept. -/
theorem Likewise.maxValueCountHolds_eq (h : Likewise a c c') {op : MicroOperation}
    (hop : op ∈ c.operations) (t : AciTuple) :
    c.maxValueCountHolds t op = c'.maxValueCountHolds t op := by
  unfold maxValueCountHolds
  rw [← h.target_eq]
  match htarget : c.target with
  | .entry | .attribute _ => rfl
  | .value attr value =>
      by_cases hadd : op = .add
      · simp only [h.counted attr value htarget (hadd ▸ hop)]
      · have hother : (op != .add) = true := bne_iff_ne.mpr hadd
        simp only [hother, Bool.or_true, Bool.true_or]

theorem Likewise.maxImmSubHolds_eq (h : Likewise a c c') (op : MicroOperation) (t : AciTuple) :
    c.maxImmSubHolds t op = c'.maxImmSubHolds t op := by
  unfold maxImmSubHolds
  rw [h.target_eq, h.immSubordinates_eq]

/-- Restrictions that overlook the attribute hold for both or for neither. -/
theorem Likewise.restrictedByHolds_eq (h : Likewise a c c') {t : AciTuple} (ht : t ∈ c.tuples) :
    c.restrictedByHolds t = c'.restrictedByHolds t := by
  unfold restrictedByHolds
  rw [← h.target_eq]
  match htarget : c.target with
  | .entry | .attribute _ => rfl
  | .value attr value =>
      have hoverlooked := h.overlooked attr value htarget t ht
      refine congrArg (!t.grants || ·) (all_congr_of_mem fun item hitem => ?_)
      cases item with
      | restrictedBy restrictions =>
          refine all_congr_of_mem fun r hr => ?_
          exact h.entry.holds_eq (hoverlooked _ hitem r (List.mem_filter.mp hr).1) value
      | _ => rfl

/-- The same question about entries that are alike has the same answer. -/
theorem Likewise.hasPermission_eq (h : Likewise a c c') (ha : a ∉ Attribute.deciding) :
    c.hasPermission = c'.hasPermission := by
  have hcovers : c.covers = c'.covers := funext (h.covers_eq ha)
  have happlies : ∀ op ∈ c.operations, ∀ t ∈ c.tuples, c.applies op t = c'.applies op t := by
    intro op hop t ht
    rw [applies, applies, h.relatesTo_eq, hcovers, h.maxValueCountHolds_eq hop,
      h.maxImmSubHolds_eq, h.restrictedByHolds_eq ht]
  rw [hasPermission, hasPermission, ← h.operations_eq]
  refine all_congr_of_mem fun op hop => ?_
  rw [grants, grants, ← h.tuples_eq, List.filter_congr (happlies op hop)]

/-- Nothing may be done to what no item of the tuples covers. -/
theorem not_hasPermission_of_covers {c : AccessCheck} (hops : c.operations ≠ [])
    (h : ∀ t ∈ c.tuples, ∀ item ∈ t.protectedItems, c.covers item = false) :
    c.hasPermission = false := by
  refine not_hasPermission_of_none hops fun op t ht happlies => ?_
  obtain ⟨item, hitem, hcovers⟩ := (applies_iff.mp happlies).target
  rw [h t ht item hitem] at hcovers
  cases hcovers

/-- Whether something may be done to the entry itself is the same for entries that are
    alike. -/
theorem likewise_onEntry {e e' : Entry} (h : e.AlikeBut a e') (asker : Requester)
    (operations : List MicroOperation) (tuples : List AciTuple) :
    Likewise a (onEntry asker e operations tuples) (onEntry asker e' operations tuples) where
  requester_eq := rfl
  entry := h
  target_eq := rfl
  operations_eq := rfl
  tuples_eq := rfl
  immSubordinates_eq := rfl
  overlooked _ _ ht := nomatch ht
  counted _ _ ht := nomatch ht

/-- Checks stay likewise when another attribute is asked about. -/
theorem Likewise.onAttribute (h : Likewise a c c') (attr : String) :
    Likewise a (c.onAttribute attr) (c'.onAttribute attr) where
  requester_eq := h.requester_eq
  entry := h.entry
  target_eq := rfl
  operations_eq := h.operations_eq
  tuples_eq := h.tuples_eq
  immSubordinates_eq := h.immSubordinates_eq
  overlooked _ _ ht := nomatch ht
  counted _ _ ht := nomatch ht

/-- A question about a value that is not to be added stays the same, if the attribute is
    overlooked. -/
theorem Likewise.onValue (h : Likewise a c c') (hoverlooked : ∀ t ∈ c.tuples, t.Overlooks a)
    (attr value : String)
    (hcounted : .add ∈ c.operations → c.valueCount attr = c'.valueCount attr) :
    Likewise a (c.onValue attr value) (c'.onValue attr value) where
  requester_eq := h.requester_eq
  entry := h.entry
  target_eq := rfl
  operations_eq := h.operations_eq
  tuples_eq := h.tuples_eq
  immSubordinates_eq := h.immSubordinates_eq
  overlooked _ _ _ := hoverlooked
  counted attr' _ ht hadd := by
    cases ht
    exact hcounted hadd

/-- Checks that are likewise are granted or refused alike. -/
theorem Likewise.require_eq (h : Likewise a c c') (ha : a ∉ Attribute.deciding) :
    c.require = c'.require := by
  rw [require, require, h.hasPermission_eq ha]

end AccessCheck

-- ── Reading ──────────────────────────────────────────────────────────────────────

/-- Of entries that are alike but for an attribute that may not be read, the same may be
    read. -/
theorem readable_congr {a : String} (ha : a ∉ Attribute.deciding) {asker : Requester}
    {tuples : List AciTuple} (hoverlooked : ∀ t ∈ tuples, t.Overlooks a) {e e' : Entry}
    (h : e.AlikeBut a e')
    (hdenied : ((AccessCheck.onEntry asker e [.read] tuples).onAttribute a).hasPermission = false) :
    readable asker e tuples = readable asker e' tuples := by
  have hlikewise := AccessCheck.likewise_onEntry h asker [.read] tuples
  have hattribute := fun attr => (hlikewise.onAttribute attr).hasPermission_eq ha
  have hvalue := fun attr v =>
    (hlikewise.onValue hoverlooked attr v (nomatch ·)).hasPermission_eq ha
  unfold readable
  simp only [← hattribute, ← hvalue]
  exact h.reduce_eq hdenied

-- ── Modifying other attributes ───────────────────────────────────────────────────

/-- A modification that changes what is held under a name, or is checked against it. -/
def Modification.Handles (m : Modification) (a : String) : Prop :=
  Text.lowercase m.attr = a ∨ Attribute.readAs m.attr = a

/-- A plain name is read and written under its lower case. -/
theorem Attribute.readAs_of_plain {attr : String} (h : Text.Plain attr) :
    readAs attr = Text.lowercase attr := by
  cases hupper : Text.hasAsciiUpper attr with
  | true => rw [readAs, if_pos hupper]
  | false => rw [readAs, hupper, if_neg Bool.false_ne_true, h.lowercase_of_noUpper hupper]

/-- A modification that spells the attribute plainly, if it is about it, handles no attribute
    but that which it changes. -/
theorem Modification.not_handles {m : Modification} {a : String}
    (hplain : m.Handles a → Text.Plain m.attr) (hm : Text.lowercase m.attr ≠ a) :
    ¬m.Handles a := by
  intro hhandles
  have hread := hhandles.resolve_left hm
  rw [Attribute.readAs_of_plain (hplain hhandles)] at hread
  exact hm hread

/-- Checks for each of a list of values go alike if they are likewise. -/
theorem requireEach_congr {c c' : AccessCheck} {attr : String} {vs : List String}
    (h : ∀ v ∈ vs, (c.onValue attr v).require = (c'.onValue attr v).require) :
    requireEach c attr vs = requireEach c' attr vs := by
  induction vs with
  | nil => rfl
  | cons v rest ih =>
      obtain ⟨hv, hrest⟩ := List.forall_mem_cons.mp h
      rw [requireEach, requireEach, hv, ih hrest]

/-- What is asked first of both is not seen in the verdict. -/
theorem verdict_bind {α : Type} {x : Except OperationError Unit}
    {f f' : Unit → Except OperationError α}
    (h : (f ()).map (fun _ => ()) = (f' ()).map fun _ => ()) :
    (x.bind f).map (fun _ => ()) = (x.bind f').map fun _ => () := by
  cases x with
  | error e => rfl
  | ok u => exact h

/-- Each modification of another attribute passes its check. -/
def OthersGranted (asker : Requester) (e : Entry) (tuples : List AciTuple) (a : String) :
    Entry → List Modification → Prop
  | _, [] => True
  | view, m :: rest =>
      (Text.lowercase m.attr ≠ a →
          checkModification asker e tuples view m = .ok (view.project m))
        ∧ OthersGranted asker e tuples a (view.project m) rest

section

variable {a : String} (ha : a ∉ Attribute.deciding) {asker : Requester} {tuples : List AciTuple}
  (hoverlooked : ∀ t ∈ tuples, t.Overlooks a) {e e' : Entry} (h : e.AlikeBut a e')

include ha hoverlooked h

/-- A modification of another attribute is checked alike on entries that are alike. -/
theorem checkModification_congr {view view' : Entry} (hview : view.AlikeBut a view')
    {m : Modification} (hm : ¬m.Handles a) :
    (checkModification asker e tuples view m).map (fun _ => ())
      = (checkModification asker e' tuples view' m).map fun _ => () := by
  have hread : Attribute.readAs m.attr ≠ a := fun hsame => hm (Or.inr hsame)
  have hpost := hview.project m
  have hquestion : ∀ (u u' : Entry) op,
      AccessCheck.Likewise a (questionIn asker e tuples u op) (questionIn asker e' tuples u' op) :=
    fun _ _ op => { AccessCheck.likewise_onEntry h asker [op] tuples with
      counted := fun _ _ ht => nomatch ht }
  have hattribute : ∀ (u u' : Entry) (b : Bool) op,
      requireIf b ((questionIn asker e tuples u op).onAttribute m.attr)
        = requireIf b ((questionIn asker e' tuples u' op).onAttribute m.attr) := by
    intro u u' b op
    rw [requireIf, requireIf, ((hquestion u u' op).onAttribute m.attr).require_eq ha]
  have hvalue : ∀ {u u' : Entry}, u.AlikeBut a u' → ∀ op vs,
      requireEach (questionIn asker e tuples u op) m.attr vs
        = requireEach (questionIn asker e' tuples u' op) m.attr vs := by
    intro u u' hu op vs
    refine requireEach_congr fun v _ => ?_
    exact ((hquestion u u' op).onValue hoverlooked m.attr v
      fun _ => hu.valueCount_eq hread).require_eq ha
  rw [checkModification_eq, checkModification_eq]
  dsimp only
  rw [hview.values?_eq hread, hpost.values?_eq hread, hattribute _ (view'.project m),
    hattribute _ view', hvalue hview, hvalue hpost]
  exact verdict_bind (verdict_bind (verdict_bind (verdict_bind rfl)))

/-- Of modifications of other attributes those of both entries pass their checks, or neither. -/
theorem othersGranted_congr {view view' : Entry} (hview : view.AlikeBut a view')
    {mods : List Modification} (hplain : ∀ m ∈ mods, m.Handles a → Text.Plain m.attr) :
    OthersGranted asker e tuples a view mods ↔ OthersGranted asker e' tuples a view' mods := by
  induction mods generalizing view view' with
  | nil => exact Iff.rfl
  | cons m rest ih =>
      obtain ⟨hm, hrest⟩ := List.forall_mem_cons.mp hplain
      refine and_congr (forall_congr' fun hother => ?_) (ih (hview.project m) hrest)
      have hverdict : (checkModification asker e tuples view m).map (fun _ => ())
          = (checkModification asker e' tuples view' m).map fun _ => () :=
        checkModification_congr ha hoverlooked h hview (Modification.not_handles hm hother)
      have hpost : ∀ {e view post : Entry}, checkModification asker e tuples view m = .ok post →
          post = view.project m := fun hchecked =>
        ((checkModification_ok asker _ tuples).mp hchecked).1
      cases hstep : checkModification asker e tuples view m <;>
        cases hstep' : checkModification asker e' tuples view' m <;>
        rw [hstep, hstep'] at hverdict
      · exact iff_of_false nofun nofun
      · cases hverdict
      · cases hverdict
      · rw [hpost hstep, hpost hstep']
        exact iff_of_true rfl rfl

end

end DirectoryAccess
