import DirectoryAccess.Proofs.Aci.Decision
import DirectoryAccess.Proofs.Name.Key
import DirectoryAccess.Proofs.Ordered.Set
import Mathlib.Data.List.Forall2

/-! # What an item means — permissions without tuples

    A decision is taken over tuples, which are what is left of the items once both
    ways of writing them are flattened, grants parted from denials and empty sides
    dropped.  The meaning of a list of items is told here on the items: which of
    their permissions allow a micro operation and which forbid it.  A micro operation
    is granted if one allows it and none forbids it.  Nothing in that reading looks at
    a precedence, at the order of the items or at which way an item was written. -/

namespace DirectoryAccess

/-- One permission with what its item says for all of them.  Precedences are left
    out. -/
structure Permission where
  userClasses : List UserClass
  level : AuthenticationLevel
  protectedItems : List ProtectedItem
  grantsAndDenials : OrdSet GrantOrDenial

/-- The permissions of an item, whichever way it is written. -/
def AciItem.permissions (item : AciItem) : List Permission :=
  match item.body with
  | .itemFirst protectedItems ps =>
      ps.map fun p => ⟨p.userClasses, item.level, protectedItems, p.grantsAndDenials⟩
  | .userFirst userClasses ps =>
      ps.map fun p => ⟨userClasses, item.level, p.protectedItems, p.grantsAndDenials⟩

-- ── Who is meant, and what ───────────────────────────────────────────────────────

/-- The requester belongs to a class of users. -/
inductive UserClass.Matches (c : AccessCheck) : UserClass → Prop
  | allUsers : Matches c .allUsers
  | thisEntry (h : c.requester.dn.key = c.entry.dn.key) : Matches c .thisEntry
  | parentOfEntry {rdn : String × String} (h : c.entry.dn.key = rdn :: c.requester.dn.key) :
      Matches c .parentOfEntry
  | name {names : NameSet} {dn : Dn} (hmem : dn ∈ names.toList)
      (h : c.requester.dn.key = dn.key) : Matches c (.name names)
  | userGroup {groups : NameSet} {group own : Dn} (hmem : group ∈ groups.toList)
      (hown : own ∈ c.requester.groups.toList) (h : group.key = own.key) :
      Matches c (.userGroup groups)
  | subtree {specs : List SubtreeSpecification} {spec : SubtreeSpecification}
      (hmem : spec ∈ specs) (h : spec.selects Dn.root c.requester.dn none = true) :
      Matches c (.subtree specs)

/-- The attribute that a target is or belongs to. -/
def AccessTarget.attr? : AccessTarget → Option String
  | .entry => none
  | .attribute attr => some attr
  | .value attr _ => some attr

/-- A protected item covers a target.  Attributes are named but for the case of ASCII
    letters; the two limits on values cover the values they limit, and the limit on
    subordinates covers every entry. -/
inductive ProtectedItem.Covers (c : AccessCheck) : ProtectedItem → AccessTarget → Prop
  | entry : Covers c .entry .entry
  | maxImmSub {max : Nat} : Covers c (.maxImmSub max) .entry
  | classes {refinement : Refinement} (h : refinement.isMetBy c.entry = true) :
      Covers c (.classes refinement) .entry
  | allUserAttributeTypes {attr : String} (h : Attribute.isUser attr = true) :
      Covers c .allUserAttributeTypes (.attribute attr)
  | allUserAttributeTypesAndValues {target : AccessTarget} {attr : String}
      (ht : target.attr? = some attr) (h : Attribute.isUser attr = true) :
      Covers c .allUserAttributeTypesAndValues target
  | attributeType {target : AccessTarget} {attrs : OrdSet String} {attr a : String}
      (ht : target.attr? = some attr) (hmem : a ∈ attrs.toList)
      (h : Text.sameIgnoringAsciiCase a attr = true) : Covers c (.attributeType attrs) target
  | allAttributeValues {attrs : OrdSet String} {attr value a : String}
      (hmem : a ∈ attrs.toList) (h : Text.sameIgnoringAsciiCase a attr = true) :
      Covers c (.allAttributeValues attrs) (.value attr value)
  | attributeValue {avas : OrdSet AttributeValue} {attr value : String} {ava : AttributeValue}
      (hmem : ava ∈ avas.toList) (ha : Text.sameIgnoringAsciiCase ava.attr attr = true)
      (hv : Text.sameIgnoringAsciiCase ava.value value = true) :
      Covers c (.attributeValue avas) (.value attr value)
  | selfValue {attrs : OrdSet String} {attr value a : String} {dn : Dn}
      (hmem : a ∈ attrs.toList) (h : Text.sameIgnoringAsciiCase a attr = true)
      (hparse : Dn.parse value = .ok dn) (hself : dn.key = c.requester.dn.key) :
      Covers c (.selfValue attrs) (.value attr value)
  | maxValueCount {limits : List MaxValueCount} {attr value : String} {l : MaxValueCount}
      (hmem : l ∈ limits) (h : Text.sameIgnoringAsciiCase l.attr attr = true) :
      Covers c (.maxValueCount limits) (.value attr value)
  | restrictedBy {restrictions : List RestrictedValue} {attr value : String}
      {r : RestrictedValue} (hmem : r ∈ restrictions)
      (h : Text.sameIgnoringAsciiCase r.attr attr = true) :
      Covers c (.restrictedBy restrictions) (.value attr value)

namespace Permission

/-- Some class of users of the permission takes in the requester. -/
def Matches (c : AccessCheck) (p : Permission) : Prop := ∃ u ∈ p.userClasses, u.Matches c

/-- Some protected item of the permission covers the target. -/
def Covers (c : AccessCheck) (p : Permission) : Prop :=
  ∃ i ∈ p.protectedItems, i.Covers c c.target

/-- Every limit among the protected items holds for a micro operation.  Two of them
    limit additions only, the third whatever is done to a value. -/
structure WithinLimits (c : AccessCheck) (op : MicroOperation) (p : Permission) : Prop where
  maxValueCount : ∀ attr value, c.target = .value attr value → op = .add →
    ∀ limits, .maxValueCount limits ∈ p.protectedItems →
      ∀ l ∈ limits, Text.sameIgnoringAsciiCase l.attr attr = true → c.valueCount attr ≤ l.max
  maxImmSub : c.target = .entry → op = .add → ∀ max, .maxImmSub max ∈ p.protectedItems →
    ∃ count, c.immSubordinates = some count ∧ count < max
  restrictedBy : ∀ attr value, c.target = .value attr value →
    ∀ restrictions, .restrictedBy restrictions ∈ p.protectedItems →
      ∀ r ∈ restrictions, Text.sameIgnoringAsciiCase r.attr attr = true →
        c.entry.holds r.valuesIn value = true

/-- The permission grants a micro operation, and to this requester on this target. -/
structure Allows (c : AccessCheck) (op : MicroOperation) (p : Permission) : Prop where
  grants : ⟨op, true⟩ ∈ p.grantsAndDenials.toList
  user : p.Matches c
  level : p.level.rank ≤ c.requester.level.rank
  covers : p.Covers c
  limits : p.WithinLimits c op

/-- The permission denies a micro operation, and to this requester on this target.
    Whoever is below its level is denied without belonging to its users. -/
structure Forbids (c : AccessCheck) (op : MicroOperation) (p : Permission) : Prop where
  denies : ⟨op, false⟩ ∈ p.grantsAndDenials.toList
  covers : p.Covers c
  user : p.Matches c ∨ c.requester.level.rank < p.level.rank

end Permission

-- ── The tests of a decision read as these ────────────────────────────────────────

namespace AccessCheck

variable (c : AccessCheck)

/-- A requester is found in a user class exactly if the class matches. -/
theorem inUserClass_iff (u : UserClass) : c.inUserClass u = true ↔ u.Matches c := by
  constructor
  · intro h
    cases u with
    | allUsers => exact .allUsers
    | thisEntry => exact .thisEntry ((Dn.same_iff _ _).mp h)
    | parentOfEntry =>
        obtain ⟨rdn, hrdn⟩ := (Dn.isChildOf_iff _ _).mp h
        exact .parentOfEntry hrdn
    | name names =>
        obtain ⟨dn, hmem, heq⟩ := (OrdSet.contains_iff _ _).mp h
        exact .name hmem ((Dn.compare_eq_iff _ _).mp heq)
    | userGroup groups =>
        obtain ⟨group, hmem, hg⟩ := List.any_eq_true.mp h
        obtain ⟨own, hown, heq⟩ := (OrdSet.contains_iff _ _).mp hg
        exact .userGroup hmem hown ((Dn.compare_eq_iff _ _).mp heq)
    | subtree specs =>
        obtain ⟨spec, hmem, hspec⟩ := List.any_eq_true.mp h
        exact .subtree hmem hspec
  · intro h
    cases h with
    | allUsers => rfl
    | thisEntry h => exact (Dn.same_iff _ _).mpr h
    | parentOfEntry h => exact (Dn.isChildOf_iff _ _).mpr ⟨_, h⟩
    | name hmem h =>
        exact (OrdSet.contains_iff _ _).mpr ⟨_, hmem, (Dn.compare_eq_iff _ _).mpr h⟩
    | userGroup hmem hown h =>
        exact List.any_eq_true.mpr ⟨_, hmem, (OrdSet.contains_iff _ _).mpr
          ⟨_, hown, (Dn.compare_eq_iff _ _).mpr h⟩⟩
    | subtree hmem h => exact List.any_eq_true.mpr ⟨_, hmem, h⟩

/-- A set names an attribute that it has in some case. -/
theorem names_iff (attrs : OrdSet String) (attr : String) :
    names attrs attr = true ↔ ∃ a ∈ attrs.toList, Text.sameIgnoringAsciiCase a attr = true :=
  List.any_eq_true

/-- A value is the name of the requester if it is read as a spelling of it. -/
theorem isOwnName_iff (value : String) :
    c.isOwnName value = true
      ↔ ∃ dn, Dn.parse value = .ok dn ∧ dn.key = c.requester.dn.key := by
  unfold isOwnName
  split
  · next dn hdn => simp [Dn.same_iff, hdn]
  · next e he => simp [he]

variable {c}

/-- Three kinds of protected items can cover an entry. -/
theorem covers_entry (ht : c.target = .entry) (i : ProtectedItem) :
    c.covers i = true ↔ i.Covers c .entry := by
  simp only [covers, ht]
  constructor
  · intro h
    cases i with
    | entry => exact .entry
    | maxImmSub max => exact .maxImmSub
    | classes refinement => exact .classes h
    | _ => cases h
  · intro h
    cases h with
    | entry => rfl
    | maxImmSub => rfl
    | classes h => exact h
    | allUserAttributeTypesAndValues ha => cases ha
    | attributeType ha => cases ha

/-- Three kinds of protected items can cover an attribute. -/
theorem covers_attribute {attr : String} (ht : c.target = .attribute attr)
    (i : ProtectedItem) : c.covers i = true ↔ i.Covers c (.attribute attr) := by
  simp only [covers, ht]
  constructor
  · intro h
    cases i with
    | allUserAttributeTypes => exact .allUserAttributeTypes h
    | allUserAttributeTypesAndValues => exact .allUserAttributeTypesAndValues rfl h
    | attributeType attrs =>
        obtain ⟨a, hmem, ha⟩ := (names_iff _ _).mp h
        exact .attributeType rfl hmem ha
    | _ => cases h
  · intro h
    cases h with
    | allUserAttributeTypes h => exact h
    | allUserAttributeTypesAndValues ha h =>
        cases ha
        exact h
    | attributeType ha hmem h =>
        cases ha
        exact (names_iff _ _).mpr ⟨_, hmem, h⟩

/-- Seven kinds of protected items can cover a value. -/
theorem covers_value {attr value : String} (ht : c.target = .value attr value)
    (i : ProtectedItem) : c.covers i = true ↔ i.Covers c (.value attr value) := by
  simp only [covers, ht]
  constructor
  · intro h
    cases i with
    | allUserAttributeTypesAndValues => exact .allUserAttributeTypesAndValues rfl h
    | attributeType attrs =>
        obtain ⟨a, hmem, ha⟩ := (names_iff _ _).mp h
        exact .attributeType rfl hmem ha
    | allAttributeValues attrs =>
        obtain ⟨a, hmem, ha⟩ := (names_iff _ _).mp h
        exact .allAttributeValues hmem ha
    | attributeValue avas =>
        obtain ⟨ava, hmem, hava⟩ := List.any_eq_true.mp h
        obtain ⟨ha, hv⟩ := Bool.and_eq_true_iff.mp hava
        exact .attributeValue hmem ha hv
    | selfValue attrs =>
        obtain ⟨hnames, hown⟩ := Bool.and_eq_true_iff.mp h
        obtain ⟨a, hmem, ha⟩ := (names_iff _ _).mp hnames
        obtain ⟨dn, hparse, hself⟩ := (c.isOwnName_iff _).mp hown
        exact .selfValue hmem ha hparse hself
    | maxValueCount limits =>
        obtain ⟨l, hmem, hl⟩ := List.any_eq_true.mp h
        exact .maxValueCount hmem hl
    | restrictedBy restrictions =>
        obtain ⟨r, hmem, hr⟩ := List.any_eq_true.mp h
        exact .restrictedBy hmem hr
    | _ => cases h
  · intro h
    cases h with
    | allUserAttributeTypesAndValues ha h =>
        cases ha
        exact h
    | attributeType ha hmem h =>
        cases ha
        exact (names_iff _ _).mpr ⟨_, hmem, h⟩
    | allAttributeValues hmem h => exact (names_iff _ _).mpr ⟨_, hmem, h⟩
    | attributeValue hmem ha hv =>
        exact List.any_eq_true.mpr ⟨_, hmem, Bool.and_eq_true_iff.mpr ⟨ha, hv⟩⟩
    | selfValue hmem h hparse hself =>
        exact Bool.and_eq_true_iff.mpr
          ⟨(names_iff _ _).mpr ⟨_, hmem, h⟩, (c.isOwnName_iff _).mpr ⟨_, hparse, hself⟩⟩
    | maxValueCount hmem h => exact List.any_eq_true.mpr ⟨_, hmem, h⟩
    | restrictedBy hmem h => exact List.any_eq_true.mpr ⟨_, hmem, h⟩

variable (c)

/-- An item is found to cover the target of a check exactly if it does. -/
theorem covers_iff (i : ProtectedItem) : c.covers i = true ↔ i.Covers c c.target := by
  rcases ht : c.target with _ | attr | ⟨attr, value⟩
  · exact covers_entry ht i
  · exact covers_attribute ht i
  · exact covers_value ht i

end AccessCheck

-- ── A permission and its tuples ──────────────────────────────────────────────────

/-- The place of a micro operation tells which it is. -/
theorem MicroOperation.all_getElem?_rank (op : MicroOperation) : all[op.rank]? = some op := by
  cases op <;> rfl

instance : Std.LawfulEqOrd MicroOperation where
  compare_self := Std.ReflCmp.compare_self
  eq_of_compare := by
    intro a b h
    have hrank : a.rank = b.rank := Nat.compare_eq_eq.mp h
    have hsome : some a = some b := by
      rw [← a.all_getElem?_rank, ← b.all_getElem?_rank, hrank]
    exact Option.some.inj hsome

/-- The operations of a tuple are those granted, or those denied. -/
theorem mem_operationsOf (grants : Bool) (set : OrdSet GrantOrDenial) (op : MicroOperation) :
    (operationsOf grants set).contains op = true ↔ ⟨op, grants⟩ ∈ set.toList := by
  rw [operationsOf, OrdSet.contains_ofList]
  constructor
  · rintro ⟨op', hmem, heq⟩
    obtain ⟨g, hg, rfl⟩ := List.mem_map.mp hmem
    obtain ⟨hset, hgrants⟩ := List.mem_filter.mp hg
    rw [Std.LawfulEqCmp.eq_of_compare heq, ← eq_of_beq hgrants]
    exact hset
  · intro h
    exact ⟨op, List.mem_map.mpr ⟨⟨op, grants⟩, List.mem_filter.mpr ⟨h, beq_self_eq_true grants⟩,
      rfl⟩, Std.ReflCmp.compare_self⟩

namespace Permission

/-- A tuple carries one side of a permission, its grants or its denials. -/
structure Yields (p : Permission) (t : AciTuple) : Prop where
  userClasses : t.userClasses = p.userClasses
  level : t.level = p.level
  protectedItems : t.protectedItems = p.protectedItems
  operations : t.operations = operationsOf t.grants p.grantsAndDenials

variable {p : Permission} {t : AciTuple} {c : AccessCheck} {op : MicroOperation}

theorem Yields.any_inUserClass (h : p.Yields t) :
    t.userClasses.any c.inUserClass = true ↔ p.Matches c := by
  rw [h.userClasses, List.any_eq_true]
  simp only [c.inUserClass_iff, Matches]

theorem Yields.any_covers (h : p.Yields t) :
    t.protectedItems.any c.covers = true ↔ p.Covers c := by
  rw [h.protectedItems, List.any_eq_true]
  simp only [c.covers_iff, Covers]

theorem Yields.contains_operations (h : p.Yields t) :
    t.operations.contains op = true ↔ ⟨op, t.grants⟩ ∈ p.grantsAndDenials.toList := by
  rw [h.operations, mem_operationsOf]

/-- The limit on the number of values, which only additions of a value look at. -/
theorem Yields.maxValueCountHolds (h : p.Yields t) (hgrants : t.grants = true) :
    c.maxValueCountHolds t op = true ↔ ∀ attr value, c.target = .value attr value → op = .add →
      ∀ limits, .maxValueCount limits ∈ p.protectedItems →
        ∀ l ∈ limits, Text.sameIgnoringAsciiCase l.attr attr = true →
          c.valueCount attr ≤ l.max := by
  rcases ht : c.target with _ | attr | ⟨attr, value⟩
  case value =>
    simp only [AccessCheck.maxValueCountHolds, ht, hgrants, h.protectedItems, Bool.not_true,
      Bool.false_or, Bool.or_eq_true, bne_iff_ne, List.all_eq_true]
    constructor
    · rintro hall _ _ ⟨rfl, rfl⟩ hadd limits hmem l hl hsame
      rcases hall with hne | hall
      · exact absurd hadd hne
      · have := List.all_eq_true.mp (hall _ hmem) l (List.mem_filter.mpr ⟨hl, hsame⟩)
        exact of_decide_eq_true this
    · intro hlimits
      by_cases hadd : op = .add
      · refine Or.inr fun i hi => ?_
        split
        · next limits =>
            refine List.all_eq_true.mpr fun l hl => decide_eq_true ?_
            obtain ⟨hl, hsame⟩ := List.mem_filter.mp hl
            exact hlimits attr value rfl hadd limits hi l hl hsame
        · rfl
      · exact Or.inl hadd
  all_goals simp [AccessCheck.maxValueCountHolds, ht]

/-- The limit on the number of entries below the parent, which only additions of an
    entry look at. -/
theorem Yields.maxImmSubHolds (h : p.Yields t) (hgrants : t.grants = true) :
    c.maxImmSubHolds t op = true ↔ c.target = .entry → op = .add →
      ∀ max, .maxImmSub max ∈ p.protectedItems →
        ∃ count, c.immSubordinates = some count ∧ count < max := by
  rcases ht : c.target with _ | attr | ⟨attr, value⟩
  case entry =>
    simp only [AccessCheck.maxImmSubHolds, ht, hgrants, h.protectedItems, Bool.not_true,
      Bool.false_or, Bool.or_eq_true, bne_iff_ne, List.all_eq_true]
    constructor
    · rintro hall - hadd max hmem
      rcases hall with hne | hall
      · exact absurd hadd hne
      · have hmax := hall _ hmem
        cases hcount : c.immSubordinates with
        | none => simp [hcount] at hmax
        | some count => exact ⟨count, rfl, by simpa [hcount] using hmax⟩
    · intro hlimit
      by_cases hadd : op = .add
      · refine Or.inr fun i hi => ?_
        split
        · next max =>
            obtain ⟨count, hcount, hlt⟩ := hlimit trivial hadd max hi
            simpa [hcount] using hlt
        · rfl
      · exact Or.inl hadd
  all_goals simp [AccessCheck.maxImmSubHolds, ht]

/-- The limit to the values of another attribute, which everything done to a value
    looks at. -/
theorem Yields.restrictedByHolds (h : p.Yields t) (hgrants : t.grants = true) :
    c.restrictedByHolds t = true ↔ ∀ attr value, c.target = .value attr value →
      ∀ restrictions, .restrictedBy restrictions ∈ p.protectedItems →
        ∀ r ∈ restrictions, Text.sameIgnoringAsciiCase r.attr attr = true →
          c.entry.holds r.valuesIn value = true := by
  rcases ht : c.target with _ | attr | ⟨attr, value⟩
  case value =>
    simp only [AccessCheck.restrictedByHolds, ht, hgrants, h.protectedItems, Bool.not_true,
      Bool.false_or, List.all_eq_true]
    constructor
    · rintro hall _ _ ⟨rfl, rfl⟩ restrictions hmem r hr hsame
      exact List.all_eq_true.mp (hall _ hmem) r (List.mem_filter.mpr ⟨hr, hsame⟩)
    · intro hlimits i hi
      split
      · next restrictions =>
          refine List.all_eq_true.mpr fun r hr => ?_
          obtain ⟨hr, hsame⟩ := List.mem_filter.mp hr
          exact hlimits attr value rfl restrictions hi r hr hsame
      · rfl
  all_goals simp [AccessCheck.restrictedByHolds, ht]

/-- The tuple of the grants counts exactly where the permission allows. -/
theorem Yields.applies_grants (h : p.Yields t) (hgrants : t.grants = true) :
    c.applies op t = true ↔ p.Allows c op := by
  have hrelates : c.relatesTo t = true
      ↔ p.Matches c ∧ p.level.rank ≤ c.requester.level.rank := by
    rw [← h.any_inUserClass, ← h.level]
    simp [AccessCheck.relatesTo, hgrants, AuthenticationLevel.atLeast]
  simp only [AccessCheck.applies, Bool.and_eq_true, h.contains_operations, hrelates,
    h.any_covers, h.maxValueCountHolds hgrants, h.maxImmSubHolds hgrants,
    h.restrictedByHolds hgrants]
  constructor
  · rintro ⟨⟨⟨⟨⟨hop, huser, hlevel⟩, hcovers⟩, hcount⟩, hsub⟩, hrestricted⟩
    exact ⟨hgrants ▸ hop, huser, hlevel, hcovers, ⟨hcount, hsub, hrestricted⟩⟩
  · rintro ⟨hop, huser, hlevel, hcovers, ⟨hcount, hsub, hrestricted⟩⟩
    exact ⟨⟨⟨⟨⟨hgrants ▸ hop, huser, hlevel⟩, hcovers⟩, hcount⟩, hsub⟩, hrestricted⟩

/-- The tuple of the denials counts exactly where the permission forbids.  No limit
    holds a denial back. -/
theorem Yields.applies_denies (h : p.Yields t) (hdenies : t.grants = false) :
    c.applies op t = true ↔ p.Forbids c op := by
  have hrelates : c.relatesTo t = true
      ↔ p.Matches c ∨ c.requester.level.rank < p.level.rank := by
    rw [← h.any_inUserClass, ← h.level]
    simp [AccessCheck.relatesTo, hdenies, AuthenticationLevel.atLeast]
  have hcount : c.maxValueCountHolds t op = true := by
    unfold AccessCheck.maxValueCountHolds
    split <;> simp [hdenies]
  have hsub : c.maxImmSubHolds t op = true := by
    unfold AccessCheck.maxImmSubHolds
    split <;> simp [hdenies]
  have hrestricted : c.restrictedByHolds t = true := by
    unfold AccessCheck.restrictedByHolds
    split <;> simp [hdenies]
  simp only [AccessCheck.applies, Bool.and_eq_true, h.contains_operations, hrelates,
    h.any_covers, hcount, hsub, hrestricted, and_true]
  constructor
  · rintro ⟨⟨hop, huser⟩, hcovers⟩
    exact ⟨hdenies ▸ hop, hcovers, huser⟩
  · rintro ⟨hop, hcovers, huser⟩
    exact ⟨⟨hdenies ▸ hop, huser⟩, hcovers⟩

end Permission

-- ── An item and its tuples ───────────────────────────────────────────────────────

/-- There is a tuple of grants unless nothing is granted, and likewise one of denials. -/
theorem operationsOf_isEmpty (grants : Bool) (set : OrdSet GrantOrDenial) :
    (operationsOf grants set).isEmpty = false ↔ ∃ op, ⟨op, grants⟩ ∈ set.toList := by
  simp only [← mem_operationsOf, OrdSet.contains_iff_mem]
  rw [OrdSet.isEmpty, List.isEmpty_eq_false_iff_exists_mem]

namespace AciItem

section permissionTuples

variable (item : AciItem) (userClasses : List UserClass) (protectedItems : List ProtectedItem)
  (set : OrdSet GrantOrDenial) (precedence : Option Nat)

/-- What a permission is flattened into are its two sides, as far as they are not
    empty. -/
theorem mem_permissionTuples (t : AciTuple) :
    t ∈ item.permissionTuples userClasses protectedItems set precedence ↔
      (∃ op, ⟨op, t.grants⟩ ∈ set.toList)
        ∧ t = ⟨userClasses, item.level, protectedItems, operationsOf t.grants set, t.grants,
            precedence.getD item.precedence⟩ := by
  unfold permissionTuples
  rw [List.mem_filterMap]
  dsimp only
  constructor
  · rintro ⟨grants, -, ht⟩
    cases hempty : (operationsOf grants set).isEmpty with
    | true => simp [hempty] at ht
    | false =>
        rw [hempty] at ht
        cases ht
        exact ⟨(operationsOf_isEmpty _ _).mp hempty, rfl⟩
  · rintro ⟨hop, ht⟩
    refine ⟨t.grants, by simp, ?_⟩
    rw [(operationsOf_isEmpty _ _).mpr hop]
    exact congrArg some ht.symm

/-- Every tuple of a permission comes from it. -/
theorem yields_permissionTuples {t : AciTuple}
    (h : t ∈ item.permissionTuples userClasses protectedItems set precedence) :
    (⟨userClasses, item.level, protectedItems, set⟩ : Permission).Yields t := by
  rw [((mem_permissionTuples ..).mp h).2]
  exact ⟨rfl, rfl, rfl, rfl⟩

/-- What a permission grants or denies is in a tuple of its own. -/
theorem exists_permissionTuples {op : MicroOperation} {grants : Bool}
    (hop : ⟨op, grants⟩ ∈ set.toList) :
    ∃ t ∈ item.permissionTuples userClasses protectedItems set precedence,
      t.grants = grants :=
  ⟨⟨userClasses, item.level, protectedItems, operationsOf grants set, grants,
      precedence.getD item.precedence⟩,
    (mem_permissionTuples ..).mpr ⟨⟨op, hop⟩, rfl⟩, rfl⟩

end permissionTuples

/-- Every tuple of an item is a side of one of its permissions. -/
theorem mem_tuples {item : AciItem} {t : AciTuple} (h : t ∈ item.tuples) :
    ∃ p ∈ item.permissions, p.Yields t := by
  obtain ⟨tag, precedence, level, body⟩ := item
  cases body with
  | itemFirst protectedItems ps =>
      obtain ⟨p, hp, ht⟩ := List.mem_flatMap.mp h
      exact ⟨_, List.mem_map_of_mem hp, yields_permissionTuples _ _ _ _ _ ht⟩
  | userFirst userClasses ps =>
      obtain ⟨p, hp, ht⟩ := List.mem_flatMap.mp h
      exact ⟨_, List.mem_map_of_mem hp, yields_permissionTuples _ _ _ _ _ ht⟩

/-- Every side of a permission that is not empty is among the tuples of its item. -/
theorem exists_mem_tuples {item : AciItem} {p : Permission} (hp : p ∈ item.permissions)
    {op : MicroOperation} {grants : Bool} (hop : ⟨op, grants⟩ ∈ p.grantsAndDenials.toList) :
    ∃ t ∈ item.tuples, p.Yields t ∧ t.grants = grants := by
  obtain ⟨tag, precedence, level, body⟩ := item
  cases body with
  | itemFirst protectedItems ps =>
      obtain ⟨q, hq, rfl⟩ := List.mem_map.mp hp
      obtain ⟨t, ht, hgrants⟩ := exists_permissionTuples _ _ _ _ _ hop
      exact ⟨t, List.mem_flatMap.mpr ⟨q, hq, ht⟩, yields_permissionTuples _ _ _ _ _ ht, hgrants⟩
  | userFirst userClasses ps =>
      obtain ⟨q, hq, rfl⟩ := List.mem_map.mp hp
      obtain ⟨t, ht, hgrants⟩ := exists_permissionTuples _ _ _ _ _ hop
      exact ⟨t, List.mem_flatMap.mpr ⟨q, hq, ht⟩, yields_permissionTuples _ _ _ _ _ ht, hgrants⟩

/-- The permissions of a list of items. -/
def permissionsOf (items : List AciItem) : List Permission := items.flatMap permissions

/-- The same item without any precedence, its own or of a permission. -/
def withoutPrecedence (item : AciItem) : AciItem :=
  { item with
    precedence := 0
    body := match item.body with
      | .itemFirst protectedItems ps =>
          .itemFirst protectedItems (ps.map fun p => { p with precedence := none })
      | .userFirst userClasses ps =>
          .userFirst userClasses (ps.map fun p => { p with precedence := none }) }

/-- An item with its users first: itself, or one item for each permission of an item
    with its protected parts first, with the same pair of users and parts. -/
def usersFirst (item : AciItem) : List AciItem :=
  match item.body with
  | .itemFirst protectedItems ps =>
      ps.map fun p =>
        { item with
          body := .userFirst p.userClasses [⟨p.precedence, protectedItems, p.grantsAndDenials⟩] }
  | .userFirst _ _ => [item]

/-- Permissions do not look at precedences. -/
theorem permissions_withoutPrecedence (item : AciItem) :
    item.withoutPrecedence.permissions = item.permissions := by
  obtain ⟨tag, precedence, level, body⟩ := item
  cases body with
  | itemFirst protectedItems ps => exact List.map_map
  | userFirst userClasses ps => exact List.map_map

theorem permissionsOf_withoutPrecedence (items : List AciItem) :
    permissionsOf (items.map withoutPrecedence) = permissionsOf items := by
  simp only [permissionsOf, List.flatMap_map, permissions_withoutPrecedence]

theorem permissions_usersFirst (item : AciItem) :
    item.usersFirst.flatMap permissions = item.permissions := by
  obtain ⟨tag, precedence, level, body⟩ := item
  cases body with
  | itemFirst protectedItems ps =>
      show (ps.map _).flatMap permissions = _
      rw [List.flatMap_map]
      exact (List.map_eq_flatMap ..).symm
  | userFirst userClasses ps => exact List.flatMap_singleton ..

/-- Writing some of the items with their users first changes no permission. -/
theorem permissionsOf_parts {items : List AciItem} {parts : List (List AciItem)}
    (h : List.Forall₂ (fun item part => part = [item] ∨ part = item.usersFirst) items parts) :
    permissionsOf parts.flatten = permissionsOf items := by
  induction h with
  | nil => rfl
  | @cons item part items parts hpart hparts ih =>
      have hhead : part.flatMap permissions = item.permissions := by
        rcases hpart with rfl | rfl
        · exact List.flatMap_singleton ..
        · exact item.permissions_usersFirst
      show (part ++ parts.flatten).flatMap permissions = _
      rw [List.flatMap_append, hhead]
      exact congrArg (item.permissions ++ ·) ih

end AciItem

-- ── The decision ─────────────────────────────────────────────────────────────────

namespace AccessCheck

/-- The question put to a list of items. -/
def under (c : AccessCheck) (items : List AciItem) : AccessCheck :=
  { c with tuples := items.flatMap AciItem.tuples }

variable (c : AccessCheck)

/-- Put to a list of items, a micro operation is granted if some permission allows it
    and none forbids it. -/
theorem grants_under (items : List AciItem) (op : MicroOperation) :
    (c.under items).grants op = true
      ↔ (∃ p ∈ AciItem.permissionsOf items, p.Allows c op)
        ∧ ∀ p ∈ AciItem.permissionsOf items, ¬ p.Forbids c op := by
  rw [grants_iff]
  -- No test of a tuple looks at the tuples of the question.
  show (∃ t ∈ items.flatMap AciItem.tuples, t.grants = true ∧ c.applies op t = true)
      ∧ (∀ t ∈ items.flatMap AciItem.tuples, t.grants = false → ¬ c.applies op t = true) ↔ _
  have hmem : ∀ {p : Permission}, p ∈ AciItem.permissionsOf items
      ↔ ∃ item ∈ items, p ∈ item.permissions := List.mem_flatMap
  refine and_congr ?_ ?_
  · constructor
    · rintro ⟨t, ht, hgrants, happlies⟩
      obtain ⟨item, hitem, ht⟩ := List.mem_flatMap.mp ht
      obtain ⟨p, hp, hyields⟩ := AciItem.mem_tuples ht
      exact ⟨p, hmem.mpr ⟨item, hitem, hp⟩, (hyields.applies_grants hgrants).mp happlies⟩
    · rintro ⟨p, hp, hallows⟩
      obtain ⟨item, hitem, hp⟩ := hmem.mp hp
      obtain ⟨t, ht, hyields, hgrants⟩ := AciItem.exists_mem_tuples hp hallows.grants
      exact ⟨t, List.mem_flatMap.mpr ⟨item, hitem, ht⟩, hgrants,
        (hyields.applies_grants hgrants).mpr hallows⟩
  · constructor
    · intro hnone p hp hforbids
      obtain ⟨item, hitem, hp⟩ := hmem.mp hp
      obtain ⟨t, ht, hyields, hdenies⟩ := AciItem.exists_mem_tuples hp hforbids.denies
      exact hnone t (List.mem_flatMap.mpr ⟨item, hitem, ht⟩) hdenies
        ((hyields.applies_denies hdenies).mpr hforbids)
    · intro hnone t ht hdenies happlies
      obtain ⟨item, hitem, ht⟩ := List.mem_flatMap.mp ht
      obtain ⟨p, hp, hyields⟩ := AciItem.mem_tuples ht
      exact hnone p (hmem.mpr ⟨item, hitem, hp⟩) ((hyields.applies_denies hdenies).mp happlies)

/-- A list of items grants what is asked exactly if for every operation some permission of
    theirs allows it and none forbids it. -/
theorem hasPermission_under (items : List AciItem) :
    (c.under items).hasPermission = true ↔ ∀ op ∈ c.operations,
      (∃ p ∈ AciItem.permissionsOf items, p.Allows c op)
        ∧ ∀ p ∈ AciItem.permissionsOf items, ¬ p.Forbids c op := by
  rw [hasPermission, List.all_eq_true]
  exact forall₂_congr fun op _ => c.grants_under items op

/-- Lists of items with the same permissions decide alike. -/
theorem hasPermission_under_congr {items items' : List AciItem}
    (h : ∀ p, p ∈ AciItem.permissionsOf items ↔ p ∈ AciItem.permissionsOf items') :
    (c.under items).hasPermission = (c.under items').hasPermission := by
  rw [Bool.eq_iff_iff, hasPermission_under, hasPermission_under]
  simp only [h]

/-- **THE MEANING OF ITEMS**: everything asked for is granted exactly if each of it is
    allowed by some permission of some item and forbidden by none.  So the items may
    be reordered and repeated, given other precedences and, any of them, be written
    with their users first. -/
theorem hasPermission_of_items (items : List AciItem) (c : AccessCheck) :
    ((c.under items).hasPermission = true ↔ ∀ op ∈ c.operations,
      (∃ item ∈ items, ∃ p ∈ item.permissions, p.Allows c op)
        ∧ ∀ item ∈ items, ∀ p ∈ item.permissions, ¬ p.Forbids c op)
    ∧ (∀ others, (∀ item, item ∈ others ↔ item ∈ items) →
        (c.under others).hasPermission = (c.under items).hasPermission)
    ∧ (∀ others, others.map AciItem.withoutPrecedence = items.map AciItem.withoutPrecedence →
        (c.under others).hasPermission = (c.under items).hasPermission)
    ∧ (∀ parts, List.Forall₂ (fun item part => part = [item] ∨ part = item.usersFirst) items parts →
        (c.under parts.flatten).hasPermission = (c.under items).hasPermission) := by
  refine ⟨?_, ?_, ?_, ?_⟩
  · rw [hasPermission_under]
    refine forall₂_congr fun op _ => and_congr ?_ ?_
    · constructor
      · rintro ⟨p, hp, hallows⟩
        obtain ⟨item, hitem, hp⟩ := List.mem_flatMap.mp hp
        exact ⟨item, hitem, p, hp, hallows⟩
      · rintro ⟨item, hitem, p, hp, hallows⟩
        exact ⟨p, List.mem_flatMap.mpr ⟨item, hitem, hp⟩, hallows⟩
    · constructor
      · intro hnone item hitem p hp
        exact hnone p (List.mem_flatMap.mpr ⟨item, hitem, hp⟩)
      · intro hnone p hp
        obtain ⟨item, hitem, hp⟩ := List.mem_flatMap.mp hp
        exact hnone item hitem p hp
  · intro others hsame
    refine c.hasPermission_under_congr fun p => ?_
    simp only [AciItem.permissionsOf, List.mem_flatMap, hsame]
  · intro others hsame
    refine c.hasPermission_under_congr fun p => ?_
    rw [← AciItem.permissionsOf_withoutPrecedence others, hsame,
      AciItem.permissionsOf_withoutPrecedence]
  · intro parts hparts
    refine c.hasPermission_under_congr fun p => ?_
    rw [AciItem.permissionsOf_parts hparts]

end AccessCheck

/-- Everybody may browse. -/
def browsingGranted : AciItem :=
  ⟨"browsing", 10, .none, .itemFirst [.entry]
    [⟨none, [.allUsers], OrdSet.ofList [⟨.browse, true⟩, ⟨.returnDn, true⟩]⟩]⟩

/-- Nobody may browse who has not shown who they are. -/
def browsingDenied : AciItem :=
  ⟨"proof", 0, .simple, .userFirst []
    [⟨some 3, [.entry], OrdSet.ofList [⟨.browse, false⟩]⟩]⟩

/-- The question whether somebody may browse the topmost entry. -/
def browsingAsked (level : AuthenticationLevel) : AccessCheck :=
  AccessCheck.onEntry ⟨Dn.root, OrdSet.empty, level⟩ default [.browse] []

/-- Whoever proved who they are may browse, in whichever order the two items stand,
    with the same precedence in both and with the users first in the one. -/
theorem browsing_of_items :
    ((browsingAsked .simple).under [browsingGranted, browsingDenied]).hasPermission = true
    ∧ ((browsingAsked .none).under [browsingGranted, browsingDenied]).hasPermission = false
    ∧ ((browsingAsked .none).under
        [browsingDenied, browsingGranted, browsingDenied]).hasPermission = false
    ∧ ((browsingAsked .simple).under
        [{ browsingGranted with precedence := 0 }, browsingDenied]).hasPermission = true
    ∧ ((browsingAsked .simple).under
        (browsingGranted.usersFirst ++ [browsingDenied])).hasPermission = true := by
  obtain ⟨-, -, hprecedence, hwriting⟩ :=
    AccessCheck.hasPermission_of_items [browsingGranted, browsingDenied] (browsingAsked .simple)
  obtain ⟨-, horder, -, -⟩ :=
    AccessCheck.hasPermission_of_items [browsingGranted, browsingDenied] (browsingAsked .none)
  have hproven : ((browsingAsked .simple).under
      [browsingGranted, browsingDenied]).hasPermission = true := rfl
  have hunproven : ((browsingAsked .none).under
      [browsingGranted, browsingDenied]).hasPermission = false := rfl
  refine ⟨hproven, hunproven, ?_, ?_, ?_⟩
  · refine (horder _ fun item => ?_).trans hunproven
    simp only [List.mem_cons, List.not_mem_nil, or_false]
    grind
  · exact (hprecedence _ rfl).trans hproven
  · exact (hwriting [browsingGranted.usersFirst, [browsingDenied]]
      (.cons (Or.inr rfl) (.cons (Or.inl rfl) .nil))).trans hproven

end DirectoryAccess
