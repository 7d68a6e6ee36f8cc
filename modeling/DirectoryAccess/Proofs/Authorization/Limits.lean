import DirectoryAccess.Authorization.Tuples
import DirectoryAccess.Proofs.Aci.Decision
import DirectoryAccess.Proofs.Authorization.Modification
import DirectoryAccess.Proofs.Entry.Alike
import DirectoryAccess.Proofs.Text.Stability

/-! # Limits — how many values may be added, and how many entries

    A grant may come with a limit: it counts for an added value while the attribute
    has no more values than that, and for an added entry while there are fewer entries
    next to it.  If every grant to add is limited, nobody adds beyond the largest of
    the limits.  The number of values is looked at whenever a value appears, and in
    between it can only become smaller. -/

namespace DirectoryAccess

-- ── Names in lower case ──────────────────────────────────────────────────────────

/-- The name of the attribute that a modification is about is in lower case. -/
def Modification.IsLower (m : Modification) : Prop := Text.lowercase m.attr = m.attr

namespace Modification

/-- Of whatever name a modification is made, it is about the lower case of that. -/
theorem isLower_made (attr : String) (values : List String) :
    (adding attr values).IsLower ∧ (removing attr values).IsLower ∧ (purging attr).IsLower
      ∧ (replacing attr values).IsLower :=
  have hlower : Text.lowercase (Text.lowercase attr) = Text.lowercase attr :=
    Text.lowercase_lowercase attr
  ⟨hlower, hlower, hlower, hlower⟩

theorem IsLower.plain {m : Modification} (h : m.IsLower) : Text.Plain m.attr := by
  have hsmall := Text.lowercase_hasNoUpper m.attr
  rw [show Text.lowercase m.attr = m.attr from h] at hsmall
  exact (show Text.lowercase m.attr = m.attr from h).trans (Text.asciiLower_of_noUpper hsmall).symm

end Modification

/-- The number of values of an attribute is that of the values held under the name that it
    is read under. -/
theorem Entry.valueCount_eq (e : Entry) (attr : String) :
    e.valueCount attr = (e.valuesAt (Attribute.readAs attr)).size := by
  rw [valueCount, values?, Attributes.values?_eq, valuesAt, Attributes.valuesAt]
  cases e.attrs.get? (Attribute.readAs attr) <;> rfl

-- ── Limited grants ───────────────────────────────────────────────────────────────

namespace AciTuple

/-- The tuple grants to add something. -/
def GrantsAddition (t : AciTuple) : Prop :=
  t.grants = true ∧ t.operations.contains .add = true

/-- The tuple limits the values of an attribute to a number or fewer: a limit of its names
    the attribute as its values are read, but for the case of ASCII letters. -/
def LimitsValues (t : AciTuple) (attr : String) (n : Nat) : Prop :=
  ∃ limits, ProtectedItem.maxValueCount limits ∈ t.protectedItems
    ∧ ∃ l ∈ limits, Text.sameIgnoringAsciiCase l.attr (Attribute.readAs attr) = true
      ∧ l.max ≤ n

/-- The tuple limits the entries directly below a parent to a number or fewer. -/
def LimitsSubordinates (t : AciTuple) (n : Nat) : Prop :=
  ∃ max, ProtectedItem.maxImmSub max ∈ t.protectedItems ∧ max ≤ n

instance (t : AciTuple) : Decidable t.GrantsAddition := inferInstanceAs (Decidable (_ ∧ _))

instance (t : AciTuple) (n : Nat) : Decidable (t.LimitsSubordinates n) :=
  decidable_of_iff (t.protectedItems.any fun
      | .maxImmSub max => max ≤ n
      | _ => false) <| by
    rw [List.any_eq_true]
    constructor
    · rintro ⟨item, hitem, hmax⟩
      cases item with
      | maxImmSub max => exact ⟨max, hitem, of_decide_eq_true hmax⟩
      | _ => cases hmax
    · rintro ⟨max, hitem, hmax⟩
      exact ⟨.maxImmSub max, hitem, decide_eq_true hmax⟩

end AciTuple

namespace AccessCheck

variable {c : AccessCheck} {n : Nat}

/-- A grant to add that counts is one that grants additions, and its limits hold. -/
theorem applies_add {t : AciTuple} (h : c.applies .add t = true) :
    t.operations.contains .add = true ∧ c.maxValueCountHolds t .add = true
      ∧ c.maxImmSubHolds t .add = true := by
  have hcounts := applies_iff.mp h
  exact ⟨hcounts.operation, hcounts.maxValueCount, hcounts.maxImmSub⟩

/-- A value of an attribute is granted only while there are no more values than all grants
    to add allow. -/
theorem valueCount_le {attr value : String} (hops : c.operations = [.add])
    (htarget : c.target = .value (Attribute.readAs attr) value)
    (hlimited : ∀ t ∈ c.tuples, t.GrantsAddition → t.LimitsValues attr n)
    (h : c.hasPermission = true) : c.valueCount (Attribute.readAs attr) ≤ n := by
  obtain ⟨t, ht, hgrants, happlies⟩ := exists_grant hops h
  obtain ⟨hadds, hholds, -⟩ := applies_add happlies
  obtain ⟨limits, hlimits, l, hl, hname, hmax⟩ := hlimited t ht ⟨hgrants, hadds⟩
  simp only [maxValueCountHolds, htarget, hgrants, Bool.not_true, Bool.false_or,
    bne_self_eq_false, List.all_eq_true] at hholds
  have hheld := List.all_eq_true.mp (hholds _ hlimits) l (List.mem_filter.mpr ⟨hl, hname⟩)
  exact Nat.le_trans (of_decide_eq_true hheld) hmax

/-- An entry is granted only next to a known number of entries, fewer than all grants to
    add allow. -/
theorem immSubordinates_lt (hops : c.operations = [.add]) (htarget : c.target = .entry)
    (hlimited : ∀ t ∈ c.tuples, t.GrantsAddition → t.LimitsSubordinates n)
    (h : c.hasPermission = true) : ∃ count, c.immSubordinates = some count ∧ count < n := by
  obtain ⟨t, ht, hgrants, happlies⟩ := exists_grant hops h
  obtain ⟨hadds, -, hholds⟩ := applies_add happlies
  obtain ⟨max, hmax, hle⟩ := hlimited t ht ⟨hgrants, hadds⟩
  simp only [maxImmSubHolds, htarget, hgrants, Bool.not_true, Bool.false_or,
    bne_self_eq_false, List.all_eq_true] at hholds
  have hheld := hholds _ hmax
  cases hknown : c.immSubordinates with
  | none => simp [hknown] at hheld
  | some count =>
      have hlt : count < max := by simpa [hknown] using hheld
      exact ⟨count, rfl, Nat.lt_of_lt_of_le hlt hle⟩

end AccessCheck

-- ── Along a list of modifications ────────────────────────────────────────────────

/-- The second entry holds a value under an attribute that the first does not. -/
def Entry.Gains (before after : Entry) (attr : String) : Prop :=
  ∃ v, (after.valuesAt (Attribute.readAs attr)).contains v = true
    ∧ (before.valuesAt (Attribute.readAs attr)).contains v = false

/-- An entry that gains nothing has no more values. -/
theorem Entry.valueCount_le_of_not_gains {before after : Entry} {attr : String}
    (h : ¬before.Gains after attr) : after.valueCount attr ≤ before.valueCount attr := by
  rw [valueCount_eq, valueCount_eq]
  refine OrdSet.size_le_of_contains fun v hv => ?_
  rw [← Bool.not_eq_false]
  exact fun hno => h ⟨v, hv, hno⟩

/-- What is gained in two steps is gained in one of them. -/
theorem Entry.Gains.of_trans {before between after : Entry} {attr : String}
    (h : before.Gains after attr) : before.Gains between attr ∨ between.Gains after attr := by
  obtain ⟨v, hafter, hbefore⟩ := h
  cases hbetween : (between.valuesAt (Attribute.readAs attr)).contains v with
  | true => exact Or.inl ⟨v, hbetween, hbefore⟩
  | false => exact Or.inr ⟨v, hafter, hbetween⟩

section

variable {requester : Requester} {entry : Entry} {tuples : List AciTuple} {attr : String}
  {n : Nat}

/-- A modification that passes its check and adds a value leaves no more values than all
    grants to add allow. -/
theorem valueCount_le_of_gains
    (hlimited : ∀ t ∈ tuples, t.GrantsAddition → t.LimitsValues attr n)
    {view post : Entry} {m : Modification} (hm : m.IsLower) (h : view.Gains post attr)
    (hcheck : checkModification requester entry tuples view m = .ok post) :
    post.valueCount attr ≤ n := by
  obtain ⟨v, hafter, hbefore⟩ := h
  have hgranted := stepGranted_of_plain hm.plain hcheck (Attribute.readAs attr)
  have hcount := AccessCheck.valueCount_le rfl rfl hlimited (hgranted.added v hafter hbefore)
  refine Nat.le_trans (Nat.le_of_eq ?_) hcount
  show _ = post.valueCount (Attribute.readAs attr)
  rw [Entry.valueCount_eq, Entry.valueCount_eq, Attribute.readAs_readAs]

/-- Modifications that pass their checks, and by which a value is gained, leave no more values
    than all grants to add allow.  That is so of every projection on the way, since those
    that gain nothing do not count more. -/
theorem valueCount_le_of_modified
    (hlimited : ∀ t ∈ tuples, t.GrantsAddition → t.LimitsValues attr n)
    {mods : List Modification} (hmods : ∀ m ∈ mods, m.IsLower) {view final : Entry}
    (hview : entry.Gains view attr → view.valueCount attr ≤ n)
    (hcheck : checkModifications requester entry tuples view mods = .ok final)
    (hgains : entry.Gains final attr) : final.valueCount attr ≤ n := by
  induction mods generalizing view with
  | nil =>
      cases hcheck
      exact hview hgains
  | cons m rest ih =>
      obtain ⟨hm, hrest⟩ := List.forall_mem_cons.mp hmods
      obtain ⟨post, hfirst, hothers⟩ := checkModifications_cons_ok.mp hcheck
      refine ih hrest (fun hpost => ?_) hothers
      -- either this modification adds a value, and is checked, or it adds none
      by_cases hstep : view.Gains post attr
      · exact valueCount_le_of_gains hlimited hm hstep hfirst
      · have hbefore := hview (hpost.of_trans.resolve_right hstep)
        exact Nat.le_trans (Entry.valueCount_le_of_not_gains hstep) hbefore

-- ── In an entry that is added ────────────────────────────────────────────────────

/-- An addition asks about the values of a list as a modification does. -/
theorem requireOnValues_eq (check : AccessCheck) (attr : String) (vs : List String) :
    requireOnValues check attr vs = requireEach check attr vs := by
  induction vs with
  | nil => rfl
  | cons v rest ih => rw [requireOnValues, requireEach, ih]

/-- A question asked of every attribute of a list, and of its values, was answered for
    each. -/
theorem requireOnAttributes_ok {check : AccessCheck} {attrs : List (String × ValueSet)} :
    requireOnAttributes check attrs = .ok ()
      ↔ ∀ a ∈ attrs, (check.onAttribute a.1).hasPermission = true
        ∧ ∀ v ∈ a.2.toList, (check.onValue a.1 v).hasPermission = true := by
  induction attrs with
  | nil => simp [requireOnAttributes]
  | cons a rest ih =>
      have hcons : requireOnAttributes check (a :: rest)
          = (check.onAttribute a.1).require.bind fun _ =>
            (requireOnValues check a.1 a.2.toList).bind fun _ => requireOnAttributes check rest :=
        rfl
      rw [hcons, check_then_ok, check_then_ok, ih, requireOnValues_eq, requireEach_ok,
        AccessCheck.require_ok, List.forall_mem_cons, and_assoc]

/-- An addition that is granted is so on the entry itself, next to the entries counted, and
    on all that it holds. -/
theorem requireAddition_ok {count : Option Nat} :
    requireAddition requester entry tuples count = .ok ()
      ↔ ((AccessCheck.onEntry requester entry [.add] tuples).withImmSubordinates
          count).hasPermission = true
        ∧ requireOnAttributes (AccessCheck.onEntry requester entry [.add] tuples)
          entry.attrs.entries = .ok () := by
  have hparts : requireAddition requester entry tuples count
      = ((AccessCheck.onEntry requester entry [.add] tuples).withImmSubordinates
          count).require.bind fun _ =>
        requireOnAttributes (AccessCheck.onEntry requester entry [.add] tuples)
          entry.attrs.entries := rfl
  rw [hparts, check_then_ok, AccessCheck.require_ok]

/-- An entry that may be added holds no more values than all grants to add allow. -/
theorem valueCount_le_of_added
    (hlimited : ∀ t ∈ tuples, t.GrantsAddition → t.LimitsValues attr n) {count : Option Nat}
    (h : requireAddition requester entry tuples count = .ok ()) : entry.valueCount attr ≤ n := by
  have hheld := requireOnAttributes_ok.mp (requireAddition_ok.mp h).2
  rw [Entry.valueCount_eq, Entry.valuesAt, Attributes.valuesAt]
  cases hvalues : entry.attrs.get? (Attribute.readAs attr) with
  | none => exact Nat.zero_le n
  | some values =>
      cases hlist : values.toList with
      | nil =>
          show values.toList.length ≤ n
          rw [hlist]
          exact Nat.zero_le n
      | cons v rest =>
          have hmem := (entry.attrs.get?_eq_some_iff _ _).mp hvalues
          have hfirst : v ∈ values.toList := by
            rw [hlist]
            exact List.mem_cons_self ..
          have hcount := AccessCheck.valueCount_le rfl rfl hlimited ((hheld _ hmem).2 v hfirst)
          refine Nat.le_trans (Nat.le_of_eq ?_) hcount
          show _ = entry.valueCount (Attribute.readAs attr)
          rw [Entry.valueCount_eq, Attribute.readAs_readAs, Entry.valuesAt,
            Attributes.valuesAt, hvalues]

end

end DirectoryAccess
