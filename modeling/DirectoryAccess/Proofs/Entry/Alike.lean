import DirectoryAccess.Aci.Subtree
import DirectoryAccess.Proofs.Entry.Attributes

/-! # Entries that differ in one attribute — what does not tell them apart

    Two entries are ALIKE BUT for an attribute if they have the same name and hold the
    same under every other one.  Whatever reads other attributes sees no difference,
    a modification of whatever attribute leaves none that was not there, and copies
    without the attribute are one copy. -/

namespace DirectoryAccess

/-- The name that an attribute is read under: its lower case if an ASCII capital stands
    in it. -/
def Attribute.readAs (attr : String) : String :=
  if Text.hasAsciiUpper attr then Text.lowercase attr else attr

/-- A name in lower case is read as it is. -/
theorem Attribute.readAs_lowercase (attr : String) :
    readAs (Text.lowercase attr) = Text.lowercase attr := by
  rw [readAs, Text.lowercase_hasNoUpper]
  rfl

/-- What a name is read as is read as it is. -/
theorem Attribute.readAs_readAs (attr : String) : readAs (readAs attr) = readAs attr := by
  cases h : Text.hasAsciiUpper attr with
  | true =>
      have hread : readAs attr = Text.lowercase attr := if_pos h
      rw [hread, readAs_lowercase]
  | false =>
      have hread : readAs attr = attr := if_neg (ne_true_of_eq_false h)
      rw [hread, hread]

-- ── One attribute at a time ──────────────────────────────────────────────────────

namespace Attributes

variable {attrs attrs' : Attributes}

/-- An attribute that is read under another name is the same in both. -/
theorem values?_eq (attrs : Attributes) (attr : String) :
    attrs.values? attr = attrs.get? (Attribute.readAs attr) := by
  rw [values?, Attribute.readAs]
  split <;> rfl

/-- Putting the same under an attribute leaves others as alike as they were. -/
theorem get?_put_congr (attr : String) (vs : ValueSet) {b : String}
    (h : attrs.get? b = attrs'.get? b) :
    (attrs.put attr vs).get? b = (attrs'.put attr vs).get? b := by
  rw [put, put]
  split
  · rw [OrdMap.get?_erase, OrdMap.get?_erase, h]
  · rw [OrdMap.get?_insert, OrdMap.get?_insert, h]

/-- What removing a value does to an attribute is decided by what the attribute holds. -/
theorem removeValue_congr (attr value : String) (h : attrs.get? attr = attrs'.get? attr) :
    (attrs.removeValue attr value).2 = (attrs'.removeValue attr value).2
      ∧ (attrs.removeValue attr value).1.get? attr
        = (attrs'.removeValue attr value).1.get? attr := by
  rw [removeValue, removeValue, ← h]
  cases hvs : attrs.get? attr with
  | none => exact ⟨rfl, h⟩
  | some vs => exact ⟨rfl, get?_put_congr attr _ h⟩

/-- Taking away the same values leaves an attribute that was the same. -/
theorem get?_foldl_removeValue_congr (attr : String) (values : List String)
    (h : attrs.get? attr = attrs'.get? attr) :
    (values.foldl (fun as v => (as.removeValue attr v).1) attrs).get? attr
      = (values.foldl (fun as v => (as.removeValue attr v).1) attrs').get? attr := by
  induction values generalizing attrs attrs' with
  | nil => exact h
  | cons v rest ih =>
      rw [List.foldl_cons, List.foldl_cons]
      exact ih (removeValue_congr attr v h).2

/-- What a modification leaves of an attribute is decided by what the attribute holds. -/
theorem get?_project_congr (m : Modification) {b : String} (h : attrs.get? b = attrs'.get? b) :
    (attrs.project m).get? b = (attrs'.project m).get? b := by
  by_cases hb : b = Text.lowercase m.attr
  · subst hb
    cases m with
    | add attr vs =>
        show (attrs.addValues (Text.lowercase attr) vs).get? (Text.lowercase attr)
          = (attrs'.addValues (Text.lowercase attr) vs).get? (Text.lowercase attr)
        have h : attrs.get? (Text.lowercase attr) = attrs'.get? (Text.lowercase attr) := h
        rw [addValues, addValues, ← h]
        exact get?_put_congr _ _ h
    | remove attr vs =>
        cases vs with
        | nil =>
            show (attrs.erase (Text.lowercase attr)).get? (Text.lowercase attr)
              = (attrs'.erase (Text.lowercase attr)).get? (Text.lowercase attr)
            rw [OrdMap.get?_erase_self, OrdMap.get?_erase_self]
        | cons v rest => exact get?_foldl_removeValue_congr _ (v :: rest) h
    | replace attr vs => exact get?_put_congr _ _ h
  · rw [get?_project_of_ne attrs m hb, get?_project_of_ne attrs' m hb, h]

/-- Values are found to be taken away, or missed, alike. -/
theorem removeEach_congr (attr : String) (values : List String)
    (h : attrs.get? attr = attrs'.get? attr) :
    (removeEach attr values attrs).2 = (removeEach attr values attrs').2 := by
  induction values generalizing attrs attrs' with
  | nil => rfl
  | cons v rest ih =>
      obtain ⟨hthere, hleft⟩ := removeValue_congr attr v h
      rw [removeEach, removeEach]
      revert hthere hleft
      rcases attrs.removeValue attr v with ⟨kept, there⟩
      rcases attrs'.removeValue attr v with ⟨kept', there'⟩
      rintro rfl hleft
      cases there with
      | true => exact ih hleft
      | false => rfl

/-- Whether storage refuses a modification is decided by what its attribute holds. -/
theorem modify_congr (m : Modification)
    (h : attrs.get? (Text.lowercase m.attr) = attrs'.get? (Text.lowercase m.attr)) :
    (attrs.modify m).2 = (attrs'.modify m).2 := by
  cases m with
  | add attr vs => cases vs <;> rfl
  | remove attr vs =>
      cases vs with
      | nil =>
          have hcontains : attrs.contains (Text.lowercase attr)
              = attrs'.contains (Text.lowercase attr) := congrArg Option.isSome h
          rw [modify, modify, Modification.attr, hcontains]
          split <;> rfl
      | cons v rest => exact removeEach_congr _ (v :: rest) h
  | replace attr vs => rfl

/-- Copies of what a test allows are the same where all that it allows is. -/
theorem reduce_congr {allow : String → Option String → Bool}
    (h : ∀ b, allow b none = true → attrs.get? b = attrs'.get? b) :
    attrs.reduce allow = attrs'.reduce allow := by
  refine OrdMap.eq_of_get? fun b => ?_
  rw [reduce, reduce, OrdMap.get?_filterMap, OrdMap.get?_filterMap]
  cases hallow : allow b none with
  | true => rw [h b hallow]
  | false =>
      cases attrs.get? b <;> cases attrs'.get? b <;> rfl

end Attributes

-- ── Entries ──────────────────────────────────────────────────────────────────────

namespace Entry

/-- Two entries that have the same name and hold the same under every name but this
    one. -/
structure AlikeBut (a : String) (e e' : Entry) : Prop where
  dn_eq : e.dn = e'.dn
  get?_eq : ∀ b, b ≠ a → e.attrs.get? b = e'.attrs.get? b

namespace AlikeBut

variable {a : String} {e e' : Entry}

theorem refl (a : String) (e : Entry) : AlikeBut a e e := ⟨rfl, fun _ _ => rfl⟩

theorem symm (h : AlikeBut a e e') : AlikeBut a e' e :=
  ⟨h.dn_eq.symm, fun b hb => (h.get?_eq b hb).symm⟩

section

variable (h : AlikeBut a e e') {attr : String} (hattr : Attribute.readAs attr ≠ a)

include h hattr

theorem values?_eq : e.values? attr = e'.values? attr := by
  rw [values?, values?, Attributes.values?_eq, Attributes.values?_eq, h.get?_eq _ hattr]

theorem has_eq : e.has attr = e'.has attr := by
  rw [has, has, h.values?_eq hattr]

theorem valueCount_eq : e.valueCount attr = e'.valueCount attr := by
  rw [valueCount, valueCount, h.values?_eq hattr]

theorem holds_eq (value : String) : e.holds attr value = e'.holds attr value :=
  holds_congr (h.values?_eq hattr) value

end

/-- Entries that are alike stay alike under another name. -/
theorem withDn (h : AlikeBut a e e') (dn : Dn) : AlikeBut a (e.withDn dn) (e'.withDn dn) :=
  ⟨rfl, h.get?_eq⟩

/-- A modification of whatever attribute leaves no difference that was not there. -/
theorem project (h : AlikeBut a e e') (m : Modification) :
    AlikeBut a (e.project m) (e'.project m) :=
  ⟨h.dn_eq, fun b hb => Attributes.get?_project_congr m (h.get?_eq b hb)⟩

/-- Modifications leave entries that are alike alike. -/
theorem foldl_project (h : AlikeBut a e e') (mods : List Modification) :
    AlikeBut a (mods.foldl Entry.project e) (mods.foldl Entry.project e') := by
  induction mods generalizing e e' with
  | nil => exact h
  | cons m rest ih =>
      rw [List.foldl_cons, List.foldl_cons]
      exact ih (h.project m)

theorem addAva (h : AlikeBut a e e') (attr value : String) :
    AlikeBut a (e.addAva attr value) (e'.addAva attr value) :=
  h.project (.add attr [value])

theorem removeAva (h : AlikeBut a e e') (attr value : String) :
    AlikeBut a (e.removeAva attr value) (e'.removeAva attr value) :=
  h.project (.remove attr [value])

/-- Modifications of the attribute make a difference in nothing else. -/
theorem of_project {mods : List Modification} (hmods : ∀ m ∈ mods, Text.lowercase m.attr = a)
    (e : Entry) : AlikeBut a e (mods.foldl Entry.project e) := by
  refine ⟨(foldl_project_dn e mods).symm, fun b hb => ?_⟩
  induction mods generalizing e with
  | nil => rfl
  | cons m rest ih =>
      obtain ⟨hm, hrest⟩ := List.forall_mem_cons.mp hmods
      rw [List.foldl_cons, ← ih hrest]
      exact (Attributes.get?_project_of_ne e.attrs m (hm ▸ hb)).symm

/-- Copies without the attribute are one copy. -/
theorem reduce_eq (h : AlikeBut a e e') {allow : String → Option String → Bool}
    (hallow : allow a none = false) : e.reduce allow = e'.reduce allow := by
  have hattrs : e.attrs.reduce allow = e'.attrs.reduce allow := by
    refine Attributes.reduce_congr fun b hb => h.get?_eq b ?_
    rintro rfl
    rw [hallow] at hb
    cases hb
  rw [reduce, reduce, h.dn_eq, hattrs]

end AlikeBut

end Entry

-- ── Refinements ──────────────────────────────────────────────────────────────────

namespace Refinement

variable {e e' : Entry}

mutual

/-- A refinement sees nothing of an entry but its object classes. -/
theorem isMetBy_congr (h : ∀ name, e.hasClass name = e'.hasClass name) :
    ∀ r : Refinement, isMetBy e r = isMetBy e' r
  | item name => h name
  | conjunction rs => allMetBy_congr h rs
  | disjunction rs => someMetBy_congr h rs
  | negation r => congrArg (!·) (isMetBy_congr h r)

/-- All refinements of a list are met alike. -/
theorem allMetBy_congr (h : ∀ name, e.hasClass name = e'.hasClass name) :
    ∀ rs : List Refinement, allMetBy e rs = allMetBy e' rs
  | [] => rfl
  | r :: rs => by rw [allMetBy, allMetBy, isMetBy_congr h r, allMetBy_congr h rs]

theorem someMetBy_congr (h : ∀ name, e.hasClass name = e'.hasClass name) :
    ∀ rs : List Refinement, someMetBy e rs = someMetBy e' rs
  | [] => rfl
  | r :: rs => by rw [someMetBy, someMetBy, isMetBy_congr h r, someMetBy_congr h rs]

end

end Refinement

end DirectoryAccess
