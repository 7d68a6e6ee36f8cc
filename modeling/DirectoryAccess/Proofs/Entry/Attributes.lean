import DirectoryAccess.Entry.Basic
import DirectoryAccess.Proofs.Ordered.Set
import DirectoryAccess.Proofs.Text.Case

/-! # Attributes — what a modification leaves

    A modification is about the lower case of the name it carries and leaves every
    other attribute as it is.  What is held under a name is told by `valuesAt`,
    which is empty where nothing is held. -/

namespace DirectoryAccess

namespace OrdSet

universe u

variable {α : Type u} [Ord α]

theorem eq_empty_of_isEmpty {s : OrdSet α} (h : s.isEmpty = true) : s = empty :=
  ext (List.isEmpty_iff.mp h)

end OrdSet

namespace Attributes

/-- The values held under exactly this name. -/
def valuesAt (attrs : Attributes) (attr : String) : ValueSet :=
  (attrs.get? attr).getD OrdSet.empty

theorem compare_ne_eq {a b : String} (h : a ≠ b) : compare a b ≠ .eq := by
  intro he
  exact h (Std.LawfulEqCmp.eq_of_compare he)

-- ── Reading ──────────────────────────────────────────────────────────────────────

/-- A name with capitals is read in lower case. -/
theorem values?_of_upper (attrs : Attributes) {attr : String}
    (h : Text.hasAsciiUpper attr = true) :
    attrs.values? attr = attrs.get? (Text.lowercase attr) := by
  rw [values?, if_pos h]

/-- A name without capitals is read as it is. -/
theorem values?_of_noUpper (attrs : Attributes) {attr : String}
    (h : Text.hasAsciiUpper attr = false) : attrs.values? attr = attrs.get? attr := by
  rw [values?, h]
  rfl

theorem values?_of_own (attrs : Attributes) {attr : String}
    (h : attr.toList.all Text.isOwnLetter = true) : attrs.values? attr = attrs.get? attr :=
  values?_of_noUpper attrs (Text.hasNoUpper_of_own h)

/-- A plain name is read under its lower case. -/
theorem values?_of_plain (attrs : Attributes) {attr : String} (h : Text.Plain attr) :
    attrs.values? attr = attrs.get? (Text.lowercase attr) := by
  cases hu : Text.hasAsciiUpper attr with
  | true => exact values?_of_upper attrs hu
  | false => rw [values?_of_noUpper attrs hu, h.lowercase_of_noUpper hu]

-- ── Putting values under a name ──────────────────────────────────────────────────

/-- What is put under an attribute is what it holds. -/
theorem valuesAt_put_self (attrs : Attributes) (attr : String) (vs : ValueSet) :
    (attrs.put attr vs).valuesAt attr = vs := by
  rw [put]
  split
  · next h =>
    rw [valuesAt, OrdMap.get?_erase_self, OrdSet.eq_empty_of_isEmpty h]
    rfl
  · rw [valuesAt, OrdMap.get?_insert_self]
    rfl

/-- What is put under another attribute does not matter. -/
theorem get?_put_of_ne (attrs : Attributes) {attr a : String} (vs : ValueSet)
    (h : a ≠ attr) : (attrs.put attr vs).get? a = attrs.get? a := by
  rw [put]
  split
  · rw [OrdMap.get?_erase, if_neg (compare_ne_eq (Ne.symm h))]
  · rw [OrdMap.get?_insert, if_neg (compare_ne_eq h)]

/-- What is removed from another attribute does not matter. -/
theorem get?_removeValue_of_ne (attrs : Attributes) {attr a : String} (value : String)
    (h : a ≠ attr) : (attrs.removeValue attr value).1.get? a = attrs.get? a := by
  rw [removeValue]
  split
  · rfl
  · exact get?_put_of_ne attrs _ h

/-- However many values are removed from another attribute, it does not matter. -/
theorem get?_foldl_removeValue_of_ne (attrs : Attributes) {attr a : String}
    (values : List String) (h : a ≠ attr) :
    (values.foldl (fun as v => (as.removeValue attr v).1) attrs).get? a
      = attrs.get? a := by
  induction values generalizing attrs with
  | nil => rfl
  | cons v rest ih =>
      rw [List.foldl_cons, ih, get?_removeValue_of_ne attrs v h]

-- ── Modifications ────────────────────────────────────────────────────────────────

/-- A modification changes nothing but the attribute it is about. -/
theorem get?_project_of_ne (attrs : Attributes) (m : Modification) {a : String}
    (h : a ≠ Text.lowercase m.attr) : (attrs.project m).get? a = attrs.get? a := by
  cases m with
  | add attr vs => exact get?_put_of_ne attrs _ h
  | remove attr vs =>
      cases vs with
      | nil =>
          show (attrs.erase (Text.lowercase attr)).get? a = _
          exact (OrdMap.get?_erase ..).trans (if_neg (compare_ne_eq (Ne.symm h)))
      | cons v rest => exact get?_foldl_removeValue_of_ne attrs (v :: rest) h
  | replace attr vs => exact get?_put_of_ne attrs _ h

/-- Removing values one after the other, where none is refused, is removing them
    all. -/
theorem removeEach_ok {attr : String} {values : List String} {attrs : Attributes}
    (h : (removeEach attr values attrs).2 = .ok ()) :
    (removeEach attr values attrs).1
      = values.foldl (fun as v => (as.removeValue attr v).1) attrs := by
  induction values generalizing attrs with
  | nil => rfl
  | cons v rest ih =>
      rw [List.foldl_cons]
      rw [removeEach] at h ⊢
      split at h
      · next kept hkept =>
        rw [hkept]
        exact ih h
      · cases h

/-- A modification that storage does not refuse leaves what its projection says. -/
theorem modify_ok {attrs : Attributes} {m : Modification}
    (h : (attrs.modify m).2 = .ok ()) : (attrs.modify m).1 = attrs.project m := by
  cases m with
  | add attr vs =>
      cases vs with
      | nil => cases h
      | cons v rest => rfl
  | remove attr vs =>
      cases vs with
      | nil =>
          simp only [modify, project] at h ⊢
          split at h
          · next hc => rw [if_pos hc]
          · cases h
      | cons v rest => exact removeEach_ok h
  | replace attr vs => rfl

end Attributes

namespace Entry

/-- Which values an entry holds under a name is decided by the values held there. -/
theorem holds_congr {e e' : Entry} {attr : String} (h : e.values? attr = e'.values? attr)
    (value : String) : e.holds attr value = e'.holds attr value := by
  have hvalues : e.attrs.values? attr = e'.attrs.values? attr := h
  rw [holds, holds, Attributes.holds, Attributes.holds, hvalues]

/-- A modification that storage does not refuse leaves what its projection says. -/
theorem modify_ok {e e' : Entry} {m : Modification} (h : e.modify m = (e', .ok ())) :
    e' = e.project m := by
  have h1 : { e with attrs := (e.attrs.modify m).1 } = e' := congrArg Prod.fst h
  have h2 : (e.attrs.modify m).2 = .ok () := congrArg Prod.snd h
  rw [← h1, Attributes.modify_ok h2]
  rfl

/-- What storage makes of a list of modifications is the last of their
    projections. -/
theorem modifyAll_ok {e stored : Entry} {mods : List Modification}
    (h : e.modifyAll mods = .ok stored) : stored = mods.foldl project e := by
  induction mods generalizing e with
  | nil => exact (Except.ok.inj h).symm
  | cons m rest ih =>
      rw [modifyAll] at h
      split at h
      · next e' hm =>
        rw [List.foldl_cons, ← modify_ok hm]
        exact ih h
      · cases h

/-- A modification of the attribute that a name is lowered to is about that attribute, if
    nothing above ASCII is lowered to it. -/
theorem isAbout_of_lowercase {m : Modification} {a : String}
    (ha : a.toList.all Text.isOwnLetter = true) (h : Text.lowercase m.attr = a) :
    m.isAbout a = true := by
  rw [← h] at ha ⊢
  exact (Text.sameIgnoringAsciiCase_lowercase m.attr).mpr (Text.plain_of_own ha)

/-- Modifications that do not touch an attribute leave it as it is, if nothing above ASCII
    is lowered to its name. -/
theorem values?_foldl_project {a : String} (ha : a.toList.all Text.isOwnLetter = true)
    {mods : List Modification} (h : touches mods a = false) (e : Entry) :
    (mods.foldl project e).values? a = e.values? a := by
  induction mods generalizing e with
  | nil => rfl
  | cons m rest ih =>
      rw [touches, List.any_cons, Bool.or_eq_false_iff] at h
      have hother : a ≠ Text.lowercase m.attr := by
        intro hsame
        rw [isAbout_of_lowercase ha hsame.symm] at h
        cases h.1
      rw [List.foldl_cons, ih h.2]
      show (e.attrs.project m).values? a = e.attrs.values? a
      rw [Attributes.values?_of_own _ ha, Attributes.values?_of_own _ ha,
        Attributes.get?_project_of_ne _ m hother]

/-- Modifications leave the name of an entry as it is. -/
theorem foldl_project_dn (e : Entry) (mods : List Modification) :
    (mods.foldl project e).dn = e.dn := by
  induction mods generalizing e with
  | nil => rfl
  | cons m rest ih =>
      rw [List.foldl_cons, ih]
      rfl

end Entry

end DirectoryAccess
