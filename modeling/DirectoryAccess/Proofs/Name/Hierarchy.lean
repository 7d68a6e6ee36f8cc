import DirectoryAccess.Filter
import DirectoryAccess.Proofs.Name.Key
import Mathlib.Data.List.Forall2
import Mathlib.Logic.Relation

/-! # Hierarchy — one tree, by texts and by components

    Names are equal if their texts are, and one is within another if its components
    end in the other's.  Both speak of the same components, and going up takes away
    one at a time: a name is within exactly those that are reached by going up, a
    descendant of all of them but itself, and one level below the first. -/

namespace DirectoryAccess

namespace Dn

-- ── Component by component ───────────────────────────────────────────────────────

/-- Names have the same key if they have as many components and these are compared equal
    one by one. -/
theorem key_eq_iff_pairwise (a b : Dn) :
    a.key = b.key ↔ a.depth = b.depth
      ∧ ∀ r s, (r, s) ∈ a.rdns.zip b.rdns → r.attr = s.attr ∧ r.normValue = s.normValue := by
  have hforall : a.key = b.key ↔ List.Forall₂ (fun r s : Rdn => r.key = s.key) a.rdns b.rdns := by
    rw [key, key, ← List.forall₂_eq_eq_eq, List.forall₂_map_left_iff, List.forall₂_map_right_iff]
  rw [hforall, List.forall₂_iff_zip]
  simp only [Rdn.key, Prod.mk.injEq]
  rfl

-- ── Going up ─────────────────────────────────────────────────────────────────────

/-- A name and those that are reached from it by going up, one component at a time. -/
def Reaches : Dn → Dn → Prop := Relation.ReflTransGen fun d p => d.parent? = some p

/-- The names that are reached by going up are those whose components end the name's. -/
theorem reaches_iff {d p : Dn} : d.Reaches p ↔ p.rdns <:+ d.rdns := by
  constructor
  · intro h
    induction h with
    | refl => exact List.suffix_rfl
    | tail _ hparent ih =>
        obtain ⟨r, rfl⟩ := eq_child_of_parent hparent
        exact (List.suffix_cons r _).trans ih
  · rintro ⟨front, h⟩
    obtain ⟨rdns⟩ := d
    subst h
    induction front with
    | nil => exact .refl
    | cons r rest ih => exact .head rfl ih

/-- What ends the key of a name is the key of a name that is reached from it. -/
theorem suffix_key_iff {d : Dn} {k : List (String × String)} :
    k <:+ d.key ↔ ∃ p, d.Reaches p ∧ p.key = k := by
  constructor
  · rintro ⟨upper, hupper⟩
    obtain ⟨front, back, hd, -, hback⟩ := List.map_eq_append_iff.mp hupper.symm
    exact ⟨⟨back⟩, reaches_iff.mpr ⟨front, hd.symm⟩, hback⟩
  · rintro ⟨p, hp, rfl⟩
    exact (reaches_iff.mp hp).map Rdn.key

/-- A name is within those that equal a name reached from it. -/
theorem isWithin_iff_reaches (a b : Dn) :
    a.isWithin b = true ↔ ∃ p, a.Reaches p ∧ b.same p = true := by
  rw [isWithin_iff, suffix_key_iff]
  exact exists_congr fun p => and_congr_right' ((same_iff b p).trans eq_comm).symm

/-- A name is a descendant of what it is within and not equal to. -/
theorem isDescendantOf_iff_isWithin (a b : Dn) :
    a.isDescendantOf b = true ↔ a.isWithin b = true ∧ a.same b = false := by
  rw [isDescendantOf_iff, isWithin_iff, ← Bool.not_eq_true, same_iff, ne_comm]

/-- The children of a name are its descendants one component deeper. -/
theorem isChildOf_iff_depth (a b : Dn) :
    a.isChildOf b = true ↔ a.isDescendantOf b = true ∧ a.depth = b.depth + 1 := by
  rw [isChildOf_iff, isDescendantOf_iff, ← length_key, ← length_key]
  constructor
  · rintro ⟨c, h⟩
    rw [h]
    exact ⟨⟨List.suffix_cons .., (List.cons_ne_self c b.key).symm⟩, rfl⟩
  · rintro ⟨⟨⟨front, h⟩, -⟩, hlength⟩
    rw [← h, List.length_append, Nat.add_comm, Nat.add_left_cancel_iff] at hlength
    obtain ⟨c, rfl⟩ := List.length_eq_one_iff.mp hlength
    exact ⟨c, h.symm⟩

/-- **EQUALITY AND HIERARCHY AGREE**: names whose texts are equal are those with as many
    components, equal one by one; a name is within exactly those that equal it or a name
    reached from it by going up; it is a descendant of those that it is within and not equal
    to; and a search one level deep selects the descendants one component deeper. -/
theorem equality_and_hierarchy_agree (a b : Dn) :
    (a.same b = true ↔ a.depth = b.depth
        ∧ ∀ r s, (r, s) ∈ a.rdns.zip b.rdns → r.attr = s.attr ∧ r.normValue = s.normValue)
      ∧ (a.isWithin b = true ↔ ∃ p, a.Reaches p ∧ b.same p = true)
      ∧ (a.isDescendantOf b = true ↔ a.isWithin b = true ∧ a.same b = false)
      ∧ (SearchScope.selects b a .oneLevel = true
        ↔ a.isDescendantOf b = true ∧ a.depth = b.depth + 1) :=
  ⟨(same_iff a b).trans (key_eq_iff_pairwise a b), isWithin_iff_reaches a b,
    isDescendantOf_iff_isWithin a b, isChildOf_iff_depth a b⟩

/-- A value that spells out a second component is still one component. -/
example : (⟨[⟨"st", "p,st=q", by decide, by decide, by decide, by decide⟩]⟩ : Dn).same
    ⟨[⟨"st", "p", by decide, by decide, by decide, by decide⟩,
      ⟨"st", "q", by decide, by decide, by decide, by decide⟩]⟩ = false := rfl

end Dn

end DirectoryAccess
