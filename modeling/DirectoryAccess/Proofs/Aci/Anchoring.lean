import DirectoryAccess.Proofs.Entry.Alike
import DirectoryAccess.Proofs.Name.Rebasing

/-! # Anchoring — a specification goes where its administrative point goes

    The base and the exclusions of a specification are relative names, and every name
    they are compared with is made by putting them in front of the administrative point.
    So its components stand at the end of both sides of every comparison and cancel out:
    what is selected is told from the part of a name below the point, whatever the point
    is called. -/

namespace DirectoryAccess

namespace SubtreeSpecification

-- ── Selecting by the part below the point ────────────────────────────────────────

/-- A selection with the test that the name is within the base in front. -/
theorem selects_eq (spec : SubtreeSpecification) (p d : Dn) (entry : Option Entry) :
    spec.selects p d entry
      = (d.isWithin (spec.base.concat p)
        && (spec.admitsDepth (d.depth - (spec.base.concat p).depth)
          && !spec.excludes (spec.base.concat p) d && spec.refines entry)) := by
  rw [selects, Dn.relativeTo?]
  cases hwithin : d.isWithin (spec.base.concat p) with
  | false => rfl
  | true =>
      have hdepth : (Dn.mk (d.rdns.take (d.depth - (spec.base.concat p).depth))).depth
          = d.depth - (spec.base.concat p).depth := by
        show (d.rdns.take _).length = _
        rw [List.length_take]
        exact Nat.min_eq_left (Nat.sub_le ..)
      simp only [if_true, hdepth, Bool.true_and]

variable {p d rel : Dn}

/-- Exclusions below a base in front of a point are told from the part below the point. -/
theorem excludes_concat (spec : SubtreeSpecification) (h : d.key = rel.key ++ p.key) (base : Dn) :
    spec.excludes (base.concat p) d = spec.excludes base rel := by
  simp only [excludes, ← Dn.concat_assoc, Dn.isWithin_concat h, Dn.isDescendantOf_concat h]

/-- What is selected below a point is told from the part below it, as if that were a name
    below the root. -/
theorem selects_of_relativeTo (spec : SubtreeSpecification) (h : d.relativeTo? p = some rel)
    (entry : Option Entry) : spec.selects p d entry = spec.selects Dn.root rel entry := by
  have hkey := Dn.key_of_relativeTo h
  rw [selects_eq, selects_eq, Dn.concat_root, Dn.isWithin_concat hkey, Dn.depth_below_concat hkey,
    excludes_concat spec hkey]

/-- Outside of a point nothing is selected below it. -/
theorem not_selects_of_outside (spec : SubtreeSpecification) (h : d.isWithin p = false)
    (entry : Option Entry) : spec.selects p d entry = false := by
  have hbase : d.isWithin (spec.base.concat p) = false := by
    rw [← Bool.not_eq_true, Dn.isWithin_iff] at h ⊢
    rw [Dn.key_concat]
    exact fun hsuffix => h ((List.suffix_append ..).trans hsuffix)
  rw [selects_eq, hbase]
  rfl

/-- A refinement does not ask what the entry is called. -/
theorem refines_withDn (spec : SubtreeSpecification) (entry : Option Entry) (name : Dn) :
    spec.refines (entry.map fun e => e.withDn name) = spec.refines entry := by
  cases entry with
  | none => rfl
  | some e =>
      have hclass : ∀ c, (e.withDn name).hasClass c = e.hasClass c := fun _ => rfl
      unfold refines
      cases spec.refinement with
      | none => rfl
      | some r => exact Refinement.isMetBy_congr hclass r

/-- **A SPECIFICATION GOES WITH ITS POINT**: exactly the names within an administrative point
    can be rebased from it to another one.  A name that can is selected below the one point
    exactly if the rebased name is selected below the other, for the same entry or without
    one; a name that can not is not selected.  Nor does it matter what the entry is called
    by then. -/
theorem selection_goes_with_point (spec : SubtreeSpecification) (p q d : Dn)
    (entry : Option Entry) :
    (d.rebase? p q).isSome = d.isWithin p
      ∧ spec.selects p d entry
        = ((d.rebase? p q).any fun moved => spec.selects q moved entry)
      ∧ ∀ name, spec.selects p d (entry.map fun e => e.withDn name) = spec.selects p d entry := by
  refine ⟨?_, ?_, fun name => ?_⟩
  · rw [Dn.rebase?, Option.isSome_map]
    cases h : d.relativeTo? p with
    | none => exact (Dn.relativeTo_eq_none.mp h).symm
    | some rel => exact (Dn.isWithin_of_relativeTo h).symm
  · rw [Dn.rebase?]
    cases h : d.relativeTo? p with
    | none => exact spec.not_selects_of_outside (Dn.relativeTo_eq_none.mp h) entry
    | some rel =>
        show spec.selects p d entry = spec.selects q (rel.concat q) entry
        rw [spec.selects_of_relativeTo h,
          spec.selects_of_relativeTo (Dn.relativeTo_concat rel q)]
  · rw [selects_eq, selects_eq, refines_withDn]

end SubtreeSpecification

end DirectoryAccess
