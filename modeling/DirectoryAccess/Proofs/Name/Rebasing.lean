import DirectoryAccess.Proofs.Name.Key

/-! # Rebasing — a subtree under another base

    A name within a base is the part below the base in front of the base.  Rebasing
    keeps that part, as it is written, and puts it in front of another base.  So rebasing
    twice is rebasing once, and rebasing back gives the name again, but for the spelling
    of the base.  What names within a base are to each other is told from the parts below
    it, and they stay that to each other wherever the base is moved. -/

namespace DirectoryAccess

namespace Dn

-- ── Names in front of a base ─────────────────────────────────────────────────────

theorem key_concat (d base : Dn) : (d.concat base).key = d.key ++ base.key := List.map_append

theorem depth_concat (d base : Dn) : (d.concat base).depth = d.depth + base.depth :=
  List.length_append

theorem concat_assoc (a b c : Dn) : (a.concat b).concat c = a.concat (b.concat c) :=
  congrArg mk (List.append_assoc ..)

theorem concat_root (d : Dn) : d.concat root = d := congrArg mk (List.append_nil _)

/-- A name that is not within a base has no part below it. -/
theorem relativeTo_eq_none {d p : Dn} : d.relativeTo? p = none ↔ d.isWithin p = false := by
  rw [relativeTo?]
  cases d.isWithin p with
  | true => simp
  | false => simp

theorem isWithin_of_relativeTo {d p rel : Dn} (h : d.relativeTo? p = some rel) :
    d.isWithin p = true := by
  rw [← Bool.not_eq_false, ← relativeTo_eq_none, h]
  exact Option.some_ne_none rel

/-- A name is the part below a base in front of the base, in some spelling. -/
theorem key_of_relativeTo {d p rel : Dn} (h : d.relativeTo? p = some rel) :
    d.key = rel.key ++ p.key := by
  obtain ⟨front, hfront⟩ := (isWithin_iff d p).mp (isWithin_of_relativeTo h)
  obtain ⟨r, hr, hkey⟩ := rebase_of_within hfront.symm root
  rw [rebase?, h] at hr
  have hrel : rel = r := (concat_root rel).symm.trans (Option.some.inj hr)
  rw [hrel, hkey, ← hfront]
  exact congrArg (· ++ p.key) (List.append_nil front).symm

/-- What is put in front of a base is the part below it. -/
theorem relativeTo_concat (rel p : Dn) : (rel.concat p).relativeTo? p = some rel := by
  have hwithin : (rel.concat p).isWithin p = true :=
    (isWithin_iff _ _).mpr ⟨rel.key, (key_concat rel p).symm⟩
  have hlength : (rel.concat p).depth - p.depth = rel.rdns.length := by
    rw [depth_concat, Nat.add_sub_cancel]
    rfl
  rw [relativeTo?, if_pos hwithin, hlength]
  show some (mk ((rel.rdns ++ p.rdns).take rel.rdns.length)) = some rel
  rw [List.take_left]

section

variable {d p rel : Dn} (h : d.key = rel.key ++ p.key)

include h

/-- Whether a name is within one in front of a base is told from the part below it. -/
theorem isWithin_concat (x : Dn) : d.isWithin (x.concat p) = rel.isWithin x := by
  rw [Bool.eq_iff_iff, isWithin_iff, isWithin_iff, key_concat, h, List.suffix_append_self_iff]

/-- The same of being strictly below one. -/
theorem isDescendantOf_concat (x : Dn) : d.isDescendantOf (x.concat p) = rel.isDescendantOf x := by
  rw [Bool.eq_iff_iff, isDescendantOf_iff, isDescendantOf_iff, key_concat, h,
    List.suffix_append_self_iff, ne_eq, ne_eq, List.append_left_inj]

/-- The same of how far below one a name is. -/
theorem depth_below_concat (x : Dn) : d.depth - (x.concat p).depth = rel.depth - x.depth := by
  have hdepth : d.depth = rel.depth + p.depth := by
    rw [← length_key, ← length_key, ← length_key, h, List.length_append]
  rw [hdepth, depth_concat, Nat.add_sub_add_right]

end

-- ── Names within one base ────────────────────────────────────────────────────────

section

variable {x y base relx rely : Dn} (hx : x.relativeTo? base = some relx)

include hx

theorem depth_of_relativeTo : x.depth = relx.depth + base.depth := by
  rw [← length_key, ← length_key, ← length_key, key_of_relativeTo hx, List.length_append]

variable (hy : y.relativeTo? base = some rely)

include hy

/-- Whether a name within a base is within another one is told from the parts below it. -/
theorem isWithin_relative : x.isWithin y = relx.isWithin rely := by
  rw [Bool.eq_iff_iff, isWithin_iff, isWithin_iff, key_of_relativeTo hx, key_of_relativeTo hy,
    List.suffix_append_self_iff]

/-- Whether names within a base are the same is told from the parts below it. -/
theorem same_relative : x.same y = relx.same rely := by
  rw [Bool.eq_iff_iff, same_iff, same_iff, key_of_relativeTo hx, key_of_relativeTo hy,
    List.append_left_inj]

end

-- ── Other bases ──────────────────────────────────────────────────────────────────

/-- A name is rebased if it has a part below the old base, and that part is put in front of
    the new one. -/
theorem rebase_eq_some_iff {x old new r : Dn} :
    x.rebase? old new = some r ↔ ∃ rel, x.relativeTo? old = some rel ∧ rel.concat new = r :=
  Option.map_eq_some_iff

/-- The part below the base is what it was. -/
theorem relativeTo_of_rebase {x old new r : Dn} (h : x.rebase? old new = some r) :
    r.relativeTo? new = x.relativeTo? old := by
  obtain ⟨rel, hrel, rfl⟩ := rebase_eq_some_iff.mp h
  rw [relativeTo_concat, hrel]

/-- Rebasing from the base that a name has been rebased to is rebasing from the first one. -/
theorem rebase_rebase {x old mid r : Dn} (h : x.rebase? old mid = some r) (new : Dn) :
    r.rebase? mid new = x.rebase? old new := by
  rw [rebase?, rebase?, relativeTo_of_rebase h]

/-- A name is rebased from a base to the same base as a spelling of itself. -/
theorem exists_rebase_same {x base : Dn} (h : x.isWithin base = true) :
    ∃ r, x.rebase? base base = some r ∧ r.same x = true := by
  obtain ⟨rel, hrel⟩ := (isWithin_iff x base).mp h
  obtain ⟨r, hr, hkey⟩ := rebase_of_within hrel.symm base
  exact ⟨r, hr, (same_iff r x).mpr (hkey.trans hrel)⟩

/-- **REBASING IS REVERSIBLE**: exactly the names within the old base are rebased.  A rebased
    name is within the new base, as far below it as the name is below the old one, and
    rebasing it from the new base to the old one gives the name again.  Of two names that
    are rebased the one is within the other, and they are the same, exactly if that is so
    of the rebased names. -/
theorem rebasing_reversible (x y old new : Dn) :
    ((x.rebase? old new).isSome = true ↔ x.isWithin old = true)
      ∧ (∀ x', x.rebase? old new = some x' →
        x'.isWithin new = true
          ∧ (x'.depth : Int) = x.depth - old.depth + new.depth
          ∧ ∃ back, x'.rebase? new old = some back ∧ back.same x = true)
      ∧ ∀ x' y', x.rebase? old new = some x' → y.rebase? old new = some y' →
        (x'.isWithin y' = true ↔ x.isWithin y = true)
          ∧ (x'.same y' = true ↔ x.same y = true) := by
  refine ⟨?_, ?_, ?_⟩
  · rw [rebase?, Option.isSome_map, ← Option.ne_none_iff_isSome, ne_eq, relativeTo_eq_none,
      Bool.not_eq_false]
  · intro x' hx'
    obtain ⟨rel, hrel, rfl⟩ := rebase_eq_some_iff.mp hx'
    have hdepth := depth_of_relativeTo hrel
    obtain ⟨back, hback, hsame⟩ := exists_rebase_same (isWithin_of_relativeTo hrel)
    refine ⟨isWithin_of_relativeTo (relativeTo_concat rel new), ?_, back, ?_, hsame⟩
    · rw [depth_concat]
      omega
    · rw [rebase_rebase hx', hback]
  · intro x' y' hx' hy'
    obtain ⟨relx, hrelx, rfl⟩ := rebase_eq_some_iff.mp hx'
    obtain ⟨rely, hrely, rfl⟩ := rebase_eq_some_iff.mp hy'
    have hx := relativeTo_concat relx new
    have hy := relativeTo_concat rely new
    rw [isWithin_relative hx hy, isWithin_relative hrelx hrely, same_relative hx hy,
      same_relative hrelx hrely]
    exact ⟨Iff.rfl, Iff.rfl⟩

-- ── A name spelt unlike its base ─────────────────────────────────────────────────

/-- A country, written with a capital. -/
def loudCountry : Dn := ⟨[⟨"c", "Utopia", by decide, by decide, by decide, by decide⟩]⟩

/-- A street in it, written with a capital as well. -/
def loudStreet : Dn :=
  loudCountry.child ⟨"street", "Main", by decide, by decide, by decide, by decide⟩

/-- Somebody who lives there. -/
def aliceRdn : Rdn := ⟨"sn", "Alice", by decide, by decide, by decide, by decide⟩

/-- The street, written in small letters. -/
def quietStreet : Dn :=
  ⟨[⟨"street", "main", by decide, by decide, by decide, by decide⟩,
    ⟨"c", "utopia", by decide, by decide, by decide, by decide⟩]⟩

/-- Somebody and the street are rebased to the country.  Back from there the name is the
    same, with the street in small letters. -/
theorem loud_name_rebased_back :
    (loudStreet.child aliceRdn).rebase? quietStreet loudCountry = some (loudCountry.child aliceRdn)
      ∧ loudStreet.rebase? quietStreet loudCountry = some loudCountry
      ∧ ((loudCountry.child aliceRdn).isWithin loudCountry = true
        ↔ (loudStreet.child aliceRdn).isWithin loudStreet = true)
      ∧ ∃ back, (loudCountry.child aliceRdn).rebase? loudCountry quietStreet = some back
        ∧ back.same (loudStreet.child aliceRdn) = true ∧ back ≠ loudStreet.child aliceRdn := by
  obtain ⟨-, hback, hpair⟩ :=
    rebasing_reversible (loudStreet.child aliceRdn) loudStreet quietStreet loudCountry
  have huser : (loudStreet.child aliceRdn).rebase? quietStreet loudCountry
      = some (loudCountry.child aliceRdn) := rfl
  have hcontainer : loudStreet.rebase? quietStreet loudCountry = some loudCountry := rfl
  obtain ⟨-, -, back, hrebased, hsame⟩ := hback _ huser
  refine ⟨huser, hcontainer, (hpair _ _ huser hcontainer).1, back, hrebased, hsame, ?_⟩
  rw [← Option.some.inj hrebased]
  decide

end Dn

end DirectoryAccess
