import DirectoryAccess.Proofs.Cache.Group
import DirectoryAccess.Proofs.Cache.Mirror

/-! # Agreement — a group cache against a fresh one

    A fresh group cache lists exactly what the STORE lists: the members of the groups
    that a search below every suffix reaches.  Two caches with the same
    administrators answer every question alike if they list the same. -/

namespace DirectoryAccess

/-- An entry that lists somebody meets the filter that groups are searched by. -/
theorem Entry.Lists.met {e : Entry} {d : Dn} (h : e.Lists d) : groupFilter.isMetBy e = true := by
  have hmet : groupFilter.isMetBy e
      = (e.hasClass ObjectClass.groupOfNames
        || (e.hasClass ObjectClass.groupOfUniqueNames || false)) := rfl
  rw [hmet]
  cases hnames : e.hasClass ObjectClass.groupOfNames with
  | true => rfl
  | false =>
      cases hunique : e.hasClass ObjectClass.groupOfUniqueNames with
      | true => rfl
      | false =>
          have hno : memberSet? e = none := by
            rw [memberSet?, Entry.memberAttr?, hnames, hunique]
            rfl
          rw [Entry.Lists, Entry.members, hno] at h
          cases h

namespace MemoryStore

/-- A name is stored as a member of a group that is reached. -/
def Lists (s : MemoryStore) (g d : Dn) : Prop :=
  s.Reaches g ∧ ∃ e, s.lookup g = some e ∧ e.Lists d

end MemoryStore

namespace GroupCache

/-- A fresh cache of a store. -/
def loaded (adminDn adminGroupDn : Dn) (s : MemoryStore) : GroupCache :=
  (s.suffixes.flatMap (s.foundBelow groupFilter)).foldl groupAdded
    (unloaded adminDn adminGroupDn)

theorem not_lists_unloaded (adminDn adminGroupDn g d : Dn) :
    ¬(unloaded adminDn adminGroupDn).Lists g d := by
  intro h
  have hempty : (OrdSet.empty : NameSet).contains d = true := h
  rw [OrdSet.contains_empty] at hempty
  cases hempty

/-- A fresh cache lists what the store lists. -/
theorem lists_loaded (adminDn adminGroupDn : Dn) {s : MemoryStore} (hs : s.Named) (g d : Dn) :
    (loaded adminDn adminGroupDn s).Lists g d ↔ s.Lists g d := by
  have hnone := not_lists_unloaded adminDn adminGroupDn
  rw [loaded, lists_foldl_groupAdded (fun e he e' he' => hs.eq_of_found he he')
    fun e _ d h => absurd h (hnone e.dn d), or_iff_left (hnone g d)]
  exact (hs.shows_iff_found (fun e d h => Entry.Lists.met h) g d).symm

/-- Two caches give the same answer to every question who is an administrator, and who
    is a member of what. -/
structure Agrees (c c' : GroupCache) : Prop where
  isAdministrator_eq : ∀ d, c.isAdministrator d = c'.isAdministrator d
  groupsOf_eq : ∀ d g, (c.groupsOf d).contains g = (c'.groupsOf d).contains g

/-- Caches with the same administrators agree if they list the same names. -/
theorem agrees_iff {c c' : GroupCache} (hadmin : c.adminDn = c'.adminDn)
    (hgroup : c.adminGroupDn = c'.adminGroupDn) :
    c.Agrees c' ↔ ∀ g d, c.Lists g d ↔ c'.Lists g d := by
  constructor
  · intro h g d
    rw [← contains_groupsOf, ← contains_groupsOf, h.groupsOf_eq]
  · intro h
    constructor
    · intro d
      rw [isAdministrator_eq, isAdministrator_eq, hadmin, hgroup]
      exact congrArg (d.same c'.adminDn || ·) (Bool.eq_iff_iff.mpr (h c'.adminGroupDn d))
    · intro d g
      rw [Bool.eq_iff_iff, contains_groupsOf, contains_groupsOf]
      exact h g d

/-- Adding groups does not change who the administrators are named after. -/
theorem foldl_groupAdded_admin (es : List Entry) (c : GroupCache) :
    (es.foldl groupAdded c).adminDn = c.adminDn
      ∧ (es.foldl groupAdded c).adminGroupDn = c.adminGroupDn := by
  induction es generalizing c with
  | nil => exact ⟨rfl, rfl⟩
  | cons e rest ih =>
      have hone : (c.groupAdded e).adminDn = c.adminDn
          ∧ (c.groupAdded e).adminGroupDn = c.adminGroupDn := by
        rw [groupAdded]
        cases memberSet? e <;> exact ⟨rfl, rfl⟩
      exact ⟨(ih _).1.trans hone.1, (ih _).2.trans hone.2⟩

/-- A cache that is loaded keeps the names that it was made with. -/
theorem loaded_admin (adminDn adminGroupDn : Dn) (s : MemoryStore) :
    (loaded adminDn adminGroupDn s).adminDn = adminDn
      ∧ (loaded adminDn adminGroupDn s).adminGroupDn = adminGroupDn :=
  foldl_groupAdded_admin _ (unloaded adminDn adminGroupDn)

/-- Loading makes a fresh cache, and never fails. -/
theorem load_unloaded (adminDn adminGroupDn : Dn) (s : MemoryStore) :
    load (unloaded adminDn adminGroupDn) s = .ok (loaded adminDn adminGroupDn s) s :=
  load_ok (unloaded adminDn adminGroupDn) s

end GroupCache

end DirectoryAccess
