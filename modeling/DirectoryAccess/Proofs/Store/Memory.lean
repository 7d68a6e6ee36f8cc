import DirectoryAccess.Operation
import DirectoryAccess.Proofs.Entry.Attributes
import DirectoryAccess.Store.Memory

/-! # The memory store — what each operation does when it succeeds

    One function gives the store after an operation, and one lemma for each kind of
    operation says when it succeeds and what it leaves.  The three relocations are
    one: they differ in the new name and in what they do to the entry itself. -/

namespace DirectoryAccess

namespace MemoryStore

/-- What an operation makes of the store. -/
def after (s : MemoryStore) : Operation → Except OperationError MemoryStore
  | .add entry => s.add entry
  | .delete dn => s.delete dn
  | .modify dn mods => s.modify dn mods
  | .rename dn rdn deleteOld => s.rename dn rdn deleteOld
  | .move dn superior => s.move dn superior
  | .moveAndRename dn superior rdn deleteOld => s.moveAndRename dn superior rdn deleteOld
  | .compare _ _ _ | .lookup _ _ | .hasEntry _ | .search _ _ _ _ => .ok s

/-- The stores that operations lead to from one without entries. -/
inductive Built : MemoryStore → Prop
  | empty (suffixes : List Dn) : Built (ofSuffixes suffixes)
  | after {s s' : MemoryStore} (op : Operation) : Built s → s.after op = .ok s' → Built s'

-- ── Changing one entry ───────────────────────────────────────────────────────────

/-- True if the name one component above is there. -/
def hasParent (s : MemoryStore) (dn : Dn) : Bool :=
  match dn.parent? with
  | some parent => s.entries.contains parent
  | none => false

/-- Who has a parent has one that is stored. -/
theorem exists_of_hasParent {s : MemoryStore} {dn : Dn} (h : s.hasParent dn = true) :
    ∃ p, dn.parent? = some p ∧ s.entries.contains p = true := by
  rw [hasParent] at h
  cases hp : dn.parent? with
  | none =>
      rw [hp] at h
      cases h
  | some p =>
      rw [hp] at h
      exact ⟨p, rfl, h⟩

/-- An addition is refused where an entry is, or where its parent is not, unless it is a
    suffix. -/
theorem add_eq (s : MemoryStore) (entry : Entry) :
    s.add entry =
      if s.entries.contains entry.dn then .error .entryAlreadyExists
      else if s.isSuffix entry.dn || s.hasParent entry.dn then
        .ok { s with entries := s.entries.insert entry.dn entry }
      else .error .noMatchingEntries := rfl

/-- An entry is added under a free name, which is a suffix or has a parent. -/
theorem add_ok {s s' : MemoryStore} {entry : Entry} (h : s.add entry = .ok s') :
    s.entries.contains entry.dn = false
      ∧ (s.isSuffix entry.dn = true
        ∨ ∃ p, entry.dn.parent? = some p ∧ s.entries.contains p = true)
      ∧ s' = { s with entries := s.entries.insert entry.dn entry } := by
  rw [add_eq] at h
  by_cases hfree : s.entries.contains entry.dn = true
  · rw [if_pos hfree] at h
    cases h
  · rw [if_neg hfree] at h
    by_cases hplace : (s.isSuffix entry.dn || s.hasParent entry.dn) = true
    · rw [if_pos hplace] at h
      refine ⟨eq_false_of_ne_true hfree, ?_, (Except.ok.inj h).symm⟩
      exact (Bool.or_eq_true_iff.mp hplace).imp_right exists_of_hasParent
    · rw [if_neg hplace] at h
      cases h

/-- An entry is deleted if it is there and nothing is directly below it. -/
theorem delete_ok {s s' : MemoryStore} {dn : Dn} (h : s.delete dn = .ok s') :
    s.entries.contains dn = true ∧ (∀ k ∈ s.entries.keys, k.isChildOf dn = false)
      ∧ s' = { s with entries := s.entries.erase dn } := by
  rw [delete] at h
  split at h
  · cases h
  · next hthere =>
    split at h
    · cases h
    · next hleaf =>
      refine ⟨by simpa using hthere, ?_, (Except.ok.inj h).symm⟩
      intro k hk
      simpa using List.any_eq_false.mp (eq_false_of_ne_true hleaf) k hk

/-- What is modified is there, and afterwards is the last of the projections. -/
theorem modify_ok {s s' : MemoryStore} {dn : Dn} {mods : List Modification}
    (h : s.modify dn mods = .ok s') :
    ∃ e, s.entries.get? dn = some e ∧ e.modifyAll mods = .ok (mods.foldl Entry.project e)
      ∧ s' = { s with entries := s.entries.insert dn (mods.foldl Entry.project e) } := by
  rw [modify] at h
  cases he : s.entries.get? dn with
  | none =>
      rw [he] at h
      cases h
  | some e =>
      rw [he] at h
      cases hm : e.modifyAll mods with
      | error err =>
          simp only [hm] at h
          cases h
      | ok e' =>
          simp only [hm] at h
          have he' : e' = mods.foldl Entry.project e := Entry.modifyAll_ok hm
          subst he'
          exact ⟨e, rfl, hm, (Except.ok.inj h).symm⟩

-- ── Relocating ───────────────────────────────────────────────────────────────────

/-- True if a name has no place: the name above it is not there, and neither of them
    stands at the top. -/
def lacksPlace (s : MemoryStore) (new : Dn) : Bool :=
  match new.parent? with
  | some parent => !parent.isRoot && !s.entries.contains parent && !s.isSuffix new
  | none => false

/-- A name that has a place is at the top, or the name above it is there. -/
theorem place_of_not_lacksPlace {s : MemoryStore} {new p : Dn} (h : s.lacksPlace new = false)
    (hp : new.parent? = some p) :
    p.isRoot = true ∨ s.entries.contains p = true ∨ s.isSuffix new = true := by
  rw [lacksPlace, hp] at h
  have hnot : (!p.isRoot && !s.entries.contains p && !s.isSuffix new) = false := h
  simpa only [Bool.and_eq_false_iff, Bool.not_eq_false', or_assoc] using hnot

/-- The entries strictly below a name. -/
def below (s : MemoryStore) (dn : Dn) : List (Dn × Entry) :=
  s.entries.entries.filter fun e => e.1.isDescendantOf dn

/-- Relocating, with its conditions in front. -/
theorem relocate_eq (s : MemoryStore) (dn new : Dn) (adjust : Entry → Entry) :
    s.relocate dn new adjust =
      if new.isWithin dn && !new.same dn then .error (.invalidDn new.display)
      else
        match s.entries.get? dn with
        | none => .error .noMatchingEntries
        | some top =>
            if !new.same dn && s.entries.contains new then .error .entryAlreadyExists
            else if s.lacksPlace new then .error .noMatchingEntries
            else (carryOver dn new (s.below dn)
              ((s.entries.erase dn).insert new (adjust (top.withDn new)))).bind fun entries =>
                .ok { s with entries := entries } := rfl

/-- Relocating succeeds from a name that is there to one that is free, not below it,
    and has a place; then the entry and all below it are carried over. -/
theorem relocate_ok {s s' : MemoryStore} {dn new : Dn} {adjust : Entry → Entry}
    (h : s.relocate dn new adjust = .ok s') :
    (new.isWithin dn = true → new.same dn = true)
      ∧ (new.same dn = true ∨ s.entries.contains new = false)
      ∧ s.lacksPlace new = false
      ∧ ∃ top, s.entries.get? dn = some top
        ∧ carryOver dn new (s.below dn)
            ((s.entries.erase dn).insert new (adjust (top.withDn new))) = .ok s'.entries
        ∧ s'.suffixes = s.suffixes := by
  rw [relocate_eq] at h
  by_cases hbelow : (new.isWithin dn && !new.same dn) = true
  · rw [if_pos hbelow] at h
    cases h
  · rw [if_neg hbelow] at h
    cases htop : s.entries.get? dn with
    | none =>
        rw [htop] at h
        cases h
    | some top =>
        simp only [htop] at h
        by_cases htaken : (!new.same dn && s.entries.contains new) = true
        · rw [if_pos htaken] at h
          cases h
        · rw [if_neg htaken] at h
          by_cases hl : s.lacksPlace new = true
          · rw [if_pos hl] at h
            cases h
          · rw [if_neg hl] at h
            refine ⟨?_, ?_, eq_false_of_ne_true hl, top, rfl, ?_⟩
            · intro hw
              simpa [hw] using hbelow
            · simpa [Classical.or_iff_not_imp_left] using htaken
            · cases hc : carryOver dn new (s.below dn)
                  ((s.entries.erase dn).insert new (adjust (top.withDn new))) with
              | error err =>
                  rw [hc] at h
                  cases h
              | ok entries =>
                  rw [hc] at h
                  have hs' : MemoryStore.mk s.suffixes entries = s' := Except.ok.inj h
                  rw [← hs']
                  exact ⟨rfl, rfl⟩

end MemoryStore

namespace Operation

/-- What a relocation does to the entry itself, apart from its name. -/
def rewrite : Operation → Entry → Entry
  | rename dn rdn deleteOld | moveAndRename dn _ rdn deleteOld =>
      MemoryStore.replaceRdn dn.rdn? rdn deleteOld
  | _ => id

/-- The operations that take an entry to a new name. -/
def isRelocation : Operation → Bool
  | rename _ _ _ | move _ _ | moveAndRename _ _ _ _ => true
  | _ => false

/-- The operations that leave every store as it is. -/
def isReading : Operation → Bool
  | compare _ _ _ | lookup _ _ | hasEntry _ | search _ _ _ _ => true
  | _ => false

end Operation

namespace MemoryStore

/-- A relocation that succeeds has a new name and relocates to it. -/
theorem after_relocation {s s' : MemoryStore} {op : Operation}
    (hop : op.isRelocation = true) (h : s.after op = .ok s') :
    ∃ new, op.newDn? = some new ∧ s.relocate op.target new op.rewrite = .ok s' := by
  cases op with
  | rename dn rdn deleteOld =>
      rw [after, rename] at h
      split at h
      · cases h
      · next p hp =>
        refine ⟨p.child rdn, ?_, h⟩
        rw [Operation.newDn?, hp]
        rfl
  | move dn superior =>
      rw [after, move] at h
      split at h
      · cases h
      · next r hr =>
        refine ⟨superior.child r, ?_, h⟩
        rw [Operation.newDn?, hr]
        rfl
  | moveAndRename dn superior rdn deleteOld =>
      rw [after, moveAndRename] at h
      split at h
      · cases h
      · exact ⟨superior.child rdn, rfl, h⟩
  | add _ | delete _ | modify _ _ | compare _ _ _ | lookup _ _ | hasEntry _
  | search _ _ _ _ => cases hop

end MemoryStore

end DirectoryAccess
