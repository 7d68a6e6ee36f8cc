import DirectoryAccess.Proofs.Cache.Group

/-! # Blank members — who is listed by a text without a name in it

    What is no name is no member.  A text of nothing but blanks is a name all the
    same, that of the root, which the anonymous principal goes by; no other text is
    read as the root.  So a group lists the anonymous principal exactly if a blank
    stands among its member values, and the cache lists it where a blank was added
    and has not been taken away since. -/

namespace DirectoryAccess

-- ── Reading a blank ──────────────────────────────────────────────────────────────

/-- Every text has a first part. -/
theorem Rdn.splitParts_ne_nil {cs : List Char} {parts : List (List Char)}
    (h : splitParts? cs = some parts) : parts ≠ [] := by
  have hextend : ∀ {front : List Char} {ps : List (List Char)},
      splitParts?.extendFirst front ps ≠ [] := by
    intro front ps
    cases ps <;> exact List.cons_ne_nil _ _
  unfold splitParts? at h
  split at h
  · cases h
    exact List.cons_ne_nil _ _
  · cases h
  all_goals
    obtain ⟨ps, -, rfl⟩ := Option.map_eq_some_iff.mp h
    first
      | exact hextend
      | exact List.cons_ne_nil _ _

/-- A text of nothing but blanks. -/
def Text.isBlankText (s : String) : Bool := (Text.trim s).isEmpty

/-- A blank is read as the root. -/
theorem Dn.parse_blank {s : String} (h : Text.isBlankText s = true) : Dn.parse s = .ok root := by
  unfold Text.isBlankText at h
  unfold Dn.parse
  simp only [h]
  rfl

/-- Only a blank is read as the root. -/
theorem Dn.isRoot_of_parse {s : String} {d : Dn} (h : Dn.parse s = .ok d) :
    d.isRoot = Text.isBlankText s := by
  cases hblank : Text.isBlankText s with
  | true =>
      rw [Dn.parse_blank hblank] at h
      cases h
      rfl
  | false =>
      unfold Text.isBlankText at hblank
      unfold Dn.parse at h
      rw [if_neg (by simp [hblank])] at h
      split at h
      · next parts hparts =>
        cases parts with
        | nil => exact absurd rfl (Rdn.splitParts_ne_nil hparts)
        | cons part rest =>
            obtain ⟨r, rs, hrdns⟩ : ∃ r rs, d.rdns = r :: rs := by
              rw [List.mapM_cons] at h
              cases hr : Rdn.parseWritten part with
              | error e =>
                  rw [hr] at h
                  cases h
              | ok r =>
                  cases hrs : rest.mapM Rdn.parseWritten with
                  | error e =>
                      rw [hr, hrs] at h
                      cases h
                  | ok rs =>
                      rw [hr, hrs] at h
                      cases h
                      exact ⟨r, rs, rfl⟩
            rw [Dn.isRoot, hrdns]
            rfl
      · cases h

/-- True if a blank is among values. -/
def anyBlank (values : List String) : Bool := values.any Text.isBlankText

/-- The root is among the members that values spell if a blank is among the values. -/
theorem root_mem_parseMembers (values : List String) :
    (∃ d ∈ parseMembers values, Dn.root.key = d.key) ↔ anyBlank values = true := by
  rw [anyBlank, List.any_eq_true]
  constructor
  · rintro ⟨d, hd, hroot⟩
    obtain ⟨v, hv, hparse⟩ := List.mem_filterMap.mp hd
    refine ⟨v, hv, ?_⟩
    cases hr : Dn.parse v with
    | error e =>
        rw [hr] at hparse
        cases hparse
    | ok d' =>
        rw [hr] at hparse
        cases hparse
        rw [← Dn.isRoot_of_parse hr, Dn.isRoot_iff]
        exact hroot.symm
  · rintro ⟨v, hv, hblank⟩
    refine ⟨Dn.root, List.mem_filterMap.mpr ⟨v, hv, ?_⟩, rfl⟩
    rw [Dn.parse_blank hblank]
    rfl

/-- A blank among member values is read as the root. -/
theorem contains_ofList_parseMembers (values : List String) :
    (OrdSet.ofList (parseMembers values)).contains Dn.root = anyBlank values := by
  rw [Bool.eq_iff_iff, OrdSet.contains_ofList, ← root_mem_parseMembers]
  simp only [Dn.compare_eq_iff]

-- ── Groups that list it ──────────────────────────────────────────────────────────

/-- A group entry with a blank among its member values. -/
def Entry.ListsBlank (e : Entry) : Prop :=
  ∃ attr values, e.memberAttr? = some attr ∧ e.values? attr = some values
    ∧ anyBlank values.toList = true

/-- An entry lists the anonymous principal if a blank is among its member values. -/
theorem Entry.lists_root (e : Entry) : e.Lists Dn.root ↔ e.ListsBlank := by
  unfold Lists members memberSet? ListsBlank
  cases hattr : e.memberAttr? with
  | none => simp
  | some attr =>
      cases hvalues : e.values? attr with
      | none => simp [hvalues]
      | some values => simp [hvalues, contains_ofList_parseMembers]

/-- Whether a blank is listed after one modification of the member attribute. -/
def blankAfter (listed : Bool) : Modification → Bool
  | .add _ values => listed || anyBlank values
  | .remove _ [] => false
  | .remove _ values => listed && !anyBlank values
  | .replace _ values => anyBlank values

/-- A modification leaves the root a member exactly if it leaves a blank. -/
theorem contains_membersAfter_root (members : NameSet) (m : Modification) :
    (GroupCache.membersAfter members m).contains Dn.root
      = blankAfter (members.contains Dn.root) m := by
  cases m with
  | add attr values =>
      rw [Bool.eq_iff_iff]
      show (members.insertAll (parseMembers values)).contains Dn.root = true
        ↔ (members.contains Dn.root || anyBlank values) = true
      rw [OrdSet.contains_insertAll, Bool.or_eq_true, ← root_mem_parseMembers]
      simp only [Dn.compare_eq_iff, or_comm]
  | remove attr values =>
      cases values with
      | nil => rfl
      | cons v vs =>
          rw [Bool.eq_iff_iff]
          show ((parseMembers (v :: vs)).foldl OrdSet.erase members).contains Dn.root = true
            ↔ (members.contains Dn.root && !anyBlank (v :: vs)) = true
          rw [OrdSet.contains_foldl_erase, Bool.and_eq_true, Bool.not_eq_true',
            ← Bool.not_eq_true, ← root_mem_parseMembers]
          simp only [ne_eq, Dn.compare_eq_iff]
          grind
  | replace attr values => exact contains_ofList_parseMembers values

/-- Whether a blank is listed after the modifications of a request, where none was
    listed before. -/
def Entry.blankFollowed (e : Entry) (mods : List Modification) : Bool :=
  match e.memberAttr? with
  | some attr => (mods.filter fun m => m.isAbout attr).foldl blankAfter false
  | none => false

/-- As far as the cache follows modifications, they leave the root a member exactly if they
    leave a blank. -/
theorem Entry.contains_followed_root (e : Entry) (mods : List Modification) {members : NameSet}
    (h : members.contains Dn.root = false) :
    (e.followed mods members).contains Dn.root = e.blankFollowed mods := by
  have hfold : ∀ (mods : List Modification) (members : NameSet),
      (mods.foldl GroupCache.membersAfter members).contains Dn.root
        = mods.foldl blankAfter (members.contains Dn.root) := by
    intro mods
    induction mods with
    | nil => exact fun _ => rfl
    | cons m rest ih =>
        intro members
        rw [List.foldl_cons, List.foldl_cons, ih, contains_membersAfter_root]
  unfold followed blankFollowed
  cases e.memberAttr? with
  | none => exact h
  | some attr => exact (hfold _ _).trans (by rw [h])

-- ── Caches that list it ──────────────────────────────────────────────────────────

namespace GroupCache

/-- A name that no cached group lists is listed after an addition if the entry lists
    it. -/
theorem exists_lists_groupAdded {c : GroupCache} {d : Dn} (h : ∀ g, ¬ c.Lists g d) (e : Entry) :
    (∃ g, (c.groupAdded e).Lists g d) ↔ e.Lists d := by
  unfold groupAdded Entry.Lists Entry.members
  cases hm : memberSet? e with
  | none =>
      constructor
      · rintro ⟨g, hg⟩
        exact absurd hg (h g)
      · intro hd
        cases hd
  | some members =>
      have hget : ∀ g, GroupCache.Lists { c with groups := c.groups.insert e.dn members } g d
          ↔ (if g.key = e.dn.key then members.contains d = true else c.Lists g d) := by
        intro g
        rw [Lists, membersOf]
        show ((OrdMap.get? (c.groups.insert e.dn members) g).getD OrdSet.empty).contains d = true
          ↔ _
        rw [NameMap.get?_insert]
        split
        · exact Iff.rfl
        · exact Iff.rfl
      constructor
      · rintro ⟨g, hg⟩
        rw [hget] at hg
        split at hg
        · exact hg
        · exact absurd hg (h g)
      · intro hd
        exact ⟨e.dn, (hget _).mpr (by rw [if_pos rfl]; exact hd)⟩

/-- A relocation takes groups along and makes nobody a member. -/
theorem exists_lists_groupRenamed {c : GroupCache} {old new g d : Dn}
    (h : (c.groupRenamed old new).Lists g d) : ∃ g', c.Lists g' d := by
  rcases (c.lists_groupRenamed_leaves old new g d).mp h with
    ⟨-, -, hlisted⟩ | ⟨k, -, -, -, -, hlisted⟩
  · exact ⟨g, hlisted⟩
  · exact ⟨k, hlisted⟩

/-- Where no cached group lists the anonymous principal, one does after the modifications
    of a group exactly if they leave a blank. -/
theorem exists_lists_groupModified {c : GroupCache} (h : ∀ g, ¬ c.Lists g Dn.root) (dn : Dn)
    (mods : List Modification) (e : Entry) :
    (∃ g, (c.groupModified dn mods e).Lists g Dn.root) ↔ e.blankFollowed mods = true := by
  have hnone : (c.membersOf dn).contains Dn.root = false := eq_false_of_ne_true (h dn)
  have hfollowed := e.contains_followed_root mods hnone
  constructor
  · rintro ⟨g, hg⟩
    rw [Lists, membersOf_groupModified] at hg
    split at hg
    · rw [← hfollowed]
      exact hg
    · exact absurd hg (h g)
  · intro hblank
    refine ⟨dn, ?_⟩
    rw [Lists, membersOf_groupModified, if_pos rfl, hfollowed]
    exact hblank

end GroupCache

end DirectoryAccess
