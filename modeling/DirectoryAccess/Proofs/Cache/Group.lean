import DirectoryAccess.Proofs.Cache.Loading
import DirectoryAccess.Proofs.Entry.Attributes
import DirectoryAccess.Proofs.Name.Carry
import DirectoryAccess.Proofs.Ordered.Set

/-! # The group cache — what each change does to who is listed

    All that the cache is ever asked is whether a group LISTS a name.  Every operation
    on the cache is known by what it does to that relation; a group that is cached
    without members does not count in it. -/

namespace DirectoryAccess

namespace Entry

/-- The names that an entry lists as members.  One that is no group lists none. -/
def members (e : Entry) : NameSet := (memberSet? e).getD OrdSet.empty

/-- An entry lists a name as a member. -/
def Lists (e : Entry) (d : Dn) : Prop := e.members.contains d = true

/-- What the cache makes of the members of a group along a list of modifications:
    it changes names, where the entry changes the values that spell them. -/
def followed (e : Entry) (mods : List Modification) (members : NameSet) : NameSet :=
  match e.memberAttr? with
  | some attr => (mods.filter fun m => m.isAbout attr).foldl GroupCache.membersAfter members
  | none => members

/-- Members are kept in one of two attributes. -/
theorem memberAttr?_cases {e : Entry} {attr : String} (h : e.memberAttr? = some attr) :
    attr = Attribute.member ∨ attr = Attribute.uniqueMember := by
  unfold memberAttr? at h
  split at h
  · cases h
    exact Or.inl rfl
  · split at h
    · cases h
      exact Or.inr rfl
    · cases h

end Entry

namespace GroupCache

/-- The members that are cached of a group; of a group that is not cached, none. -/
def membersOf (c : GroupCache) (g : Dn) : NameSet := (c.groups.get? g).getD OrdSet.empty

/-- A name is cached as a member of a group. -/
def Lists (c : GroupCache) (g d : Dn) : Prop := (c.membersOf g).contains d = true

/-- A group has the same members under every spelling of its name. -/
theorem membersOf_congr (c : GroupCache) {g g' : Dn} (h : g.key = g'.key) :
    c.membersOf g = c.membersOf g' := by
  rw [membersOf, membersOf, NameMap.get?_congr c.groups h]

/-- The administrators are the administrator and the members of their group. -/
theorem isAdministrator_eq (c : GroupCache) (d : Dn) :
    c.isAdministrator d = (d.same c.adminDn || (c.membersOf c.adminGroupDn).contains d) := by
  rw [isAdministrator, membersOf]
  cases c.groups.get? c.adminGroupDn with
  | none => rfl
  | some members => rfl

/-- The groups of a name are those that list it. -/
theorem contains_groupsOf (c : GroupCache) (d g : Dn) :
    (c.groupsOf d).contains g = true ↔ c.Lists g d := by
  rw [groupsOf, OrdSet.contains_ofList, Lists, membersOf]
  constructor
  · rintro ⟨a, ha, hga⟩
    obtain ⟨e, he, rfl⟩ := List.mem_map.mp ha
    obtain ⟨hin, hlisted⟩ := List.mem_filter.mp he
    have hget : c.groups.get? e.1 = some e.2 := OrdMap.get?_of_mem c.groups hin
    rw [OrdMap.get?_congr c.groups hga, hget]
    exact hlisted
  · intro h
    cases hget : c.groups.get? g with
    | none =>
        rw [hget] at h
        cases h
    | some members =>
        rw [hget] at h
        obtain ⟨k, hk, hkey⟩ := NameMap.mem_of_get? c.groups hget
        refine ⟨k, ?_, (Dn.compare_eq_iff g k).mpr hkey.symm⟩
        exact List.mem_map.mpr ⟨(k, members), List.mem_filter.mpr ⟨hk, h⟩, rfl⟩

-- ── Adding and deleting ──────────────────────────────────────────────────────────

/-- Adding an entry under a name where nothing else is listed lists what it lists. -/
theorem lists_groupAdded {c : GroupCache} {e : Entry} (h : ∀ d, c.Lists e.dn d → e.Lists d)
    (g d : Dn) :
    (c.groupAdded e).Lists g d ↔ (g.key = e.dn.key ∧ e.Lists d) ∨ c.Lists g d := by
  have hback : g.key = e.dn.key → c.Lists g d → e.Lists d := by
    intro hg hlisted
    rw [Lists, membersOf_congr c hg] at hlisted
    exact h d hlisted
  rw [groupAdded, Entry.Lists, Entry.members]
  cases hm : memberSet? e with
  | none =>
      refine ⟨Or.inr, ?_⟩
      rintro (⟨-, hd⟩ | hlisted)
      · cases hd
      · exact hlisted
  | some members =>
      show ((OrdMap.get? (c.groups.insert e.dn members) g).getD OrdSet.empty).contains d = true
        ↔ (g.key = e.dn.key ∧ members.contains d = true) ∨ c.Lists g d
      rw [NameMap.get?_insert]
      by_cases hg : g.key = e.dn.key
      · rw [if_pos hg]
        constructor
        · exact fun hd => Or.inl ⟨hg, hd⟩
        · rintro (⟨-, hd⟩ | hlisted)
          · exact hd
          · have hd := hback hg hlisted
            rw [Entry.Lists, Entry.members, hm] at hd
            exact hd
      · rw [if_neg hg]
        constructor
        · exact Or.inr
        · rintro (⟨hg', -⟩ | hlisted)
          · exact absurd hg' hg
          · exact hlisted

/-- Adding entries, of which those under the same name are the same, lists what each of
    them lists. -/
theorem lists_foldl_groupAdded {es : List Entry} {c : GroupCache}
    (hsame : ∀ e ∈ es, ∀ e' ∈ es, e.dn.key = e'.dn.key → e = e')
    (h : ∀ e ∈ es, ∀ d, c.Lists e.dn d → e.Lists d) (g d : Dn) :
    (es.foldl groupAdded c).Lists g d
      ↔ (∃ e ∈ es, g.key = e.dn.key ∧ e.Lists d) ∨ c.Lists g d := by
  induction es generalizing c with
  | nil => simp
  | cons e rest ih =>
      have hadded := lists_groupAdded (h e (List.mem_cons_self ..))
      have hrest : ∀ e' ∈ rest, ∀ d, (c.groupAdded e).Lists e'.dn d → e'.Lists d := by
        intro e' he' d hlisted
        have hmem : e' ∈ e :: rest := List.mem_cons_of_mem _ he'
        rcases (hadded e'.dn d).mp hlisted with ⟨hkey, hd⟩ | hd
        · rw [hsame e' hmem e (List.mem_cons_self ..) hkey]
          exact hd
        · exact h e' hmem d hd
      have hsame' : ∀ a ∈ rest, ∀ b ∈ rest, a.dn.key = b.dn.key → a = b :=
        fun a ha b hb => hsame a (List.mem_cons_of_mem _ ha) b (List.mem_cons_of_mem _ hb)
      rw [List.foldl_cons, ih hsame' hrest, hadded g d]
      simp only [List.mem_cons, exists_eq_or_imp, or_assoc]
      exact or_left_comm

/-- A deletion forgets the members of the one group. -/
theorem lists_groupDeleted (c : GroupCache) (dn g d : Dn) :
    (c.groupDeleted dn).Lists g d ↔ g.key ≠ dn.key ∧ c.Lists g d := by
  show ((OrdMap.get? (c.groups.erase dn) g).getD OrdSet.empty).contains d = true ↔ _
  rw [NameMap.get?_erase]
  by_cases hg : dn.key = g.key
  · rw [if_pos hg]
    exact iff_of_false Bool.false_ne_true fun h => h.1 hg.symm
  · rw [if_neg hg]
    exact ⟨fun h => ⟨Ne.symm hg, h⟩, fun h => h.2⟩

-- ── Modifying ────────────────────────────────────────────────────────────────────

/-- One modification of a group changes its members, and no others. -/
theorem membersOf_groupModifiedBy (c : GroupCache) (dn g : Dn) (e : Entry)
    (m : Modification) :
    (c.groupModifiedBy dn e m).membersOf g =
      if g.key = dn.key then e.followed [m] (c.membersOf dn) else c.membersOf g := by
  have hsame : c.membersOf g = if g.key = dn.key then c.membersOf dn else c.membersOf g := by
    by_cases hg : g.key = dn.key
    · rw [if_pos hg, membersOf_congr c hg]
    · rw [if_neg hg]
  rw [groupModifiedBy, Entry.followed]
  cases e.memberAttr? with
  | none => exact hsame
  | some attr =>
      cases habout : m.isAbout attr with
      | false =>
          simp only [List.filter_cons, habout]
          exact hsame
      | true =>
          simp only [List.filter_cons, habout]
          show GroupCache.membersOf (if (membersAfter (c.membersOf dn) m).isEmpty then _ else _) g
            = if g.key = dn.key then membersAfter (c.membersOf dn) m else c.membersOf g
          cases hempty : (membersAfter (c.membersOf dn) m).isEmpty with
          | true =>
              rw [OrdSet.eq_empty_of_isEmpty hempty]
              show (OrdMap.get? (c.groups.erase dn) g).getD OrdSet.empty = _
              rw [NameMap.get?_erase]
              by_cases hg : g.key = dn.key
              · rw [if_pos hg, if_pos hg.symm]
                rfl
              · rw [if_neg hg, if_neg (Ne.symm hg)]
                rfl
          | false =>
              show (OrdMap.get? (c.groups.insert dn (membersAfter (c.membersOf dn) m)) g).getD
                OrdSet.empty = _
              rw [NameMap.get?_insert]
              by_cases hg : g.key = dn.key
              · rw [if_pos hg, if_pos hg]
                rfl
              · rw [if_neg hg, if_neg hg]
                rfl

end GroupCache

/-- The cache follows modifications one after the other. -/
theorem Entry.followed_cons (e : Entry) (m : Modification) (mods : List Modification)
    (members : NameSet) :
    e.followed (m :: mods) members = e.followed mods (e.followed [m] members) := by
  simp only [followed]
  cases e.memberAttr? with
  | none => rfl
  | some attr => cases habout : m.isAbout attr <;> simp [habout]

namespace GroupCache

/-- Modifications of a group change its members, and no others. -/
theorem membersOf_groupModified (c : GroupCache) (dn g : Dn) (mods : List Modification)
    (e : Entry) :
    (c.groupModified dn mods e).membersOf g =
      if g.key = dn.key then e.followed mods (c.membersOf dn) else c.membersOf g := by
  induction mods generalizing c with
  | nil =>
      show c.membersOf g = if g.key = dn.key then e.followed [] (c.membersOf dn)
        else c.membersOf g
      have hnil : e.followed [] (c.membersOf dn) = c.membersOf dn := by
        rw [Entry.followed]
        cases e.memberAttr? <;> rfl
      rw [hnil]
      by_cases hg : g.key = dn.key
      · rw [if_pos hg, membersOf_congr c hg]
      · rw [if_neg hg]
  | cons m rest ih =>
      show GroupCache.membersOf ((c.groupModifiedBy dn e m).groupModified dn rest e) g = _
      rw [ih, membersOf_groupModifiedBy, membersOf_groupModifiedBy, if_pos rfl,
        ← Entry.followed_cons]
      by_cases hg : g.key = dn.key
      · rw [if_pos hg, if_pos hg]
      · rw [if_neg hg, if_neg hg, if_neg hg]

/-- Modifications that touch no attribute of members leave the cache as it is. -/
theorem groupModified_of_untouched {mods : List Modification}
    (hmember : touches mods Attribute.member = false)
    (hunique : touches mods Attribute.uniqueMember = false) (c : GroupCache) (dn : Dn)
    (e : Entry) : c.groupModified dn mods e = c := by
  have hstep : ∀ m ∈ mods, c.groupModifiedBy dn e m = c := by
    intro m hm
    rw [groupModifiedBy]
    cases hattr : e.memberAttr? with
    | none => rfl
    | some attr =>
        have htouches : touches mods attr = false := by
          rcases Entry.memberAttr?_cases hattr with rfl | rfl
          · exact hmember
          · exact hunique
        have habout : m.isAbout attr = false :=
          eq_false_of_ne_true (List.any_eq_false.mp htouches m hm)
        simp only [habout, Bool.false_eq_true, if_false]
  refine List.foldlRecOn mods _ (motive := (· = c)) rfl fun c' hc m hm => ?_
  rw [hc]
  exact hstep m hm

/-- A modification sees which names are members, not how they are written. -/
theorem contains_membersAfter_congr {ms ms' : NameSet}
    (h : ∀ d, ms.contains d = ms'.contains d) (m : Modification) (d : Dn) :
    (membersAfter ms m).contains d = (membersAfter ms' m).contains d := by
  rw [Bool.eq_iff_iff]
  cases m with
  | add attr values =>
      rw [membersAfter, membersAfter, OrdSet.contains_insertAll, OrdSet.contains_insertAll, h]
  | remove attr values =>
      cases values with
      | nil => exact Iff.rfl
      | cons v vs =>
          rw [membersAfter, membersAfter, OrdSet.contains_foldl_erase,
            OrdSet.contains_foldl_erase, h]
          · exact fun h => by cases h
          · exact fun h => by cases h
  | replace attr values => exact Iff.rfl

end GroupCache

/-- Following modifications sees which names are members, not how they are written. -/
theorem Entry.contains_followed_congr {ms ms' : NameSet}
    (h : ∀ d, ms.contains d = ms'.contains d) (e : Entry) (mods : List Modification) (d : Dn) :
    (e.followed mods ms).contains d = (e.followed mods ms').contains d := by
  rw [followed, followed]
  cases e.memberAttr? with
  | none => exact h d
  | some attr =>
      show (List.foldl GroupCache.membersAfter ms (mods.filter _)).contains d
        = (List.foldl GroupCache.membersAfter ms' (mods.filter _)).contains d
      induction mods.filter fun m => m.isAbout attr generalizing ms ms' with
      | nil => exact h d
      | cons m rest ih => exact ih (GroupCache.contains_membersAfter_congr h m)

-- ── Renaming ─────────────────────────────────────────────────────────────────────

namespace GroupCache

/-- A renaming takes the groups within the old name along in the order of their names. -/
theorem groupRenamed_groups (c : GroupCache) (old new : Dn) :
    (c.groupRenamed old new).groups
      = carryAll (fun _ _ members => members) old new
        (c.groups.entries.filter fun e => e.1.isWithin old) c.groups := rfl

/-- To list a name is to be cached with members of which it is one. -/
theorem lists_iff (c : GroupCache) (g d : Dn) :
    c.Lists g d ↔ ∃ ms, c.groups.get? g = some ms ∧ ms.contains d = true := by
  rw [Lists, membersOf]
  cases c.groups.get? g with
  | none => simp
  | some ms => simp

/-- Afterwards a group lists whom it is left to list when the groups within the old name have
    been taken along. -/
theorem lists_groupRenamed_leaves (c : GroupCache) (old new g d : Dn) :
    (c.groupRenamed old new).Lists g d
      ↔ c.groups.Leaves old new (fun k k' => compare k k' = .lt) c.Lists (fun k _ => c.Lists k)
          g d := by
  rw [lists_iff, groupRenamed_groups]
  exact NameMap.leaves_carryAll_same Dn.turns_lt (fun _ => List.mem_filter)
    (c.groups.ordered.filter _) c.lists_iff g d

/-- A renaming leads to the same name in another spelling, or to one that is apart from
    the old one and has no group with members within it. -/
def RenamesFreely (c : GroupCache) (old new : Dn) : Prop :=
  new.key = old.key
    ∨ (∀ x : Dn, x.isWithin old = true → x.isWithin new = false)
      ∧ ∀ g d, c.Lists g d → g.isWithin new = false

/-- Afterwards the groups outside the old name list whom they listed, and those within
    the new one whom the groups listed that they come from. -/
theorem lists_groupRenamed {c : GroupCache} {old new : Dn} (h : c.RenamesFreely old new)
    (g d : Dn) :
    (c.groupRenamed old new).Lists g d
      ↔ (g.isWithin old = false ∧ c.Lists g d)
        ∨ ∃ k r, k.rebase? old new = some r ∧ r.key = g.key ∧ c.Lists k d := by
  rw [lists_groupRenamed_leaves]
  refine or_congr (and_congr_right fun hout => and_iff_right_of_imp fun hlisted => ?_)
    (exists_congr fun k => exists_congr fun r => and_congr_right fun hr =>
      and_congr_right fun hg => and_iff_right ?_)
  · -- what lands is within the new name, where nobody is listed
    rintro ⟨k, -, r, hr, hg⟩
    have hin : g.isWithin new = true := by
      rw [← Dn.isWithin_congr hg]
      exact Dn.isWithin_new_of_rebase hr
    rcases h with hsame | ⟨-, hempty⟩
    · rw [Dn.isWithin_congr_base hsame, hout] at hin
      cases hin
    · rw [hempty g d hlisted] at hin
      cases hin
  · -- only a group itself is taken away from where it lands, if anything is
    rintro ⟨-, hin, hbefore⟩
    rcases h with hsame | ⟨hapart, -⟩
    · obtain ⟨rel, hrel, hrkey⟩ := Dn.key_rebase hr
      rw [hsame, ← hrel, hg] at hrkey
      exact Dn.turns_lt.asymm hbefore (Dn.turns_lt.congr hbefore hrkey.symm hrkey)
    · have hnew := hapart g hin
      rw [← Dn.isWithin_congr hg, Dn.isWithin_new_of_rebase hr] at hnew
      cases hnew

end GroupCache

end DirectoryAccess
