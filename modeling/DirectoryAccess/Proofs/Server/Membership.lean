import DirectoryAccess.Proofs.Authorization.Limits
import DirectoryAccess.Proofs.Name.CaseBlind
import DirectoryAccess.Proofs.Server.GroupCoherence
import DirectoryAccess.Proofs.Store.Projection

/-! # Membership — who is cached as a member is still listed

    A modification of a group changes values in store and names in the cache.  Storage
    removes the values that are the same but for the case of ASCII letters, and the cache
    removes the names that are spelled, in whatever spelling.  So the cache removes a name
    whenever storage removes a spelling of it, and never keeps a name of which no spelling
    is left.  It may lose a name of which another spelling is left. -/

namespace DirectoryAccess

-- ── Spellings ────────────────────────────────────────────────────────────────────

/-- A value of a list spells a name. -/
def Spells (values : List String) (d : Dn) : Prop :=
  ∃ v ∈ values, ∃ d', Dn.parse v = .ok d' ∧ d.key = d'.key

/-- A name is among the members that values are read as exactly if they spell it. -/
theorem exists_mem_parseMembers (values : List String) (d : Dn) :
    (∃ d' ∈ parseMembers values, d.key = d'.key) ↔ Spells values d := by
  constructor
  · rintro ⟨d', hd', hkey⟩
    obtain ⟨v, hv, hread⟩ := List.mem_filterMap.mp hd'
    cases hparse : Dn.parse v with
    | error e =>
        rw [hparse] at hread
        cases hread
    | ok d'' =>
        rw [hparse] at hread
        cases hread
        exact ⟨v, hv, d', hparse, hkey⟩
  · rintro ⟨v, hv, d', hparse, hkey⟩
    refine ⟨d', List.mem_filterMap.mpr ⟨v, hv, ?_⟩, hkey⟩
    rw [hparse]
    rfl

/-- Of two values that are the same but for the case of ASCII letters both spell a name, or
    neither does. -/
theorem Spells.of_same {u v : String} {values : List String} {d d' : Dn} (hv : v ∈ values)
    (h : Text.sameIgnoringAsciiCase u v = true) (hparse : Dn.parse u = .ok d')
    (hkey : d.key = d'.key) : Spells values d := by
  obtain ⟨d'', hparse', hsame⟩ := Dn.parse_of_same h hparse
  exact ⟨v, hv, d'', hparse', hkey.trans hsame.symm⟩

/-- The names that a group lists are those that its values spell. -/
theorem Entry.lists_iff_spells {e : Entry} {attr : String} (h : e.memberAttr? = some attr)
    (d : Dn) : e.Lists d ↔ Spells (e.valuesAt attr).toList d := by
  have hown : attr.toList.all Text.isOwnLetter = true := by
    rcases memberAttr?_cases h with rfl | rfl <;> decide
  have hvalues : e.values? attr = e.attrs.get? attr := Attributes.values?_of_own e.attrs hown
  have hlisted : e.members = OrdSet.ofList (parseMembers (e.valuesAt attr).toList) := by
    rw [members, memberSet?, h, valuesAt, Attributes.valuesAt, ← hvalues]
    show ((e.values? attr).bind fun values =>
      some (OrdSet.ofList (parseMembers values.toList))).getD OrdSet.empty = _
    cases e.values? attr <;> rfl
  rw [Lists, hlisted, OrdSet.contains_ofList, ← exists_mem_parseMembers]
  simp only [Dn.compare_eq_iff]

-- ── One modification ─────────────────────────────────────────────────────────────

/-- A modification whose name is in lower case is about an attribute only under its name. -/
theorem Modification.IsLower.lowercase_eq {m : Modification} (h : m.IsLower) {attr : String}
    (hown : attr.toList.all Text.isOwnLetter = true) (habout : m.isAbout attr = true) :
    Text.lowercase m.attr = attr := by
  have hsame : Text.asciiLower m.attr = Text.asciiLower attr := eq_of_beq habout
  rw [Text.asciiLower_of_noUpper (Text.hasNoUpper_of_own hown)] at hsame
  exact h.plain.trans hsame

/-- Every cached name is spelled by a value. -/
def Spelled (members : NameSet) (values : ValueSet) : Prop :=
  ∀ d, members.contains d = true → Spells values.toList d

/-- A modification that the cache makes of names, and storage of values, leaves every cached
    name spelled. -/
theorem Spelled.after {members : NameSet} {values : ValueSet} (h : Spelled members values)
    (m : Modification) :
    Spelled (GroupCache.membersAfter members m) (Attributes.valuesAfter values m) := by
  intro d hd
  cases m with
  | add n vs =>
      have hmem : ∀ v, v ∈ (values.insertAll vs).toList ↔ v ∈ vs ∨ v ∈ values.toList := by
        intro v
        rw [← OrdSet.contains_iff_mem, ← OrdSet.contains_iff_mem, OrdSet.contains_insertAll]
        simp [Std.LawfulEqCmp.compare_eq_iff_eq]
      show Spells (values.insertAll vs).toList d
      rw [GroupCache.membersAfter, OrdSet.contains_insertAll] at hd
      simp only [Dn.compare_eq_iff] at hd
      rcases hd with hadded | hkept
      · obtain ⟨v, hv, hread⟩ := (exists_mem_parseMembers vs d).mp hadded
        exact ⟨v, (hmem v).mpr (Or.inl hv), hread⟩
      · obtain ⟨v, hv, hread⟩ := h d hkept
        exact ⟨v, (hmem v).mpr (Or.inr hv), hread⟩
  | remove n vs =>
      cases vs with
      | nil => cases hd
      | cons r rest =>
          rw [GroupCache.membersAfter, OrdSet.contains_foldl_erase] at hd
          · obtain ⟨hnot, hcached⟩ := hd
            obtain ⟨v, hv, d', hparse, hkey⟩ := h d hcached
            refine ⟨v, (Attributes.mem_foldl_filter values (r :: rest) v).mpr ⟨hv, ?_⟩,
              d', hparse, hkey⟩
            -- if storage removed the spelling, the cache would have removed the name
            intro u hu
            rw [← Bool.not_eq_true]
            intro hsame
            obtain ⟨d'', hd'', hkey'⟩ :=
              (exists_mem_parseMembers (r :: rest) d).mpr (Spells.of_same hu hsame hparse hkey)
            exact hnot d'' hd'' ((Dn.compare_eq_iff d'' d).mpr hkey'.symm)
          · exact List.cons_ne_nil r rest
  | replace n vs =>
      have hmem : ∀ v, v ∈ (OrdSet.ofList vs).toList ↔ v ∈ vs := by
        intro v
        rw [← OrdSet.contains_iff_mem, OrdSet.contains_ofList]
        simp [Std.LawfulEqCmp.compare_eq_iff_eq]
      rw [GroupCache.membersAfter, OrdSet.contains_ofList] at hd
      simp only [Dn.compare_eq_iff] at hd
      obtain ⟨v, hv, hread⟩ := (exists_mem_parseMembers vs d).mp hd
      exact ⟨v, (hmem v).mpr hv, hread⟩

-- ── A list of modifications ──────────────────────────────────────────────────────

/-- Of modifications with names in lower case, those about an attribute make what becomes of
    its values. -/
theorem Entry.valuesAt_foldl_project {attr : String}
    (hown : attr.toList.all Text.isOwnLetter = true) (hother : attr ≠ Attribute.objectClass)
    {mods : List Modification} (hlower : ∀ m ∈ mods, m.IsLower) (e : Entry) :
    (mods.foldl Entry.project e).valuesAt attr
      = (mods.filter fun m => m.isAbout attr).foldl Attributes.valuesAfter (e.valuesAt attr) := by
  induction mods generalizing e with
  | nil => rfl
  | cons m rest ih =>
      obtain ⟨hm, hrest⟩ := List.forall_mem_cons.mp hlower
      rw [List.foldl_cons, ih hrest]
      cases habout : m.isAbout attr with
      | true =>
          rw [List.filter_cons, if_pos habout, List.foldl_cons]
          congr 1
          exact Attributes.valuesAt_project e.attrs (hm.lowercase_eq hown habout) hother
      | false =>
          rw [List.filter_cons, habout, if_neg Bool.false_ne_true]
          congr 1
          have hne : attr ≠ Text.lowercase m.attr := by
            intro hsame
            rw [isAbout_of_lowercase hown hsame.symm] at habout
            cases habout
          show ((e.attrs.project m).get? attr).getD OrdSet.empty = _
          rw [Attributes.get?_project_of_ne e.attrs m hne]
          rfl

/-- Modifications of a group leave every cached name spelled. -/
theorem Spelled.foldl {members : NameSet} {values : ValueSet} (h : Spelled members values)
    (mods : List Modification) :
    Spelled (mods.foldl GroupCache.membersAfter members)
      (mods.foldl Attributes.valuesAfter values) := by
  induction mods generalizing members values with
  | nil => exact h
  | cons m rest ih => exact ih (h.after m)

-- ── A group ──────────────────────────────────────────────────────────────────────

/-- Modifications that do not touch the object classes leave the attribute of members what
    it is. -/
theorem Entry.memberAttr?_foldl_project {mods : List Modification}
    (h : touches mods Attribute.objectClass = false) (e : Entry) :
    (mods.foldl Entry.project e).memberAttr? = e.memberAttr? := by
  have hclasses : ∀ name, (mods.foldl Entry.project e).hasClass name = e.hasClass name :=
    holds_congr (values?_foldl_project (by decide) h e)
  rw [memberAttr?, memberAttr?, hclasses, hclasses]

namespace GroupCache

variable {c : GroupCache} {dn : Dn} {e : Entry} {mods : List Modification}

/-- Where only names are cached that a group lists, only names are cached afterwards that it
    lists with its values modified. -/
theorem listed_of_groupModified (hcached : ∀ d, c.Lists dn d → e.Lists d)
    (hlower : ∀ m ∈ mods, m.IsLower) (hclass : touches mods Attribute.objectClass = false)
    {d : Dn} (hd : (c.groupModified dn mods e).Lists dn d) :
    (mods.foldl Entry.project e).Lists d := by
  rw [Lists, membersOf_groupModified, if_pos rfl, Entry.followed] at hd
  have hkept := Entry.memberAttr?_foldl_project hclass e
  cases hattr : e.memberAttr? with
  | none =>
      rw [hattr] at hd
      have hnone := hcached d hd
      rw [Entry.Lists, Entry.members, memberSet?, hattr] at hnone
      cases hnone
  | some attr =>
      rw [hattr] at hd hkept
      have hown : attr.toList.all Text.isOwnLetter = true ∧ attr ≠ Attribute.objectClass := by
        rcases Entry.memberAttr?_cases hattr with rfl | rfl <;> decide
      have hstart : Spelled (c.membersOf dn) (e.valuesAt attr) :=
        fun d hd => (Entry.lists_iff_spells hattr d).mp (hcached d hd)
      rw [Entry.lists_iff_spells hkept, Entry.valuesAt_foldl_project hown.1 hown.2 hlower]
      exact hstart.foldl (mods.filter fun m => m.isAbout attr) d hd

/-- **NO STALE MEMBERSHIP**: if only names that a stored group lists are cached as its
    members, then after modifications that storage accepts, whose names are in lower case
    and of which none touches the object classes, only names are cached that the group lists
    as it is stored now. -/
theorem no_stale_membership {s s' : MemoryStore} (hstored : s.lookup dn = some e)
    (hcached : ∀ d, c.Lists dn d → e.Lists d) (hlower : ∀ m ∈ mods, m.IsLower)
    (hclass : touches mods Attribute.objectClass = false) (hstep : s.modify dn mods = .ok s') :
    ∃ e', s'.lookup dn = some e' ∧ ∀ d, (c.groupModified dn mods e).Lists dn d → e'.Lists d := by
  obtain ⟨e₀, he₀, -, rfl⟩ := MemoryStore.modify_ok hstep
  cases he₀.symm.trans hstored
  refine ⟨mods.foldl Entry.project e, ?_, fun d hd => ?_⟩
  · exact (NameMap.get?_insert ..).trans (if_pos rfl)
  · exact listed_of_groupModified hcached hlower hclass hd

end GroupCache

-- ── A small group ────────────────────────────────────────────────────────────────

namespace Server

/-- Another member of the group. -/
def otherMember : Dn := topName.child (component "cn" "b" (by decide))

/-- The other member is added, and the deputy is removed in a third spelling. -/
def memberChanges : List Modification :=
  [.add Attribute.member ["cn=b,dc=x"], .remove Attribute.member ["CN=A,DC=X"]]

/-- A server with the group, whose only member is the deputy. -/
def memberServer : Server MemoryStore := (fresh groupConfig [topName]).run groupAdditions

/-- What is cached of the groups after the changes. -/
def changedGroups : GroupCache :=
  memberServer.world.groups.groupModified adminGroupName memberChanges adminGroup

/-- The other member is cached and listed.  The deputy is not cached any more, though a
    spelling of the deputy is left. -/
theorem removed_member_not_cached :
    changedGroups.Lists adminGroupName otherMember
      ∧ ¬changedGroups.Lists adminGroupName deputyName
      ∧ ∃ s', memberServer.world.store.modify adminGroupName memberChanges = .ok s'
        ∧ ∃ e', s'.lookup adminGroupName = some e'
          ∧ ∀ d, changedGroups.Lists adminGroupName d → e'.Lists d := by
  have hother : (changedGroups.membersOf adminGroupName).contains otherMember = true := by
    decide +kernel
  have hdeputy : (changedGroups.membersOf adminGroupName).contains deputyName = false := by
    decide +kernel
  have hstored : memberServer.world.store.lookup adminGroupName = some adminGroup := by rfl
  have hmembers : memberServer.world.groups.membersOf adminGroupName = adminGroup.members := by
    rfl
  have hcached : ∀ d, memberServer.world.groups.Lists adminGroupName d → adminGroup.Lists d := by
    intro d hd
    rw [GroupCache.Lists, hmembers] at hd
    exact hd
  have hlower : ∀ m ∈ memberChanges, Text.lowercase m.attr = m.attr := by decide +kernel
  obtain ⟨s', hs'⟩ : ∃ s', memberServer.world.store.modify adminGroupName memberChanges
      = .ok s' := ⟨_, rfl⟩
  refine ⟨hother, fun h => ?_, s', hs', ?_⟩
  · rw [GroupCache.Lists, hdeputy] at h
    cases h
  · exact GroupCache.no_stale_membership hstored hcached hlower (by decide) hs'

-- ── A server ─────────────────────────────────────────────────────────────────────

/-- Every name that is cached as a member of a group is listed by the stored group. -/
def NothingStale (server : Server MemoryStore) : Prop :=
  ∀ g d, server.world.groups.Lists g d →
    ∃ e, server.world.store.lookup g = some e ∧ e.Lists d

/-- Where nothing stale is cached, nothing stale is after such modifications, whoever asks for
    them and whether or not they succeed. -/
theorem NothingStale.modify {config : Configuration} {server : Server MemoryStore}
    (hstale : server.NothingStale) (h : Standard config server) (session : Session) (dn : Dn)
    {mods : List Modification} (hlower : ∀ m ∈ mods, m.IsLower)
    (hclass : touches mods Attribute.objectClass = false) :
    (server.step session (.modify dn mods)).2.NothingStale := by
  rcases h.step_cases session (.modify dn mods) with ⟨-, hsame⟩ | ⟨-, w, hw, ⟨s', hs', rfl⟩, -⟩
  · rw [hsame]
    exact hstale
  · rw [hw]
    intro g d hd
    obtain ⟨e, he, -, rfl⟩ := MemoryStore.modify_ok hs'
    have he : server.world.store.lookup dn = some e := he
    have hcached : ∀ d, server.world.groups.Lists dn d → e.Lists d := by
      intro d hd
      obtain ⟨e₀, he₀, hlists⟩ := hstale dn d hd
      cases he.symm.trans he₀
      exact hlists
    have hafter : server.world.groups.after server.world.store (.modify dn mods)
        = server.world.groups.groupModified dn mods e := by
      rw [GroupCache.after, he]
    have hd : (server.world.groups.groupModified dn mods e).Lists g d := by
      rw [← hafter]
      exact hd
    by_cases hg : g.key = dn.key
    · refine ⟨mods.foldl Entry.project e, (NameMap.get?_insert ..).trans (if_pos hg), ?_⟩
      rw [GroupCache.Lists, GroupCache.membersOf_congr _ hg] at hd
      exact GroupCache.listed_of_groupModified hcached hlower hclass hd
    · rw [GroupCache.Lists, GroupCache.membersOf_groupModified, if_neg hg] at hd
      obtain ⟨e₀, he₀, hlists⟩ := hstale g d hd
      exact ⟨e₀, (MemoryStore.lookup_after hs' rfl hg).trans he₀, hlists⟩

end Server

end DirectoryAccess
