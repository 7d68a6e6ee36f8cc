import DirectoryAccess.Proofs.Cache.Mirror
import DirectoryAccess.Proofs.Name.Rekeying
import DirectoryAccess.Proofs.Server.Transition

/-! # The tuple cache — what each change does to what is kept

    The cache is known by what it keeps under each name.  A subentry that is added or
    modified is kept by what it carries, whatever its classes; a relocation takes what
    is kept along without looking at entries.  Caches that keep the same put the same
    tuples in force, everywhere and for every entry. -/

namespace DirectoryAccess

/-- What is kept of an entry is made of its prescriptive items and its area. -/
theorem CachedSubentry.ofEntry_iff (e : Entry) (a : CachedSubentry) :
    CachedSubentry.ofEntry e = .ok (some a)
      ↔ ∃ values, e.values? Attribute.prescriptiveAci = some values
        ∧ a = ⟨subentryArea e, AciTuple.ofValues values.toList⟩ := by
  cases hvalues : e.values? Attribute.prescriptiveAci with
  | none =>
      have hnone : CachedSubentry.ofEntry e ≠ .ok (some a) := by
        rw [CachedSubentry.ofEntry]
        cases validateSubentry e with
        | error err => exact fun h => by cases h
        | ok u =>
            rw [hvalues]
            exact fun h => by cases h
      refine iff_of_false hnone ?_
      rintro ⟨values, h, -⟩
      cases h
  | some values =>
      have hvalid : validateSubentry e = .ok () := by
        rw [validateSubentry, Entry.has, hvalues]
        simp
      have hkept : CachedSubentry.ofEntry e
          = .ok (some ⟨subentryArea e, AciTuple.ofValues values.toList⟩) := by
        rw [CachedSubentry.ofEntry, hvalid, hvalues]
        rfl
      rw [hkept]
      simp [eq_comm]

namespace Entry

/-- The entry of an access control subentry has these tuples and this area. -/
def Prescribes (e : Entry) (a : CachedSubentry) : Prop :=
  e.isAccessControlSubentry = true ∧ CachedSubentry.ofEntry e = .ok (some a)

/-- What is kept of an entry, and what it prescribes, is decided by three attributes. -/
theorem ofEntry_congr {e e' : Entry}
    (hitems : e.values? Attribute.prescriptiveAci = e'.values? Attribute.prescriptiveAci)
    (harea : e.values? Attribute.subtreeSpecification = e'.values? Attribute.subtreeSpecification)
    (hclass : e.values? Attribute.objectClass = e'.values? Attribute.objectClass) :
    e.isAccessControlSubentry = e'.isAccessControlSubentry
      ∧ CachedSubentry.ofEntry e = CachedSubentry.ofEntry e' := by
  have hsame : e.isAccessControlSubentry = e'.isAccessControlSubentry :=
    holds_congr hclass ObjectClass.accessControlSubentry
  refine ⟨hsame, ?_⟩
  rw [CachedSubentry.ofEntry, CachedSubentry.ofEntry, validateSubentry, validateSubentry,
    subentryArea, subentryArea, value?, value?, has, has, hitems, harea, hsame]

/-- Modifications that do not concern the cache leave what is kept of an entry, and what it
    prescribes. -/
theorem ofEntry_foldl_project {mods : List Modification} (h : TupleCache.concerns mods = false)
    (e : Entry) :
    (mods.foldl project e).isAccessControlSubentry = e.isAccessControlSubentry
      ∧ CachedSubentry.ofEntry (mods.foldl project e) = CachedSubentry.ofEntry e := by
  rw [TupleCache.concerns, Bool.or_eq_false_iff, Bool.or_eq_false_iff] at h
  obtain ⟨⟨hitems, harea⟩, hclass⟩ := h
  exact ofEntry_congr (values?_foldl_project (by decide) hitems e)
    (values?_foldl_project (by decide) harea e) (values?_foldl_project (by decide) hclass e)

end Entry

namespace TupleCache

-- ── Keeping ──────────────────────────────────────────────────────────────────────

/-- Keeping an entry under a name where nothing else is kept keeps what it carries. -/
theorem get?_keepUnder {c : TupleCache} {dn : Dn} {e : Entry}
    (h : ∀ b, c.subentries.get? dn = some b → CachedSubentry.ofEntry e = .ok (some b)) (x : Dn)
    (a : CachedSubentry) :
    (c.keepUnder dn e).subentries.get? x = some a
      ↔ (x.key = dn.key ∧ CachedSubentry.ofEntry e = .ok (some a))
        ∨ c.subentries.get? x = some a := by
  have hback : x.key = dn.key → c.subentries.get? x = some a →
      CachedSubentry.ofEntry e = .ok (some a) := by
    intro hx hget
    rw [NameMap.get?_congr c.subentries hx] at hget
    exact h a hget
  rw [keepUnder]
  split
  · next cached hkept =>
    show OrdMap.get? (c.subentries.insert dn cached) x = some a ↔ _
    rw [NameMap.get?_insert]
    by_cases hx : x.key = dn.key
    · rw [if_pos hx]
      constructor
      · intro ha
        rw [← Option.some.inj ha]
        exact Or.inl ⟨hx, hkept⟩
      · intro ha
        have ha : CachedSubentry.ofEntry e = .ok (some a) := ha.elim And.right (hback hx)
        cases hkept.symm.trans ha
        rfl
    · rw [if_neg hx]
      exact ⟨Or.inr, fun ha => ha.resolve_left fun hn => hx hn.1⟩
  · next hnone =>
    refine ⟨Or.inr, ?_⟩
    rintro (⟨-, ha⟩ | ha)
    · exact absurd ha (hnone a)
    · exact ha

/-- Keeping an entry changes nothing under other names. -/
theorem get?_keepUnder_of_ne (c : TupleCache) {dn x : Dn} (e : Entry) (hx : x.key ≠ dn.key) :
    (c.keepUnder dn e).subentries.get? x = c.subentries.get? x := by
  rw [keepUnder]
  split
  · exact (NameMap.get?_insert ..).trans (if_neg hx)
  · rfl

/-- An operation that relocates nothing leaves alone what is kept under every name but the
    one it acts on. -/
theorem get?_after_of_ne (c : TupleCache) (s s' : MemoryStore) {op : Operation}
    (hop : op.isRelocation = false) {x : Dn} (hx : x.key ≠ op.target.key) :
    (c.after s s' op).subentries.get? x = c.subentries.get? x := by
  have herased : ∀ dn : Dn, x.key ≠ dn.key →
      OrdMap.get? (c.subentries.erase dn) x = c.subentries.get? x := by
    intro dn hne
    exact (NameMap.get?_erase ..).trans (if_neg (Ne.symm hne))
  cases op with
  | add entry => exact c.get?_keepUnder_of_ne entry hx
  | delete dn =>
      simp only [after]
      split
      · split
        · exact herased dn hx
        · rfl
      · rfl
  | modify dn mods =>
      simp only [after]
      split
      · next post _ =>
        split
        · exact (get?_keepUnder_of_ne _ post hx).trans (herased dn hx)
        · rfl
      · rfl
  | rename _ _ _ | move _ _ | moveAndRename _ _ _ _ => cases hop
  | compare _ _ _ | lookup _ _ | hasEntry _ | search _ _ _ _ => rfl

/-- Keeping stored entries, of which those under the same name are the same, keeps what
    each of them carries. -/
theorem get?_foldl_keepStored {es : List Entry} {c : TupleCache}
    (hsame : ∀ e ∈ es, ∀ e' ∈ es, e.dn.key = e'.dn.key → e = e')
    (h : ∀ e ∈ es, ∀ b, c.subentries.get? e.dn = some b →
      CachedSubentry.ofEntry e = .ok (some b)) (x : Dn) (a : CachedSubentry) :
    (es.foldl keepStored c).subentries.get? x = some a
      ↔ (∃ e ∈ es, x.key = e.dn.key ∧ CachedSubentry.ofEntry e = .ok (some a))
        ∨ c.subentries.get? x = some a := by
  induction es generalizing c with
  | nil => simp
  | cons e rest ih =>
      have hkept : ∀ x a, (c.keepStored e).subentries.get? x = some a
          ↔ (x.key = e.dn.key ∧ CachedSubentry.ofEntry e = .ok (some a))
            ∨ c.subentries.get? x = some a :=
        get?_keepUnder (h e (List.mem_cons_self ..))
      have hrest : ∀ e' ∈ rest, ∀ b, (c.keepStored e).subentries.get? e'.dn = some b →
          CachedSubentry.ofEntry e' = .ok (some b) := by
        intro e' he' b hb
        have hmem : e' ∈ e :: rest := List.mem_cons_of_mem _ he'
        rcases (hkept e'.dn b).mp hb with ⟨hkey, hb⟩ | hb
        · rw [hsame e' hmem e (List.mem_cons_self ..) hkey]
          exact hb
        · exact h e' hmem b hb
      have hsame' : ∀ a ∈ rest, ∀ b ∈ rest, a.dn.key = b.dn.key → a = b :=
        fun a ha b hb => hsame a (List.mem_cons_of_mem _ ha) b (List.mem_cons_of_mem _ hb)
      rw [List.foldl_cons, ih hsame' hrest, hkept]
      simp only [List.mem_cons, exists_eq_or_imp, or_assoc]
      exact or_left_comm

-- ── Loading ──────────────────────────────────────────────────────────────────────

/-- A fresh cache of a store. -/
def loaded (s : MemoryStore) : TupleCache :=
  (s.suffixes.flatMap (s.foundBelow subentryFilter)).foldl keepStored empty

/-- Loading makes a fresh cache, and never fails. -/
theorem load_loaded (s : MemoryStore) : load s = .ok (loaded s) s := load_ok s

/-- A fresh cache keeps what the subentries of the store prescribe. -/
theorem get?_loaded {s : MemoryStore} (hs : s.Named) (x : Dn) (a : CachedSubentry) :
    (loaded s).subentries.get? x = some a ↔ s.Shows Entry.Prescribes x a := by
  have hnone : ∀ x (a : CachedSubentry), empty.subentries.get? x ≠ some a := by
    intro x a h
    cases h
  have hmet : ∀ e : Entry, subentryFilter.isMetBy e = e.isAccessControlSubentry := fun _ => rfl
  have hfound := hs.shows_iff_found (fun e a (h : e.Prescribes a) => (hmet e).trans h.1) x a
  rw [loaded, get?_foldl_keepStored (fun e he e' he' => hs.eq_of_found he he')
    fun e _ b h => absurd h (hnone e.dn b), or_iff_left (hnone x a), hfound]
  refine exists_congr fun e => and_congr_right fun he => and_congr_right fun _ => ?_
  rw [Entry.Prescribes, ← hmet, (MemoryStore.mem_found.mp he).2, and_iff_right rfl]

-- ── Relocating ───────────────────────────────────────────────────────────────────

/-- A relocation to a name that is not below the old one takes along what is kept within
    the old name, under the name itself first. -/
theorem relocated_subentries (c : TupleCache) {old new : Dn}
    (h : new.isWithin old = true → new.same old = true) :
    (c.relocated old new).subentries
      = carryAll (fun _ _ cached => cached) old new (c.subentries.topFirst old) c.subentries := by
  rw [relocated]
  cases hold : c.subentries.get? old with
  | none =>
      rw [NameMap.topFirst_of_none hold]
      rfl
  | some cached =>
      obtain ⟨k, hkey, hlist⟩ := NameMap.topFirst_of_some hold
      have hbelow : ∀ a b : Dn, a.key = b.key → a.isDescendantOf old = b.isDescendantOf old :=
        fun _ _ hab => Dn.isDescendantOf_congr hab old
      have hout : ∀ {x : Dn}, (x.isWithin old = true → x.same old = true) →
          x.isDescendantOf old = false := by
        intro x hx
        rw [← Bool.not_eq_true, Dn.isDescendantOf_iff]
        rintro ⟨hin, hne⟩
        exact hne ((Dn.same_iff x old).mp (hx ((Dn.isWithin_iff x old).mpr hin))).symm
      -- neither the new name nor the old one is strictly below the old one
      have hmoved : ((c.subentries.erase old).insert new cached).entries.filter
            (fun e => e.1.isDescendantOf old)
          = c.subentries.entries.filter fun e => e.1.isDescendantOf old := by
        refine (NameMap.filter_insert hbelow _ cached (hout h)).trans ?_
        exact NameMap.filter_erase hbelow _ (hout fun _ => (Dn.same_iff old old).mpr rfl)
      show List.foldl _ ((c.subentries.erase old).insert new cached) (List.filter _ _) = _
      rw [hmoved, hlist, carryAll, List.foldl_cons,
        carry_of_rebase c.subentries (e := (k, cached)) (Dn.rebase_self hkey new),
        NameMap.erase_congr c.subentries hkey]
      rfl

/-- Afterwards there is kept what is left when all that is kept within the old name has been
    taken along, under the name itself first. -/
theorem get?_relocated_leaves (c : TupleCache) {old new : Dn}
    (h : new.isWithin old = true → new.same old = true) (x : Dn) (a : CachedSubentry) :
    (c.relocated old new).subentries.get? x = some a
      ↔ c.subentries.Leaves old new old.Before (fun k a => c.subentries.get? k = some a)
          (fun k _ a => c.subentries.get? k = some a) x a := by
  have hone : ∀ (m : NameMap CachedSubentry) (x : Dn) (a : CachedSubentry),
      m.get? x = some a ↔ ∃ v, m.get? x = some v ∧ v = a := fun m x _ =>
    (exists_eq_right (p := fun v => m.get? x = some v)).symm
  rw [c.relocated_subentries h, hone]
  exact NameMap.leaves_carryAll_same (Dn.turns_before old) (fun _ => NameMap.mem_topFirst)
    (c.subentries.topFirst_before old) (hone c.subentries) x a

/-- Along a clear way everything that is kept is taken along. -/
theorem get?_relocated (c : TupleCache) {old new : Dn}
    (h : new.isWithin old = true → new.same old = true)
    (hclear : ClearWay old new (c.subentries.topFirst old) c.subentries) (x : Dn)
    (a : CachedSubentry) :
    (c.relocated old new).subentries.get? x = some a
      ↔ (x.isWithin old = false ∧ c.subentries.get? x = some a)
        ∨ ∃ k r, k.rebase? old new = some r ∧ r.key = x.key ∧ c.subentries.get? k = some a := by
  rw [c.relocated_subentries h, get?_carryAll_of_clear (fun _ => NameMap.mem_topFirst)
    (c.subentries.topFirst_distinct old) hclear]
  refine or_congr_right ⟨?_, ?_⟩
  · rintro ⟨e, he, r, hr, hkey, rfl⟩
    exact ⟨e.1, r, hr, hkey, OrdMap.get?_of_mem _ (NameMap.mem_topFirst.mp he).1⟩
  · rintro ⟨k, r, hr, hkey, ha⟩
    obtain ⟨k', hk', hkey'⟩ := NameMap.mem_of_get? c.subentries ha
    obtain ⟨r', hr', hrkey⟩ := Dn.rebase_congr hkey'.symm hr
    exact ⟨(k', a), NameMap.mem_topFirst.mpr ⟨hk', Dn.isWithin_of_rebase hr'⟩, r', hr',
      hrkey.trans hkey, rfl⟩

end TupleCache

-- ── Putting in force ─────────────────────────────────────────────────────────────

namespace SubtreeSpecification

/-- An area is the same below every spelling of an administrative point. -/
theorem selects_congr (spec : SubtreeSpecification) {a b : Dn} (h : a.key = b.key) (dn : Dn)
    (entry : Option Entry) : spec.selects a dn entry = spec.selects b dn entry := by
  have hconcat : ∀ d x : Dn, (d.concat x).key = d.key ++ x.key := fun d x => List.map_append
  have hbase : (spec.base.concat a).key = (spec.base.concat b).key := by
    rw [hconcat, hconcat, h]
  have hdepth : (spec.base.concat a).depth = (spec.base.concat b).depth := by
    rw [← Dn.length_key, ← Dn.length_key, hbase]
  have hrel : dn.relativeTo? (spec.base.concat a) = dn.relativeTo? (spec.base.concat b) := by
    rw [Dn.relativeTo?, Dn.relativeTo?, Dn.isWithin_congr_base hbase, hdepth]
  have hwithin : ∀ chop : Dn, dn.isWithin (chop.concat (spec.base.concat a))
      = dn.isWithin (chop.concat (spec.base.concat b)) := by
    intro chop
    refine Dn.isWithin_congr_base ?_ dn
    rw [hconcat, hconcat chop, hbase]
  have hbelow : ∀ chop : Dn, dn.isDescendantOf (chop.concat (spec.base.concat a))
      = dn.isDescendantOf (chop.concat (spec.base.concat b)) := by
    intro chop
    refine Dn.isDescendantOf_congr_base ?_ dn
    rw [hconcat, hconcat chop, hbase]
  have hexcludes : spec.excludes (spec.base.concat a) dn
      = spec.excludes (spec.base.concat b) dn := by
    simp only [excludes, hwithin, hbelow]
  simp only [selects, hrel, hexcludes]

end SubtreeSpecification

namespace TupleCache

/-- What a subentry selects does not depend on how its name is written. -/
theorem areaSelects_congr {k k' : Dn} (h : k.key = k'.key) (cached : CachedSubentry) (dn : Dn)
    (entry : Option Entry) : areaSelects k cached dn entry = areaSelects k' cached dn entry := by
  obtain ⟨rdns⟩ := k
  obtain ⟨rdns'⟩ := k'
  cases rdns with
  | nil =>
      cases rdns' with
      | nil => rfl
      | cons r rest => cases h
  | cons r rest =>
      cases rdns' with
      | nil => cases h
      | cons r' rest' =>
          have hparent : (⟨rest⟩ : Dn).key = (⟨rest'⟩ : Dn).key := (List.cons.inj h).2
          simp only [areaSelects, Dn.parent?]
          cases cached.subtree with
          | none => rfl
          | some area => exact area.selects_congr hparent dn entry

/-- Caches that keep the same put the same tuples in force, at every name and for every
    entry. -/
theorem prescriptiveTuples_congr {c c' : TupleCache}
    (h : ∀ x, c.subentries.get? x = c'.subentries.get? x) (dn : Dn) (entry : Option Entry) :
    c.prescriptiveTuples dn entry = c'.prescriptiveTuples dn entry := by
  have hcontent : c.subentries.entries.map (fun e => (e.1.key, e.2))
      = c'.subentries.entries.map fun e => (e.1.key, e.2) := NameMap.content_eq h
  rw [prescriptiveTuples, prescriptiveTuples]
  generalize c.subentries.entries = l, c'.subentries.entries = l' at hcontent
  induction l generalizing l' with
  | nil =>
      rw [List.map_nil, eq_comm, List.map_eq_nil_iff] at hcontent
      rw [hcontent]
  | cons d rest ih =>
      cases l' with
      | nil => cases hcontent
      | cons e more =>
          obtain ⟨hhead, htail⟩ := List.cons.inj hcontent
          obtain ⟨hkey, hvalue⟩ := Prod.mk.inj hhead
          have hselects : areaSelects d.1 d.2 dn entry = areaSelects e.1 e.2 dn entry := by
            rw [areaSelects_congr hkey, hvalue]
          rw [List.filter_cons, List.filter_cons, hselects]
          split
          · rw [List.flatMap_cons, List.flatMap_cons, hvalue, ih _ htail]
          · exact ih _ htail

end TupleCache

end DirectoryAccess
