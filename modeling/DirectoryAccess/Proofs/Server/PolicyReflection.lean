import DirectoryAccess.Proofs.Server.PolicyCoherence

/-! # Reflection — the tuple cache against the entries as they are stored

    Whether a search would find an entry is one thing, and what is stored under its
    name is another.  The tuple cache REFLECTS a store if it keeps something under the
    names of the entries with prescriptive items and no others, and there what these
    entries say.  Operations that leave names alone leave it so, in any state and
    whoever asks for them: one addition, deletion or modification is one change in
    the store and the same change in the cache. -/

namespace DirectoryAccess

/-- The cache keeps something under the names of the stored entries with prescriptive
    items and no others: the tuples that an entry holds, and the area that it specifies. -/
structure TupleCache.Reflects (c : TupleCache) (s : MemoryStore) : Prop where
  names : ∀ x, c.contains x = true
    ↔ ∃ e, s.lookup x = some e ∧ e.has Attribute.prescriptiveAci = true
  kept : ∀ x a e, c.subentries.get? x = some a → s.lookup x = some e →
    a.tuples = heldTuples e Attribute.prescriptiveAci ∧ a.subtree = subentryArea e

/-- This is to be kept of the entry that is stored under a name. -/
def MemoryStore.Offers (s : MemoryStore) (x : Dn) (a : CachedSubentry) : Prop :=
  ∃ e, s.lookup x = some e ∧ CachedSubentry.ofEntry e = .ok (some a)

/-- What is kept of an entry is its tuples and its area, if it has prescriptive items. -/
theorem CachedSubentry.ofEntry_iff_held (e : Entry) (a : CachedSubentry) :
    CachedSubentry.ofEntry e = .ok (some a)
      ↔ e.has Attribute.prescriptiveAci = true
        ∧ a.tuples = heldTuples e Attribute.prescriptiveAci ∧ a.subtree = subentryArea e := by
  rw [ofEntry_iff, Entry.has, heldTuples]
  cases e.values? Attribute.prescriptiveAci with
  | none =>
      refine iff_of_false ?_ fun h => Bool.false_ne_true h.1
      rintro ⟨_, hvalues, -⟩
      cases hvalues
  | some values =>
      constructor
      · rintro ⟨_, hvalues, rfl⟩
        cases hvalues
        exact ⟨rfl, rfl, rfl⟩
      · rintro ⟨-, htuples, harea⟩
        refine ⟨values, rfl, ?_⟩
        obtain ⟨area, tuples⟩ := a
        exact congrArg₂ CachedSubentry.mk harea htuples

namespace TupleCache

section

variable {c : TupleCache} {s s' : MemoryStore}

/-- A cache reflects a store if it keeps just what is to be kept of the entry under each
    name. -/
theorem reflects_iff : c.Reflects s ↔ ∀ x a, c.subentries.get? x = some a ↔ s.Offers x a := by
  constructor
  · intro h x a
    constructor
    · intro ha
      obtain ⟨e, he, hitems⟩ := (h.names x).mp ((OrdMap.contains_iff ..).mpr ⟨a, ha⟩)
      exact ⟨e, he, (CachedSubentry.ofEntry_iff_held e a).mpr ⟨hitems, h.kept x a e ha he⟩⟩
    · rintro ⟨e, he, ha⟩
      obtain ⟨hitems, htuples, harea⟩ := (CachedSubentry.ofEntry_iff_held e a).mp ha
      obtain ⟨b, hb⟩ := (OrdMap.contains_iff ..).mp ((h.names x).mpr ⟨e, he, hitems⟩)
      obtain ⟨htuples', harea'⟩ := h.kept x b e hb he
      rw [hb]
      obtain ⟨area, tuples⟩ := a
      exact congrArg some (congrArg₂ CachedSubentry.mk (harea'.trans harea.symm)
        (htuples'.trans htuples.symm))
  · intro h
    refine ⟨fun x => ?_, fun x a e ha he => ?_⟩
    · rw [contains, OrdMap.contains_iff]
      constructor
      · rintro ⟨a, ha⟩
        obtain ⟨e, he, hkept⟩ := (h x a).mp ha
        exact ⟨e, he, ((CachedSubentry.ofEntry_iff_held e a).mp hkept).1⟩
      · rintro ⟨e, he, hitems⟩
        let a : CachedSubentry := ⟨subentryArea e, heldTuples e Attribute.prescriptiveAci⟩
        exact ⟨a, (h x a).mpr
          ⟨e, he, (CachedSubentry.ofEntry_iff_held e a).mpr ⟨hitems, rfl, rfl⟩⟩⟩
    · obtain ⟨e', he', hkept⟩ := (h x a).mp ha
      cases Option.some.inj (he'.symm.trans he)
      exact ((CachedSubentry.ofEntry_iff_held e a).mp hkept).2

/-- What is to be kept under a name, read off the entry there. -/
theorem offers_of_lookup {x : Dn} {e : Entry} (he : s.lookup x = some e) (a : CachedSubentry) :
    s.Offers x a ↔ CachedSubentry.ofEntry e = .ok (some a) := by
  rw [MemoryStore.Offers, he]
  simp

-- ── One change in the store, one in the cache ────────────────────────────────────

/-- Under a name where nothing has been kept, just what is to be kept of the entry is kept
    afterwards. -/
theorem get?_keepUnder_self {dn : Dn} (hnone : c.subentries.get? dn = none) (e : Entry)
    (a : CachedSubentry) :
    (c.keepUnder dn e).subentries.get? dn = some a
      ↔ CachedSubentry.ofEntry e = .ok (some a) := by
  rw [get?_keepUnder fun b hb => by rw [hnone] at hb; cases hb]
  simp [hnone]

/-- Under the name of an added entry just what is to be kept of it is kept. -/
theorem Reflects.added (h : c.Reflects s) {entry : Entry} (hstep : s.add entry = .ok s')
    (a : CachedSubentry) :
    (c.keepUnder entry.dn entry).subentries.get? entry.dn = some a ↔ s'.Offers entry.dn a := by
  obtain ⟨hfree, -, hs'⟩ := MemoryStore.add_ok hstep
  have hfree : s.lookup entry.dn = none := (OrdMap.contains_eq_false_iff ..).mp hfree
  have hnone : c.subentries.get? entry.dn = none := by
    refine Option.eq_none_iff_forall_ne_some.mpr fun a ha => ?_
    obtain ⟨e, he, -⟩ := (reflects_iff.mp h entry.dn a).mp ha
    cases hfree.symm.trans he
  have hself : s'.lookup entry.dn = some entry := by
    rw [hs']
    exact (NameMap.get?_insert ..).trans (if_pos rfl)
  exact (get?_keepUnder_self hnone entry a).trans (offers_of_lookup hself a).symm

/-- Under the name of a deleted entry nothing is kept. -/
theorem Reflects.deleted (h : c.Reflects s) {dn : Dn} (hstep : s.delete dn = .ok s')
    (a : CachedSubentry) :
    (c.after s s' (.delete dn)).subentries.get? dn = some a ↔ s'.Offers dn a := by
  obtain ⟨hthere, -, hs'⟩ := MemoryStore.delete_ok hstep
  obtain ⟨e, he⟩ := (OrdMap.contains_iff ..).mp hthere
  have he : s.lookup dn = some e := he
  have hgone : s'.lookup dn = none := by
    rw [hs']
    exact (NameMap.get?_erase ..).trans (if_pos rfl)
  refine iff_of_false (fun ha => ?_) fun ⟨e', he', _⟩ => by cases hgone.symm.trans he'
  simp only [after, he] at ha
  split at ha
  · cases ((NameMap.get?_erase c.subentries dn dn).trans (if_pos rfl)).symm.trans ha
  · next hitems =>
    -- nothing has been kept of an entry without prescriptive items
    have hkept := (offers_of_lookup he a).mp ((reflects_iff.mp h dn a).mp ha)
    exact hitems ((CachedSubentry.ofEntry_iff_held e a).mp hkept).1

/-- Under the name of a modified entry just what is to be kept of it now is kept, also where
    the cache has not looked at it again. -/
theorem Reflects.modified (h : c.Reflects s) {dn : Dn} {mods : List Modification}
    (hstep : s.modify dn mods = .ok s') (a : CachedSubentry) :
    (c.after s s' (.modify dn mods)).subentries.get? dn = some a ↔ s'.Offers dn a := by
  obtain ⟨e, he, -, -⟩ := MemoryStore.modify_ok hstep
  have he : s.lookup dn = some e := he
  obtain ⟨hself, -⟩ := MemoryStore.modified he hstep
  simp only [after, hself]
  split
  · have hnone : (TupleCache.mk (c.subentries.erase dn)).subentries.get? dn = none :=
      (NameMap.get?_erase c.subentries dn dn).trans (if_pos rfl)
    exact (get?_keepUnder_self hnone _ a).trans (offers_of_lookup hself a).symm
  · next hconcerns =>
    have hsame := (Entry.ofEntry_foldl_project (eq_false_of_ne_true hconcerns) e).2
    rw [reflects_iff.mp h, offers_of_lookup he, offers_of_lookup hself, hsame]

/-- What the cache makes of an operation that relocates nothing reflects what the store
    makes of it. -/
theorem Reflects.after (h : c.Reflects s) {op : Operation} (hstep : s.after op = .ok s')
    (hop : op.isRelocation = false) : (c.after s s' op).Reflects s' := by
  have hself : ∀ a, (c.after s s' op).subentries.get? op.target = some a
      ↔ s'.Offers op.target a := by
    cases op with
    | add entry => exact h.added hstep
    | delete dn => exact h.deleted hstep
    | modify dn mods => exact h.modified hstep
    | rename _ _ _ | move _ _ | moveAndRename _ _ _ _ => cases hop
    | compare _ _ _ | lookup _ _ | hasEntry _ | search _ _ _ _ =>
        cases hstep
        exact reflects_iff.mp h _
  refine reflects_iff.mpr fun x a => ?_
  by_cases hx : x.key = op.target.key
  · have hstore : s'.lookup x = s'.lookup op.target := NameMap.get?_congr s'.entries hx
    rw [NameMap.get?_congr _ hx, hself, MemoryStore.Offers, MemoryStore.Offers, hstore]
  · rw [get?_after_of_ne c s s' hop hx, reflects_iff.mp h, MemoryStore.Offers, MemoryStore.Offers,
      MemoryStore.lookup_after hstep hop hx]

end

end TupleCache

namespace Server

/-- The tuple cache has been loaded and reflects the store. -/
def PolicyReflected (server : Server MemoryStore) : Prop :=
  ∃ live, server.world.tuples = some live ∧ live.Reflects server.world.store

/-- In whatever state the tuple cache reflects the store, with access control on or off, it
    does so after every operation that relocates nothing, under any session and whether the
    operation succeeds or fails. -/
theorem step_keeps_reflection {config : Configuration} {server : Server MemoryStore}
    (h : Standard config server) (hreflected : server.PolicyReflected) (session : Session)
    {op : Operation} (hop : op.isRelocation = false) :
    (server.step session op).2.PolicyReflected := by
  obtain ⟨live, hlive, hreflects⟩ := hreflected
  rcases h.step_cases session op with ⟨-, hsame⟩ | ⟨-, w, hw, ⟨s', hs', rfl⟩, -⟩
  · rw [hsame]
    exact ⟨live, hlive, hreflects⟩
  · rw [hw]
    exact ⟨_, World.tuples_after hlive op s', hreflects.after hs' hop⟩

-- ── A policy that comes and changes ──────────────────────────────────────────────

/-- The policy is given an area that can not be read. -/
def spoilArea : Operation := .modify policyName [.add Attribute.subtreeSpecification ["base"]]

/-- A policy without any class is added, and then its area is spoiled; the tuple cache
    reflects the store after each step, and keeps a policy without an area in the end. -/
theorem spoiled_policy_reflected :
    (policyServer strayPolicy).PolicyReflected
      ∧ ((policyServer strayPolicy).step adminSession spoilArea).2.PolicyReflected
      ∧ ((policyServer strayPolicy).step adminSession spoilArea).2.world.tuples.map
          (fun live => (live.subentries.get? policyName).map fun a => a.subtree.isNone)
        = some (some true) := by
  let start := fresh groupConfig [topName]
  have hstart : start.PolicyReflected := by
    refine ⟨TupleCache.empty, rfl, TupleCache.reflects_iff.mpr fun x a => ?_⟩
    refine iff_of_false (fun ha => by cases ha) ?_
    rintro ⟨e, he, -⟩
    cases he
  have hstandard : Standard groupConfig start := ⟨rfl, rfl, _, rfl⟩
  have htop : (start.step adminSession (.add (Entry.named topName))).2.PolicyReflected :=
    step_keeps_reflection hstandard hstart adminSession rfl
  have hpolicy : (policyServer strayPolicy).PolicyReflected :=
    step_keeps_reflection (hstandard.step _ _) htop adminSession rfl
  have hspoiled : ((policyServer strayPolicy).step adminSession spoilArea).2.PolicyReflected :=
    step_keeps_reflection ((hstandard.step _ _).step _ _) hpolicy adminSession rfl
  exact ⟨hpolicy, hspoiled, by decide +kernel⟩

end Server

end DirectoryAccess
