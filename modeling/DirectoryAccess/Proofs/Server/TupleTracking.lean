import DirectoryAccess.Proofs.Cache.Tuple
import DirectoryAccess.Proofs.Store.Rooted

/-! # Tracking — when the tuple cache keeps up with the store

    A search for access control subentries finds entries of one object class.  The
    cache keeps whatever has prescriptive items, of this class or not, and carries it
    along without looking at it again.  A cache that keeps what the store prescribes
    still does so after an operation exactly if the operation is TRACKED. -/

namespace DirectoryAccess

/-- A name with prescriptive items is one that a search below every suffix finds: a
    subentry, and reached. -/
def MemoryStore.Finds (s : MemoryStore) (dn : Dn) (e : Entry) : Prop :=
  e.has Attribute.prescriptiveAci = true → e.isAccessControlSubentry = true ∧ s.Reaches dn

/-- What is kept of an entry is what a search would find of it, exactly if the entry is
    found when anything is kept of it. -/
theorem MemoryStore.finds_iff (s : MemoryStore) (dn : Dn) (e : Entry) :
    s.Finds dn e ↔ ∀ a, CachedSubentry.ofEntry e = .ok (some a)
      ↔ s.Reaches dn ∧ e.Prescribes a := by
  have hkept : e.has Attribute.prescriptiveAci = true
      ↔ ∃ a, CachedSubentry.ofEntry e = .ok (some a) := by
    simp only [CachedSubentry.ofEntry_iff, Entry.has, Option.isSome_iff_exists]
    constructor
    · rintro ⟨values, hvalues⟩
      exact ⟨_, values, hvalues, rfl⟩
    · rintro ⟨_, values, hvalues, -⟩
      exact ⟨values, hvalues⟩
  rw [Finds, hkept]
  constructor
  · intro h a
    refine ⟨fun ha => ?_, fun ha => ha.2.2⟩
    obtain ⟨hclass, hreach⟩ := h ⟨a, ha⟩
    exact ⟨hreach, hclass, ha⟩
  · rintro h ⟨a, ha⟩
    obtain ⟨hreach, hclass, -⟩ := (h a).mp ha
    exact ⟨hclass, hreach⟩

namespace TupleCache

/-- An operation between two stores is tracked by a cache.  Whatever gets prescriptive
    items is found, and what is found elsewhere is found as before.  Where something is in
    the way of a relocation, names in the way lose what they prescribe: the cache takes the
    subentries that it keeps along in the order of the store, and must lose what the store
    does. -/
def Tracks (c : TupleCache) (s s' : MemoryStore) (op : Operation) : Prop :=
  match op with
  | .add entry =>
      s.KeepsReach Entry.Prescribes s' (fun x => x.same entry.dn) ∧ s'.Finds entry.dn entry
  | .delete dn => s.KeepsReach Entry.Prescribes s' fun x => x.same dn
  | .modify dn mods => concerns mods = true → ∀ e, s'.lookup dn = some e → s'.Finds dn e
  | .rename dn _ _ | .move dn _ | .moveAndRename dn _ _ _ =>
      ∀ new, op.newDn? = some new →
        (ClearWay dn new (s.entries.topFirst dn) s.entries →
          s.KeepsShown Entry.Prescribes s' dn new op.rewrite)
        ∧ (¬ClearWay dn new (s.entries.topFirst dn) s.entries →
          s.LosesAlike Entry.Prescribes s' c.subentries dn.Before dn new op.rewrite)
  | .compare _ _ _ | .lookup _ _ | .hasEntry _ | .search _ _ _ _ => True

section

variable {c : TupleCache} {s s' : MemoryStore}

/-- The cache keeps what the store prescribes. -/
def Matches (c : TupleCache) (s : MemoryStore) : Prop :=
  Mirrors Entry.Prescribes (fun x a => c.subentries.get? x = some a) s

/-- A fresh cache keeps what its store prescribes. -/
theorem matches_loaded (hs : s.Named) : (loaded s).Matches s := get?_loaded hs

-- ── Adding, deleting and modifying ───────────────────────────────────────────────

/-- After an addition the cache matches exactly if the new entry is found when it has items,
    and the other names are found as before. -/
theorem matches_keepUnder (h : c.Matches s) {entry : Entry} (hstep : s.add entry = .ok s') :
    (c.keepUnder entry.dn entry).Matches s'
      ↔ s.KeepsReach Entry.Prescribes s' (fun x => x.same entry.dn)
        ∧ s'.Finds entry.dn entry := by
  obtain ⟨hfree, -⟩ := MemoryStore.add_ok hstep
  have hfree : s.lookup entry.dn = none := (OrdMap.contains_eq_false_iff ..).mp hfree
  have hnone : ∀ a, c.subentries.get? entry.dn ≠ some a :=
    fun a ha => MemoryStore.not_shows_of_lookup hfree a ((h entry.dn a).mp ha)
  rw [MemoryStore.finds_iff]
  exact Mirrors.add_iff h hstep (get?_keepUnder fun b hb => absurd hb (hnone b))

/-- After a deletion the cache matches exactly if the other names are found as before. -/
theorem matches_delete (h : c.Matches s) {dn : Dn} (hstep : s.delete dn = .ok s') :
    (c.after s s' (.delete dn)).Matches s'
      ↔ s.KeepsReach Entry.Prescribes s' fun x => x.same dn := by
  obtain ⟨hthere, -⟩ := MemoryStore.delete_ok hstep
  obtain ⟨e, he⟩ := (OrdMap.contains_iff ..).mp hthere
  have he : s.lookup dn = some e := he
  refine Mirrors.delete_iff h hstep fun x a => ?_
  simp only [after, he]
  split
  · show OrdMap.get? (c.subentries.erase dn) x = some a ↔ _
    rw [NameMap.get?_erase]
    by_cases hx : dn.key = x.key
    · rw [if_pos hx]
      exact iff_of_false (Option.some_ne_none a).symm fun hn => hn.1 hx.symm
    · rw [if_neg hx, and_iff_right (Ne.symm hx)]
  · next hno =>
    refine (and_iff_right_of_imp fun ha hx => ?_).symm
    -- whatever is kept of the entry, it has prescriptive items
    rw [NameMap.get?_congr c.subentries hx] at ha
    obtain ⟨-, -, hkept⟩ := (MemoryStore.shows_of_lookup he a).mp ((h dn a).mp ha)
    obtain ⟨values, hvalues, -⟩ := (CachedSubentry.ofEntry_iff e a).mp hkept
    rw [Entry.has, hvalues] at hno
    exact hno rfl

/-- After modifications the cache matches exactly if it tracks them. -/
theorem matches_modify (h : c.Matches s) {dn : Dn} {mods : List Modification} {e : Entry}
    (he : s.lookup dn = some e) (hstep : s.modify dn mods = .ok s') :
    (c.after s s' (.modify dn mods)).Matches s' ↔ c.Tracks s s' (.modify dn mods) := by
  obtain ⟨hself, hreach⟩ := MemoryStore.modified he hstep
  simp only [after, Tracks, hself, Option.some.injEq, forall_eq']
  cases hconcerns : concerns mods with
  | true =>
      simp only [if_true, true_implies, MemoryStore.finds_iff, hreach]
      refine Mirrors.modify_iff h he hstep fun x a => ?_
      have herased : ∀ x, (TupleCache.mk (c.subentries.erase dn)).subentries.get? x
          = if dn.key = x.key then none else c.subentries.get? x := fun x => NameMap.get?_erase ..
      rw [get?_keepUnder, herased]
      · by_cases hx : x.key = dn.key
        · rw [if_pos hx, if_pos hx.symm, and_iff_right hx]
          exact or_iff_left (Option.some_ne_none a).symm
        · rw [if_neg hx, if_neg (Ne.symm hx)]
          exact or_iff_right fun hn => hx hn.1
      · intro b hb
        rw [herased, if_pos rfl] at hb
        cases hb
  | false =>
      refine iff_of_true ?_ (absurd · Bool.false_ne_true)
      obtain ⟨hclass, hkept⟩ := Entry.ofEntry_foldl_project hconcerns e
      rw [if_neg Bool.false_ne_true]
      have hsame : ∀ x a, c.subentries.get? x = some a
          ↔ if x.key = dn.key then c.subentries.get? dn = some a
            else c.subentries.get? x = some a := by
        intro x a
        by_cases hx : x.key = dn.key
        · rw [if_pos hx, NameMap.get?_congr c.subentries hx]
        · rw [if_neg hx]
      refine (Mirrors.modify_iff h he hstep hsame).mpr fun a => ?_
      rw [Entry.Prescribes, hclass, hkept]
      exact (h dn a).trans (MemoryStore.shows_of_lookup he a)

-- ── Relocating ───────────────────────────────────────────────────────────────────

/-- What is kept is stored. -/
theorem Matches.stored (h : c.Matches s) (x : Dn) (hx : c.subentries.contains x = true) :
    s.entries.contains x = true := by
  obtain ⟨a, ha⟩ := (OrdMap.contains_iff ..).mp hx
  obtain ⟨-, e, he, -⟩ := (h x a).mp ha
  exact (OrdMap.contains_iff ..).mpr ⟨e, he⟩

/-- After a relocation along a clear way the cache matches exactly if what is shown is kept.
    -/
theorem matches_relocated (h : c.Matches s) {dn new : Dn} {adjust : Entry → Entry}
    (hstep : s.relocate dn new adjust = .ok s')
    (hclear : ClearWay dn new (s.entries.topFirst dn) s.entries) :
    (c.relocated dn new).Matches s' ↔ s.KeepsShown Entry.Prescribes s' dn new adjust := by
  obtain ⟨hbelow, -⟩ := MemoryStore.relocate_ok hstep
  exact Mirrors.relocation_iff h (c.get?_relocated hbelow (hclear.restrict h.stored)) hclear hstep

/-- A cache that keeps what the store prescribes does so after an operation that succeeds
    exactly if it tracks the operation. -/
theorem matches_after (h : c.Matches s) {op : Operation} (hstep : s.after op = .ok s') :
    (c.after s s' op).Matches s' ↔ c.Tracks s s' op := by
  have hrelocation : op.isRelocation = true → ∃ new, op.newDn? = some new
      ∧ ((c.relocated op.target new).Matches s'
        ↔ (ClearWay op.target new (s.entries.topFirst op.target) s.entries →
            s.KeepsShown Entry.Prescribes s' op.target new op.rewrite)
          ∧ (¬ClearWay op.target new (s.entries.topFirst op.target) s.entries →
            s.LosesAlike Entry.Prescribes s' c.subentries op.target.Before op.target new
              op.rewrite)) := by
    intro hop
    obtain ⟨new, hnew, hrelocate⟩ := MemoryStore.after_relocation hop hstep
    refine ⟨new, hnew, ?_⟩
    by_cases hclear : ClearWay op.target new (s.entries.topFirst op.target) s.entries
    · rw [matches_relocated h hrelocate hclear]
      exact ⟨fun ht => ⟨fun _ => ht, fun hn => absurd hclear hn⟩, fun ht => ht.1 hclear⟩
    · obtain ⟨hbelow, -⟩ := MemoryStore.relocate_ok hrelocate
      have hloses : (c.relocated op.target new).Matches s' ↔ _ :=
        Mirrors.loses_iff h (c.get?_relocated_leaves hbelow) hrelocate
      rw [hloses]
      exact ⟨fun ht => ⟨fun hn => absurd hn hclear, fun _ => ht⟩, fun ht => ht.2 hclear⟩
  cases op with
  | add entry => exact matches_keepUnder h hstep
  | delete dn => exact matches_delete h hstep
  | modify dn mods =>
      obtain ⟨e, he, -⟩ := MemoryStore.modify_ok hstep
      exact matches_modify h he hstep
  | rename dn rdn deleteOld =>
      obtain ⟨new, hnew, htracks⟩ := hrelocation rfl
      simp only [after, Tracks, hnew, Option.some.injEq, forall_eq']
      exact htracks
  | move dn superior =>
      obtain ⟨new, hnew, htracks⟩ := hrelocation rfl
      simp only [after, Tracks, hnew, Option.some.injEq, forall_eq']
      exact htracks
  | moveAndRename dn superior rdn deleteOld =>
      obtain ⟨new, hnew, htracks⟩ := hrelocation rfl
      simp only [after, Tracks, hnew, Option.some.injEq, forall_eq']
      exact htracks
  | compare _ _ _ | lookup _ _ | hasEntry _ | search _ _ _ _ =>
      cases hstep
      exact iff_of_true h trivial

end

end TupleCache

end DirectoryAccess
