import DirectoryAccess.Proofs.Cache.Agreement
import DirectoryAccess.Proofs.Server.Transition
import DirectoryAccess.Proofs.Store.Rooted

/-! # Tracking — when the group cache keeps up with the store

    The cache takes a group in with the entry that is added, changes its members by
    names while the entry changes them by their spellings, and carries groups along
    without looking at their entries again.  A cache that lists what the store lists
    still does so after an operation exactly if the operation is TRACKED: nothing
    that the cache does not look at has mattered. -/

namespace DirectoryAccess

namespace MemoryStore

/-- The groups with members that an operation does not touch are reached after it as
    before. -/
def ReachKept (s s' : MemoryStore) (touched : Dn → Bool) : Prop :=
  ∀ g e d, touched g = false → s.lookup g = some e → e.Lists d → (s.Reaches g ↔ s'.Reaches g)

end MemoryStore

namespace GroupCache

/-- The modifications of an entry are tracked if the names that they make of its members
    are those that the modified entry lists; of a group that is not reached there must
    be none. -/
def TracksModify (s : MemoryStore) (dn : Dn) (mods : List Modification) (e : Entry) : Prop :=
  (s.Reaches dn → ∀ d, (e.followed mods e.members).contains d = true
      ↔ (mods.foldl Entry.project e).Lists d)
    ∧ (¬s.Reaches dn → ∀ d, (e.followed mods OrdSet.empty).contains d = false)

/-- A relocation to free ground is tracked if every group keeps its members, those who
    are cached: it is reached after it as before, and the rewriting of the entry itself
    does not change whom it lists. -/
def TracksRelocation (s s' : MemoryStore) (dn new : Dn) (adjust : Entry → Entry) : Prop :=
  s.ReachKept s' (fun g => g.isWithin dn)
    ∧ ∀ k e r, (k, e) ∈ s.entries.entries → k.rebase? dn new = some r →
      ∀ d, (s.Reaches k ∧ e.Lists d)
        ↔ (s'.Reaches r ∧ (MemoryStore.landed dn adjust k r e).Lists d)

/-- An operation between two stores is tracked by a cache.  Where a relocation lands among
    names that are stored, names in the way lose what they list: the cache takes the groups
    that it holds along in the order of their names, and must lose what the store does. -/
def Tracks (c : GroupCache) (s s' : MemoryStore) (op : Operation) : Prop :=
  match op with
  | .add entry =>
      s.ReachKept s' (fun g => g.same entry.dn) ∧ ∀ d, entry.Lists d → s'.Reaches entry.dn
  | .delete dn => s.ReachKept s' (fun g => g.same dn)
  | .modify dn mods => ∀ e, s.lookup dn = some e → TracksModify s dn mods e
  | .rename dn _ _ | .move dn _ | .moveAndRename dn _ _ _ =>
      ∀ new, op.newDn? = some new →
        (FreeGround s.entries dn new → TracksRelocation s s' dn new op.rewrite)
          ∧ (¬FreeGround s.entries dn new →
            s.LosesAlike Entry.Lists s' c.groups (fun k k' => compare k k' = .lt) dn new
              op.rewrite)
  | .compare _ _ _ | .lookup _ _ | .hasEntry _ | .search _ _ _ _ => True

section

variable {c : GroupCache} {s s' : MemoryStore}

/-- The cache lists what the store lists. -/
def Matches (c : GroupCache) (s : MemoryStore) : Prop := ∀ g d, c.Lists g d ↔ s.Lists g d

-- ── Adding, deleting and modifying ───────────────────────────────────────────────

/-- After an addition the cache matches exactly if a new group with members is reached, and
    the other names as before. -/
theorem matches_add (h : c.Matches s) {entry : Entry} (hstep : s.add entry = .ok s') :
    (c.groupAdded entry).Matches s'
      ↔ s.ReachKept s' (fun g => g.same entry.dn)
        ∧ ∀ d, entry.Lists d → s'.Reaches entry.dn := by
  obtain ⟨hfree, -⟩ := MemoryStore.add_ok hstep
  have hfree : s.lookup entry.dn = none := (OrdMap.contains_eq_false_iff ..).mp hfree
  have hnone : ∀ d, ¬c.Lists entry.dn d :=
    fun d hd => MemoryStore.not_shows_of_lookup hfree d ((h entry.dn d).mp hd)
  have hadded : (c.groupAdded entry).Matches s' ↔ _ :=
    Mirrors.add_iff h hstep (lists_groupAdded fun d hd => absurd hd (hnone d))
  rw [hadded]
  refine and_congr_right' (forall_congr' fun d => ?_)
  exact ⟨fun hd hlisted => (hd.mp hlisted).1, fun hd => ⟨fun hl => ⟨hd hl, hl⟩, And.right⟩⟩

/-- After a deletion the cache matches exactly if the other names are reached as before. -/
theorem matches_delete (h : c.Matches s) {dn : Dn} (hstep : s.delete dn = .ok s') :
    (c.groupDeleted dn).Matches s' ↔ s.ReachKept s' fun g => g.same dn :=
  Mirrors.delete_iff h hstep (c.lists_groupDeleted dn)

/-- Following modifications from the members that are cached is following them from
    those of the entry, or from none if the group is not reached. -/
theorem contains_followed_of_matches (h : c.Matches s) {dn : Dn} {e : Entry}
    (he : s.lookup dn = some e) (mods : List Modification) (d : Dn) :
    (s.Reaches dn → (e.followed mods (c.membersOf dn)).contains d
        = (e.followed mods e.members).contains d)
      ∧ (¬s.Reaches dn → (e.followed mods (c.membersOf dn)).contains d
        = (e.followed mods OrdSet.empty).contains d) := by
  constructor
  · intro hreach
    refine Entry.contains_followed_congr (fun d => ?_) e mods d
    rw [Bool.eq_iff_iff]
    exact (h dn d).trans ((MemoryStore.shows_of_lookup he d).trans (and_iff_right hreach))
  · intro hreach
    refine Entry.contains_followed_congr (fun d => ?_) e mods d
    rw [OrdSet.contains_empty, ← Bool.not_eq_true]
    exact fun hd => hreach ((h dn d).mp hd).1

/-- After modifications the cache matches exactly if it tracks them. -/
theorem matches_modify (h : c.Matches s) {dn : Dn} {mods : List Modification} {e : Entry}
    (he : s.lookup dn = some e) (hstep : s.modify dn mods = .ok s') :
    (c.groupModified dn mods e).Matches s' ↔ TracksModify s dn mods e := by
  have hmembers : ∀ g d, (c.groupModified dn mods e).Lists g d
      ↔ if g.key = dn.key then (e.followed mods (c.membersOf dn)).contains d = true
        else c.Lists g d := by
    intro g d
    rw [Lists, membersOf_groupModified]
    split <;> rfl
  have hmodified : (c.groupModified dn mods e).Matches s' ↔ _ :=
    Mirrors.modify_iff h he hstep hmembers
  rw [hmodified]
  by_cases hr : s.Reaches dn
  · simp only [TracksModify, hr, true_and, true_implies, not_true, false_implies, and_true]
    refine forall_congr' fun d => ?_
    rw [(contains_followed_of_matches h he mods d).1 hr]
  · simp only [TracksModify, hr, false_and, false_implies, not_false_eq_true, true_implies,
      true_and, iff_false]
    refine forall_congr' fun d => ?_
    rw [(contains_followed_of_matches h he mods d).2 hr, Bool.not_eq_true]

-- ── Relocating ───────────────────────────────────────────────────────────────────

/-- A relocation to free ground renames groups freely. -/
theorem renamesFreely_of_free (h : c.Matches s) {dn new : Dn} {adjust : Entry → Entry}
    (hstep : s.relocate dn new adjust = .ok s') (hfree : FreeGround s.entries dn new) :
    c.RenamesFreely dn new := by
  rcases hfree with hsame | hempty
  · exact Or.inl hsame
  · obtain ⟨hbelow, -, -, top, htop, -⟩ := MemoryStore.relocate_ok hstep
    obtain ⟨k, hk, hkey⟩ := NameMap.mem_of_get? s.entries htop
    have hout : ¬dn.isWithin new = true := by
      rw [← Dn.isWithin_congr hkey, hempty _ hk]
      exact Bool.false_ne_true
    refine Or.inr ⟨fun x hold => ?_, fun g d hlisted => ?_⟩
    · rw [← Bool.not_eq_true]
      intro hnew
      rcases List.suffix_or_suffix_of_suffix ((Dn.isWithin_iff x dn).mp hold)
        ((Dn.isWithin_iff x new).mp hnew) with hs | hs
      · have hsame := (Dn.same_iff new dn).mp (hbelow ((Dn.isWithin_iff new dn).mpr hs))
        exact hout (Dn.isWithin_of_key hsame.symm)
      · exact hout ((Dn.isWithin_iff dn new).mpr hs)
    · obtain ⟨-, e, he, -⟩ := (h g d).mp hlisted
      obtain ⟨k, hk, hkey⟩ := NameMap.mem_of_get? s.entries he
      rw [← Dn.isWithin_congr hkey]
      exact hempty _ hk

/-- After a relocation to free ground the cache matches exactly if it tracks the relocation.
    -/
theorem matches_relocation (h : c.Matches s) {dn new : Dn} {adjust : Entry → Entry}
    (hstep : s.relocate dn new adjust = .ok s') (hfree : FreeGround s.entries dn new) :
    (c.groupRenamed dn new).Matches s' ↔ TracksRelocation s s' dn new adjust := by
  have hclear := hfree.clearWay (fun _ => NameMap.mem_topFirst) (s.entries.topFirst_distinct dn)
  have hcarried := lists_groupRenamed (renamesFreely_of_free h hstep hfree)
  exact Mirrors.relocation_iff h (fun g d => hcarried g d) hclear hstep

/-- A cache that lists what the store lists does so after an operation that succeeds
    exactly if it tracks the operation. -/
theorem matches_after (h : c.Matches s) {op : Operation} (hstep : s.after op = .ok s') :
    (c.after s op).Matches s' ↔ c.Tracks s s' op := by
  have hrelocation : op.isRelocation = true → ∃ new, op.newDn? = some new
      ∧ ((c.groupRenamed op.target new).Matches s'
        ↔ (FreeGround s.entries op.target new → TracksRelocation s s' op.target new op.rewrite)
          ∧ (¬FreeGround s.entries op.target new →
            s.LosesAlike Entry.Lists s' c.groups (fun k k' => compare k k' = .lt) op.target new
              op.rewrite)) := by
    intro hop
    obtain ⟨new, hnew, hrelocate⟩ := MemoryStore.after_relocation hop hstep
    refine ⟨new, hnew, ?_⟩
    by_cases hfree : FreeGround s.entries op.target new
    · rw [matches_relocation h hrelocate hfree]
      exact ⟨fun ht => ⟨fun _ => ht, fun hn => absurd hfree hn⟩, fun ht => ht.1 hfree⟩
    · have hloses : (c.groupRenamed op.target new).Matches s' ↔ _ :=
        Mirrors.loses_iff h (c.lists_groupRenamed_leaves op.target new) hrelocate
      rw [hloses]
      exact ⟨fun ht => ⟨fun hn => absurd hn hfree, fun _ => ht⟩, fun ht => ht.2 hfree⟩
  cases op with
  | add entry => exact matches_add h hstep
  | delete dn => exact matches_delete h hstep
  | modify dn mods =>
      obtain ⟨e, he, -⟩ := MemoryStore.modify_ok hstep
      have he : s.lookup dn = some e := he
      simp only [after, Tracks, he, Option.some.injEq, forall_eq']
      exact matches_modify h he hstep
  | rename dn rdn deleteOld =>
      obtain ⟨new, hnew, htracks⟩ := hrelocation rfl
      simp only [after, Tracks, hnew, Option.some.injEq, forall_eq']
      exact htracks
  | move dn superior =>
      obtain ⟨new, hnew, htracks⟩ := hrelocation rfl
      simp only [after, Tracks, hnew, Option.some.injEq, forall_eq']
      exact htracks
  | moveAndRename dn superior rdn deleteOld =>
      obtain ⟨new, hnew, htracks⟩ := hrelocation rfl
      simp only [after, Tracks, hnew, Option.some.injEq, forall_eq']
      exact htracks
  | compare _ _ _ | lookup _ _ | hasEntry _ | search _ _ _ _ =>
      cases hstep
      exact iff_of_true h trivial

/-- In a rooted store every relocation goes to free ground, and whether it is tracked does
    not depend on the cache. -/
theorem tracks_relocation_iff (hs : s.Rooted) {op : Operation} (hop : op.isRelocation = true)
    (hstep : s.after op = .ok s') {new : Dn} (hnew : op.newDn? = some new) :
    c.Tracks s s' op ↔ TracksRelocation s s' op.target new op.rewrite := by
  obtain ⟨new', hnew', hrelocate⟩ := MemoryStore.after_relocation hop hstep
  rw [hnew] at hnew'
  cases hnew'
  have hfree := hs.freeGround hrelocate (Operation.newDn_not_root hnew)
  have htracks : (∀ new, op.newDn? = some new →
      (FreeGround s.entries op.target new → TracksRelocation s s' op.target new op.rewrite)
        ∧ (¬FreeGround s.entries op.target new →
          s.LosesAlike Entry.Lists s' c.groups (fun k k' => compare k k' = .lt) op.target new
            op.rewrite))
      ↔ TracksRelocation s s' op.target new op.rewrite := by
    simp only [hnew, Option.some.injEq, forall_eq']
    exact ⟨fun ht => ht.1 hfree, fun ht => ⟨fun _ => ht, fun hn => absurd hfree hn⟩⟩
  cases op with
  | rename _ _ _ | move _ _ | moveAndRename _ _ _ _ => exact htracks
  | add _ | delete _ | modify _ _ | compare _ _ _ | lookup _ _ | hasEntry _
  | search _ _ _ _ => cases hop

end

end GroupCache

end DirectoryAccess
