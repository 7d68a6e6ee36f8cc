import DirectoryAccess.Cache.Group
import DirectoryAccess.Cache.Tuple
import DirectoryAccess.Proofs.Name.Key
import DirectoryAccess.Proofs.Store.Action
import DirectoryAccess.Proofs.Store.Relocation

/-! # Loading — what a search below every suffix finds

    Over the memory store a load never fails: a suffix that is not there is passed
    over.  What a load finds is what it REACHES, the names within a suffix that is
    there or is the root. -/

namespace DirectoryAccess

open DirectoryAccess.Action

namespace MemoryStore

/-- The entries that a search below a suffix finds.  A suffix that is not there has
    none. -/
def foundBelow (s : MemoryStore) (filter : Filter) (suffix : Dn) : List Entry :=
  if !suffix.isRoot && !s.entries.contains suffix then []
  else ((s.entries.entries.filter fun e => e.1.isWithin suffix).map (·.2)).filter
    fun e => filter.isMetBy e

/-- A search below every suffix reaches the names within those that are there. -/
def Reaches (s : MemoryStore) (x : Dn) : Prop :=
  ∃ suffix ∈ s.suffixes,
    (suffix.isRoot = true ∨ s.entries.contains suffix = true) ∧ x.isWithin suffix = true

theorem reaches_congr (s : MemoryStore) {x y : Dn} (h : x.key = y.key) :
    s.Reaches x ↔ s.Reaches y := by
  simp only [Reaches, Dn.isWithin_congr h]

/-- Whatever is reached from a store is reached from one with the same suffixes and
    more names. -/
theorem Reaches.mono {s s' : MemoryStore} (hsuffixes : s'.suffixes = s.suffixes)
    (hmore : ∀ x, s.entries.contains x = true → s'.entries.contains x = true) {x : Dn}
    (h : s.Reaches x) : s'.Reaches x := by
  obtain ⟨suffix, hin, hthere, hx⟩ := h
  refine ⟨suffix, ?_, hthere.imp_right (hmore suffix), hx⟩
  rw [hsuffixes]
  exact hin

/-- The entries found below all suffixes are those under names that are reached. -/
theorem mem_found {s : MemoryStore} {filter : Filter} {e : Entry} :
    e ∈ s.suffixes.flatMap (s.foundBelow filter)
      ↔ (∃ k, (k, e) ∈ s.entries.entries ∧ s.Reaches k) ∧ filter.isMetBy e = true := by
  have hone : ∀ suffix, e ∈ s.foundBelow filter suffix
      ↔ (suffix.isRoot = true ∨ s.entries.contains suffix = true)
        ∧ (∃ k, (k, e) ∈ s.entries.entries ∧ k.isWithin suffix = true)
        ∧ filter.isMetBy e = true := by
    intro suffix
    rw [foundBelow]
    by_cases hthere : suffix.isRoot = true ∨ s.entries.contains suffix = true
    · have hguard : (!suffix.isRoot && !s.entries.contains suffix) = false := by
        rcases hthere with h | h <;> simp [h]
      rw [hguard]
      simp [List.mem_filter, hthere]
    · obtain ⟨hroot, hmissing⟩ := not_or.mp hthere
      simp [hroot, hmissing]
  simp only [List.mem_flatMap, hone, Reaches]
  constructor
  · rintro ⟨suffix, hin, hthere, ⟨k, hk, hw⟩, hmet⟩
    exact ⟨⟨k, hk, suffix, hin, hthere, hw⟩, hmet⟩
  · rintro ⟨⟨k, hk, suffix, hin, hthere, hw⟩, hmet⟩
    exact ⟨suffix, hin, hthere, ⟨k, hk, hw⟩, hmet⟩

/-- In a store of suffixes alone nothing is found. -/
theorem found_ofSuffixes (suffixes : List Dn) (filter : Filter) :
    (ofSuffixes suffixes).suffixes.flatMap ((ofSuffixes suffixes).foundBelow filter) = [] := by
  refine List.eq_nil_iff_forall_not_mem.mpr ?_
  intro e he
  obtain ⟨⟨k, hk, -⟩, -⟩ := mem_found.mp he
  cases hk

end MemoryStore

/-- Results that are all entries are collected as they are. -/
theorem collectResults_map_ok {σ : Type} (es : List Entry) (s : σ) :
    collectResults (es.map Except.ok) s = .ok es s := by
  induction es with
  | nil => rfl
  | cons e rest ih =>
      have hnext : collectResults ((e :: rest).map Except.ok) s
          = (collectResults (rest.map Except.ok) >>= fun more => pure (e :: more)) s := rfl
      rw [hnext, bind_of_ok ih]
      rfl

/-- A search of the memory store below a suffix; where the suffix is not there, nothing
    is found. -/
theorem searchBelow (s : MemoryStore) (filter : Filter) (suffix : Dn) :
    (tryCatchThe OperationError (Backend.search suffix .subtree filter)
        fun
          | .noMatchingEntries => pure []
          | e => throw e : Action MemoryStore _) s
      = .ok ((s.foundBelow filter suffix).map Except.ok) s := by
  have hsearch : (Backend.search suffix .subtree filter : Action MemoryStore _) s
      = if !suffix.isRoot && !s.entries.contains suffix then .error .noMatchingEntries s
        else .ok ((s.foundBelow filter suffix).map Except.ok) s := by
    show MemoryStore.query _ s = _
    by_cases hmissing : (!suffix.isRoot && !s.entries.contains suffix) = true
    · rw [if_pos hmissing, MemoryStore.query, MemoryStore.search, if_pos hmissing]
      rfl
    · rw [if_neg hmissing, MemoryStore.query, MemoryStore.search, if_neg hmissing,
        MemoryStore.foundBelow, if_neg hmissing]
      rfl
  by_cases hmissing : (!suffix.isRoot && !s.entries.contains suffix) = true
  · rw [if_pos hmissing] at hsearch
    rw [tryCatch_of_error hsearch, MemoryStore.foundBelow, if_pos hmissing]
    rfl
  · rw [if_neg hmissing] at hsearch
    exact tryCatch_of_ok hsearch

/-- A search of the memory store below some suffixes never fails. -/
theorem findBelow_ok (s : MemoryStore) (filter : Filter) (suffixes : List Dn) :
    findBelow filter suffixes s = .ok (suffixes.flatMap (s.foundBelow filter)) s := by
  induction suffixes with
  | nil => rfl
  | cons suffix rest ih =>
      have hnext : findBelow filter (suffix :: rest) s
          = (collectResults ((s.foundBelow filter suffix).map Except.ok) >>= fun found =>
              findBelow filter rest >>= fun more => pure (found ++ more)) s :=
        bind_of_ok (searchBelow s filter suffix)
      rw [hnext, bind_of_ok (collectResults_map_ok _ s), bind_of_ok ih]
      rfl

/-- Loading groups over the memory store keeps those that are found. -/
theorem GroupCache.load_ok (c : GroupCache) (s : MemoryStore) :
    GroupCache.load c s
      = .ok ((s.suffixes.flatMap (s.foundBelow groupFilter)).foldl groupAdded
          (unloaded c.adminDn c.adminGroupDn)) s := by
  have hget : (MonadState.get : Action MemoryStore _) s = .ok s s := rfl
  rw [GroupCache.load, bind_of_ok hget, bind_of_ok (findBelow_ok s groupFilter _)]
  rfl

/-- Loading subentries over the memory store keeps those that are found. -/
theorem TupleCache.load_ok (s : MemoryStore) :
    TupleCache.load s
      = .ok ((s.suffixes.flatMap (s.foundBelow subentryFilter)).foldl keepStored empty) s := by
  have hget : (MonadState.get : Action MemoryStore _) s = .ok s s := rfl
  rw [TupleCache.load, bind_of_ok hget, bind_of_ok (findBelow_ok s subentryFilter _)]
  rfl

end DirectoryAccess
