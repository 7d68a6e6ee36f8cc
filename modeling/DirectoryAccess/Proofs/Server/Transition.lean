import DirectoryAccess.Proofs.Store.Action
import DirectoryAccess.Proofs.Store.Memory
import DirectoryAccess.Server

/-! # Transitions — what an operation that succeeds does to a server

    An operation is a program over the whole state of a server; what it does to
    that state, once it succeeds, is told by one function for the store and one for
    each cache.  The program fails and leaves the state as it is, or it ends in the
    state that these functions give. -/

namespace DirectoryAccess

/-- What the group cache makes of an operation on a store. -/
def GroupCache.after (c : GroupCache) (s : MemoryStore) (op : Operation) : GroupCache :=
  match op with
  | .add entry => c.groupAdded entry
  | .delete dn => c.groupDeleted dn
  | .modify dn mods =>
      match s.lookup dn with
      | some pre => c.groupModified dn mods pre
      | none => c
  | .rename dn _ _ | .move dn _ | .moveAndRename dn _ _ _ =>
      match op.newDn? with
      | some new => c.groupRenamed dn new
      | none => c
  | .compare _ _ _ | .lookup _ _ | .hasEntry _ | .search _ _ _ _ => c

namespace TupleCache

/-- Keep what is to be kept of an entry under a name, if it is valid. -/
def keepUnder (c : TupleCache) (dn : Dn) (entry : Entry) : TupleCache :=
  match CachedSubentry.ofEntry entry with
  | .ok (some cached) => ⟨c.subentries.insert dn cached⟩
  | _ => c

/-- Take the subentries at or below `old` along to the same places below `new`. -/
def relocated (c : TupleCache) (old new : Dn) : TupleCache :=
  match c.subentries.get? old with
  | some cached =>
      (TupleCache.mk ((c.subentries.erase old).insert new cached)).rebaseSubtree old new
  | none => c.rebaseSubtree old new

/-- What the tuple cache makes of an operation between two stores. -/
def after (c : TupleCache) (s s' : MemoryStore) (op : Operation) : TupleCache :=
  match op with
  | .add entry => c.keepUnder entry.dn entry
  | .delete dn =>
      match s.lookup dn with
      | some e => if e.has Attribute.prescriptiveAci then ⟨c.subentries.erase dn⟩ else c
      | none => c
  | .modify dn mods =>
      match s'.lookup dn with
      | some post =>
          if concerns mods then (TupleCache.mk (c.subentries.erase dn)).keepUnder dn post
          else c
      | none => c
  | .rename dn _ _ | .move dn _ | .moveAndRename dn _ _ _ =>
      match op.newDn? with
      | some new => c.relocated dn new
      | none => c
  | .compare _ _ _ | .lookup _ _ | .hasEntry _ | .search _ _ _ _ => c

end TupleCache

namespace World

/-- The world after an operation that leaves this store. -/
def after (w : World MemoryStore) (op : Operation) (s' : MemoryStore) : World MemoryStore where
  store := s'
  groups := w.groups.after w.store op
  tuples := w.tuples.map fun t => t.after w.store s' op
  ownGroups := w.ownGroups

/-- A tuple cache that has been loaded stays so. -/
theorem tuples_after {w : World MemoryStore} {t : TupleCache} (ht : w.tuples = some t)
    (op : Operation) (s' : MemoryStore) :
    (w.after op s').tuples = some (t.after w.store s' op) := by
  show w.tuples.map _ = _
  rw [ht]
  rfl

end World

namespace Operation

/-- The outcome is one that the kind of operation has; the filters of a search only
    read. -/
def Fits (op : Operation) (o : Outcome (World MemoryStore)) : Prop :=
  match op with
  | add _ | delete _ | modify _ _ | rename _ _ _ | move _ _ | moveAndRename _ _ _ _ =>
      o = .done
  | compare _ _ _ => ∃ b, o = .compare b
  | lookup _ _ => ∃ e, o = .entry e
  | hasEntry _ => ∃ b, o = .hasEntry b
  | search _ _ _ _ => ∃ c, o = .search c ∧ ∀ f ∈ c.filters, ∀ e, Action.Reads (f e)

end Operation

open DirectoryAccess.Action

/-- What an action makes of a result succeeds only with the result. -/
theorem ofExcept_ok {σ α : Type} {x : Except OperationError α} {s s' : σ} {a : α}
    (h : Action.ofExcept x s = .ok a s') : x = .ok a := by
  cases x with
  | ok b =>
      cases h
      rfl
  | error e => cases h

-- ── Storage ──────────────────────────────────────────────────────────────────────

/-- The store, and nothing else, has taken the step of an operation. -/
def Stored (w : World MemoryStore) (op : Operation) (w' : World MemoryStore) : Prop :=
  ∃ s', w.store.after op = .ok s' ∧ w' = { w with store := s' }

/-- An operation that leaves the store as it is has been stored by leaving the world. -/
theorem stored_of_same {w : World MemoryStore} {op : Operation}
    (h : w.store.after op = .ok w.store) : Stored w op w :=
  ⟨w.store, h, rfl⟩

/-- An update of the store that succeeds changes the store alone. -/
theorem commits_update (f : MemoryStore → Except OperationError MemoryStore)
    (w : World MemoryStore) :
    Commits (do
        World.onStore (MemoryStore.update f)
        return (Outcome.done : Outcome (World MemoryStore))) w
      fun o w' => o = .done ∧ ∃ s', f w.store = .ok s' ∧ w' = { w with store := s' } := by
  refine (World.commits_onStore (MemoryStore.commits_update f w.store)).then_sure ?_
  intro _ w' h
  exact ⟨_, _, rfl, rfl, h⟩

/-- Passing an operation to storage commits it there. -/
theorem commits_dispatch (op : Operation) (w : World MemoryStore) :
    Commits (dispatch op) w fun o w' => op.Fits o ∧ Stored w op w' := by
  cases op with
  | add entry => exact commits_update _ w
  | delete dn => exact commits_update _ w
  | modify dn mods => exact commits_update _ w
  | rename dn rdn deleteOld => exact commits_update _ w
  | move dn superior => exact commits_update _ w
  | moveAndRename dn superior rdn deleteOld => exact commits_update _ w
  | compare dn attr value =>
      refine Commits.after_reads (World.reads_onStore (MemoryStore.reads_query _)) fun b _ => ?_
      exact ⟨⟨b, rfl⟩, stored_of_same rfl⟩
  | lookup dn attrs =>
      refine Commits.after_reads (World.reads_onStore (reads_lookupRequired dn)) fun e _ => ?_
      exact ⟨⟨e, rfl⟩, stored_of_same rfl⟩
  | hasEntry dn =>
      rw [dispatch]
      split
      · exact ⟨⟨true, rfl⟩, stored_of_same rfl⟩
      · refine Commits.after_reads (World.reads_onStore (reads_lookup dn)) fun found _ => ?_
        exact ⟨⟨found.isSome, rfl⟩, stored_of_same rfl⟩
  | search base scope filter attrs =>
      refine Commits.after_reads (World.reads_onStore (reads_search _ _ _)) fun results _ => ?_
      refine ⟨⟨_, rfl, ?_⟩, stored_of_same rfl⟩
      intro f hf
      cases hf

-- ── The default stage ────────────────────────────────────────────────────────────

/-- What the fixed policy says to an operation of somebody in a world, while it is
    switched on. -/
def DefaultStage.Allows (stage : DefaultStage) (session : Session) (op : Operation)
    (w : World MemoryStore) : Prop :=
  stage.enabled = true →
    stage.check ((stage.groups w).isAdministrator session.effective.dn) session.effective.dn op
      = .ok ()

/-- The default stage passes on what the policy allows, and adds nothing but a filter
    that reads. -/
theorem DefaultStage.commits_handle {stage : DefaultStage} (hshared : stage.source = .shared)
    (session : Session) (op : Operation) {w : World MemoryStore}
    {next : Handling MemoryStore (Outcome (World MemoryStore))}
    (hnext : Commits next w fun o w' => op.Fits o ∧ Stored w op w') :
    Commits (stage.handle session op next) w fun o w' =>
      (op.Fits o ∧ Stored w op w') ∧ stage.Allows session op w := by
  rw [DefaultStage.handle]
  split
  · next hoff =>
    refine hnext.mono fun o w' h => ⟨h, ?_⟩
    intro hon
    rw [hon] at hoff
    cases hoff
  · refine Commits.after_reads Reads.get fun w₀ hw₀ => ?_
    cases hw₀
    refine Commits.after_reads (Reads.ofExcept _) fun _ hcheck => ?_
    have hallows : stage.Allows session op w := fun _ => ofExcept_ok hcheck
    split
    · refine hnext.then_sure ?_
      rintro o w' ⟨⟨cursor, rfl, hfilters⟩, hstored⟩
      cases hadmin : (stage.groups w).isAdministrator session.effective.dn with
      | true => exact ⟨.search cursor, w', rfl, ⟨⟨cursor, rfl, hfilters⟩, hstored⟩, hallows⟩
      | false =>
          refine ⟨.search (cursor.addFilter (stage.searchFilter session.effective.dn)), w', rfl,
            ⟨⟨_, rfl, ?_⟩, hstored⟩, hallows⟩
          intro f hf e
          rcases List.mem_append.mp hf with hf | hf
          · exact hfilters f hf e
          · rw [List.mem_singleton.mp hf, DefaultStage.searchFilter]
            split
            · exact Reads.pure _
            · exact Reads.pure _
    · refine hnext.then_sure ?_
      rintro o w' h
      have howns : stage.ownsGroups = false := by
        rw [DefaultStage.ownsGroups, hshared]
        rfl
      rw [howns]
      exact ⟨o, w', rfl, h, hallows⟩

-- ── Following with the caches ────────────────────────────────────────────────────

/-- A valid subentry can be read for the cache. -/
theorem CachedSubentry.ofEntry_of_valid {entry : Entry}
    (h : validateSubentry entry = .ok ()) : ∃ r, CachedSubentry.ofEntry entry = .ok r := by
  rw [CachedSubentry.ofEntry, h]
  cases hvalues : entry.values? Attribute.prescriptiveAci with
  | none => exact ⟨none, rfl⟩
  | some values => exact ⟨some _, rfl⟩

namespace TupleCache

/-- A valid entry that was added is kept, if there is anything to be kept of it. -/
theorem subentryAdded_ok (c : TupleCache) (dn : Dn) {entry : Entry}
    (h : validateSubentry entry = .ok ()) :
    ∃ u, subentryAdded dn entry c = .ok u (c.keepUnder dn entry) := by
  obtain ⟨r, hr⟩ := CachedSubentry.ofEntry_of_valid h
  rw [subentryAdded, keepUnder, hr]
  cases r with
  | none => exact ⟨_, rfl⟩
  | some cached => exact ⟨_, rfl⟩

/-- With an entry that has items, whatever is kept under its name is forgotten. -/
theorem subentryDeleted_ok (c : TupleCache) (dn : Dn) (entry : Entry) :
    ∃ u, subentryDeleted dn entry c
      = .ok u (if entry.has Attribute.prescriptiveAci then ⟨c.subentries.erase dn⟩ else c) := by
  rw [subentryDeleted]
  split
  · exact ⟨_, rfl⟩
  · exact ⟨_, rfl⟩

/-- Modifications that concern the cache have it look at the entry again. -/
theorem subentryModified_ok (c : TupleCache) (dn : Dn) (mods : List Modification)
    {entry : Entry} (h : validateSubentry entry = .ok ()) :
    ∃ u, subentryModified dn mods entry c
      = .ok u (if concerns mods then (TupleCache.mk (c.subentries.erase dn)).keepUnder dn entry
          else c) := by
  obtain ⟨r, hr⟩ := CachedSubentry.ofEntry_of_valid h
  rw [subentryModified, keepUnder, hr]
  split
  · cases r with
    | none => exact ⟨_, rfl⟩
    | some cached => exact ⟨_, rfl⟩
  · exact ⟨_, rfl⟩

end TupleCache

namespace World

/-- What is done to the tuple cache is done to the world. -/
theorem onTuples_ok {α : Type} {act : Action TupleCache α} {w : World MemoryStore}
    {t t' : TupleCache} {a : α} (hw : w.tuples = some t) (h : act t = .ok a t') :
    (onTuples act : Action (World MemoryStore) α) w = .ok a { w with tuples := some t' } := by
  rw [onTuples, bind_of_ok (tupleCache_of_loaded hw), Action.onPart, h]

end World

/-- The caches follow a relocation without fail. -/
theorem AciStage.relocated_ok {w : World MemoryStore} {t : TupleCache} (old new : Dn)
    (hw : w.tuples = some t) :
    AciStage.relocated old new w
      = .ok () { w with
          tuples := some (t.relocated old new)
          groups := w.groups.groupRenamed old new } := by
  have hrebase : ∀ c : TupleCache,
      (modifyGet fun cache => ((), cache.rebaseSubtree old new) : Action TupleCache Unit) c
        = .ok () (c.rebaseSubtree old new) := fun _ => rfl
  rw [AciStage.relocated, bind_of_ok (World.tupleCache_of_loaded hw), TupleCache.relocated]
  cases hold : t.subentries.get? old with
  | none =>
      have hc : t.contains old = false := by
        rw [TupleCache.contains, OrdMap.contains, hold]
        rfl
      rw [hc]
      show (World.onTuples _ >>= fun _ => World.changeGroups _) w = _
      rw [bind_of_ok (World.onTuples_ok hw (hrebase t))]
      rfl
  | some cached =>
      have hc : t.contains old = true := by
        rw [TupleCache.contains, OrdMap.contains, hold]
        rfl
      have hrenamed : TupleCache.subentryRenamed old new t
          = .ok () ⟨(t.subentries.erase old).insert new cached⟩ := by
        have hget : (MonadState.get : Action TupleCache _) t = .ok t t := rfl
        rw [TupleCache.subentryRenamed, bind_of_ok hget, hold]
        rfl
      rw [hc]
      show (World.onTuples _ >>= fun _ => World.onTuples _ >>= fun _ => World.changeGroups _) w = _
      rw [bind_of_ok (World.onTuples_ok hw hrenamed),
        bind_of_ok (World.onTuples_ok rfl (hrebase _))]
      rfl

-- ── The access control stage ─────────────────────────────────────────────────────

/-- The store and the caches have taken the step of an operation. -/
def Followed (w : World MemoryStore) (op : Operation) (w' : World MemoryStore) : Prop :=
  ∃ s', w.store.after op = .ok s' ∧ w' = w.after op s'

/-- An operation that only reads leaves store and caches as they are. -/
theorem after_of_reading {op : Operation} (hop : op.isReading = true)
    (w : World MemoryStore) : w.store.after op = .ok w.store ∧ w.after op w.store = w := by
  cases op with
  | add _ | delete _ | modify _ _ | rename _ _ _ | move _ _ | moveAndRename _ _ _ _ =>
      cases hop
  | compare _ _ _ | lookup _ _ | hasEntry _ | search _ _ _ _ =>
      exact ⟨rfl, by simp [World.after, GroupCache.after, TupleCache.after]⟩

/-- An operation that only reads has taken its step at once. -/
theorem followed_of_reading {w w' : World MemoryStore} {op : Operation}
    (hop : op.isReading = true) (h : Stored w op w') : w' = w ∧ Followed w op w' := by
  obtain ⟨hstore, hafter⟩ := after_of_reading hop w
  obtain ⟨s', hs', rfl⟩ := h
  rw [hstore] at hs'
  cases hs'
  exact ⟨rfl, w.store, hstore, hafter.symm⟩

namespace AciStage

/-- Working out the tuples for an entry only reads. -/
theorem reads_tuplesFor (entry : Entry) (includeEntryAci : Bool) :
    Reads (tuplesFor entry includeEntryAci : Handling MemoryStore _) :=
  World.reads_tupleCache.bind fun _ => World.reads_onStore (reads_collectTuples _ _ _)

/-- The check at the source of an operation only reads. -/
theorem reads_checkSource (requester : Requester) (dn : Dn)
    (operations : List MicroOperation) :
    Reads (checkSource requester dn operations : Handling MemoryStore Entry) :=
  (World.reads_onStore (reads_lookupRequired dn)).bind fun _ =>
    (reads_tuplesFor _ _).bind fun _ => (Reads.ofExcept _).bind fun _ => Reads.pure _

/-- The check at the destination of an operation only reads. -/
theorem reads_checkDestination (requester : Requester) (provisional : Entry) :
    Reads (checkDestination requester provisional : Handling MemoryStore Unit) :=
  (reads_tuplesFor _ _).bind fun _ => Reads.ofExcept _

section

variable {stage : AciStage} {session : Session} {w : World MemoryStore} {t : TupleCache}
  {op : Operation} {P : Prop} {next : Handling MemoryStore (Outcome (World MemoryStore))}

/-- Once storage has added an entry that is valid, the caches follow. -/
theorem follows_add (hw : w.tuples = some t) {entry : Entry}
    (hv : validateSubentry entry = .ok ()) (o : Outcome (World MemoryStore)) (s' : MemoryStore) :
    (do
        let _ ← World.onTuples (TupleCache.subentryAdded entry.dn entry)
        World.changeGroups fun groups => groups.groupAdded entry
        return o : Handling MemoryStore (Outcome (World MemoryStore))) { w with store := s' }
      = .ok o (w.after (.add entry) s') := by
  obtain ⟨u, hu⟩ := t.subentryAdded_ok entry.dn hv
  rw [bind_of_ok (World.onTuples_ok (w := { w with store := s' }) hw hu), World.after, hw]
  rfl

/-- Once storage has deleted an entry, the caches follow. -/
theorem follows_delete (hw : w.tuples = some t) {dn : Dn} {entry : Entry}
    (hentry : w.store.lookup dn = some entry) (o : Outcome (World MemoryStore))
    (s' : MemoryStore) :
    (do
        let _ ← World.onTuples (TupleCache.subentryDeleted dn entry)
        World.changeGroups fun groups => groups.groupDeleted dn
        return o : Handling MemoryStore (Outcome (World MemoryStore))) { w with store := s' }
      = .ok o (w.after (.delete dn) s') := by
  obtain ⟨u, hu⟩ := t.subentryDeleted_ok dn entry
  rw [bind_of_ok (World.onTuples_ok (w := { w with store := s' }) hw hu), World.after, hw]
  show EStateM.Result.ok o _ = EStateM.Result.ok o _
  simp only [Option.map_some, TupleCache.after, hentry]
  rfl

/-- Once storage has modified an entry, the caches follow: the entry that was validated
    is the one that storage has afterwards. -/
theorem follows_modify (hw : w.tuples = some t) {dn : Dn} {mods : List Modification}
    {pre : Entry} {s' : MemoryStore} (hpre : w.store.lookup dn = some pre)
    (hv : validateSubentry (mods.foldl Entry.project pre) = .ok ())
    (hs' : w.store.modify dn mods = .ok s') (o : Outcome (World MemoryStore)) :
    (do
        World.changeGroups fun groups => groups.groupModified dn mods pre
        match ← World.onStore (Backend.lookup dn) with
        | some post =>
            let _ ← World.onTuples (TupleCache.subentryModified dn mods post)
        | none => pure ()
        return o : Handling MemoryStore (Outcome (World MemoryStore))) { w with store := s' }
      = .ok o (w.after (.modify dn mods) s') := by
  obtain ⟨e, he, -, hstore⟩ := MemoryStore.modify_ok hs'
  have hpre : w.store.entries.get? dn = some pre := hpre
  rw [hpre] at he
  cases he
  have hpost : s'.lookup dn = some (mods.foldl Entry.project pre) := by
    rw [hstore, MemoryStore.lookup, OrdMap.get?_insert_self]
  let w₁ := { w with store := s', groups := w.groups.groupModified dn mods pre }
  have hgroups : World.changeGroups (fun groups => groups.groupModified dn mods pre)
      { w with store := s' } = .ok () w₁ := rfl
  have hlookup : World.onStore (Backend.lookup dn) w₁
      = .ok (some (mods.foldl Entry.project pre)) w₁ := by
    show EStateM.Result.ok (s'.lookup dn) w₁ = _
    rw [hpost]
  obtain ⟨u, hu⟩ := t.subentryModified_ok dn mods hv
  rw [bind_of_ok hgroups, bind_of_ok hlookup]
  show (World.onTuples _ >>= fun _ => pure o) w₁ = _
  rw [bind_of_ok (World.onTuples_ok (w := w₁) hw hu), World.after, hw]
  simp only [Option.map_some, GroupCache.after, TupleCache.after, MemoryStore.lookup, hpre,
    show s'.entries.get? dn = _ from hpost]
  rfl

/-- Once storage has taken an entry to a new name, the caches follow. -/
theorem follows_relocation (hw : w.tuples = some t) {new : Dn} (hop : op.isRelocation = true)
    (hnew : op.newDn? = some new) (o : Outcome (World MemoryStore)) (s' : MemoryStore) :
    (do
        relocated op.target new
        return o : Handling MemoryStore (Outcome (World MemoryStore))) { w with store := s' }
      = .ok o (w.after op s') := by
  rw [bind_of_ok (relocated_ok (w := { w with store := s' }) op.target new hw)]
  cases op with
  | rename dn rdn deleteOld =>
      simp only [World.after, hw, Option.map_some, GroupCache.after, TupleCache.after, hnew]
      rfl
  | move dn superior =>
      simp only [World.after, hw, Option.map_some, GroupCache.after, TupleCache.after, hnew]
      rfl
  | moveAndRename dn superior rdn deleteOld =>
      simp only [World.after, hw, Option.map_some, GroupCache.after, TupleCache.after, hnew]
      rfl
  | add _ | delete _ | modify _ _ | compare _ _ _ | lookup _ _ | hasEntry _
  | search _ _ _ _ => cases hop

/-- Where storage has taken the step of an operation, the caches follow if what
    remains to be done ends in the world after the operation. -/
theorem commits_following {k : Outcome (World MemoryStore) →
      Handling MemoryStore (Outcome (World MemoryStore))}
    (hnext : Commits next w fun o w' => (op.Fits o ∧ Stored w op w') ∧ P)
    (hk : ∀ o s', w.store.after op = .ok s' →
      k o { w with store := s' } = .ok o (w.after op s')) :
    Commits (next >>= k) w fun o w' => (op.Fits o ∧ Followed w op w') ∧ P := by
  refine hnext.then_sure ?_
  rintro o w' ⟨⟨hfit, s', hs', rfl⟩, hP⟩
  exact ⟨o, _, hk o s' hs', ⟨hfit, s', hs', rfl⟩, hP⟩

/-- The stage has the caches follow an addition. -/
theorem commits_add (hw : w.tuples = some t) (entry : Entry)
    (hnext : Commits next w fun o w' =>
      ((Operation.add entry).Fits o ∧ Stored w (.add entry) w') ∧ P) :
    Commits (stage.add session entry next) w fun o w' =>
      ((Operation.add entry).Fits o ∧ Followed w (.add entry) w') ∧ P := by
  rw [AciStage.add]
  refine Commits.after_reads (Reads.ofExcept _) fun _ hv => ?_
  refine Commits.after_reads Reads.get fun w₀ hw₀ => ?_
  cases hw₀
  dsimp only
  have htail := commits_following (k := fun o => do
      let _ ← World.onTuples (TupleCache.subentryAdded entry.dn entry)
      World.changeGroups fun groups => groups.groupAdded entry
      return o) hnext fun o s' _ => follows_add hw (ofExcept_ok hv) o s'
  have hasked : ∀ tuples (count : Option Nat), Commits (do
      let count ← pure count
      Action.ofExcept (requireAddition (requester w.groups session) entry tuples count)
      let o ← next
      let _ ← World.onTuples (TupleCache.subentryAdded entry.dn entry)
      World.changeGroups fun groups => groups.groupAdded entry
      return o) w _ := fun tuples count =>
    Commits.after_reads (Reads.pure count) fun _ _ =>
      Commits.after_reads (Reads.ofExcept _) fun _ _ => htail
  split
  · refine Commits.after_reads (reads_tuplesFor entry false) fun tuples _ => ?_
    split
    · split
      · exact Commits.after_reads (World.reads_onStore (reads_countChildren _)) fun n _ =>
          hasked tuples (some n)
      · exact hasked tuples none
    · exact hasked tuples none
  · exact htail

/-- The stage has the caches follow a deletion. -/
theorem commits_delete (hw : w.tuples = some t) (dn : Dn)
    (hnext : Commits next w fun o w' =>
      ((Operation.delete dn).Fits o ∧ Stored w (.delete dn) w') ∧ P) :
    Commits (stage.delete session dn next) w fun o w' =>
      ((Operation.delete dn).Fits o ∧ Followed w (.delete dn) w') ∧ P := by
  rw [AciStage.delete]
  refine Commits.after_reads Reads.get fun w₀ hw₀ => ?_
  cases hw₀
  dsimp only
  have htail : ∀ entry, w.store.lookup dn = some entry → Commits (do
      let o ← next
      let _ ← World.onTuples (TupleCache.subentryDeleted dn entry)
      World.changeGroups fun groups => groups.groupDeleted dn
      return o) w fun o w' => ((Operation.delete dn).Fits o ∧ Followed w (.delete dn) w') ∧ P := by
    intro entry hentry
    exact commits_following hnext fun o s' _ => follows_delete hw hentry o s'
  split
  · refine Commits.after_reads (Reads.ofExcept _) fun _ _ => ?_
    refine Commits.after_reads (World.reads_onStore (reads_lookupRequired dn)) fun entry he => ?_
    refine Commits.after_reads (reads_tuplesFor entry true) fun tuples _ => ?_
    exact Commits.after_reads (Reads.ofExcept _) fun _ _ => htail entry (World.lookupRequired_ok he)
  · refine Commits.after_reads (World.reads_onStore (reads_lookupRequired dn)) fun entry he => ?_
    exact htail entry (World.lookupRequired_ok he)

/-- The stage has the caches follow modifications. -/
theorem commits_modify (hw : w.tuples = some t) (dn : Dn) (mods : List Modification)
    (hnext : Commits next w fun o w' =>
      ((Operation.modify dn mods).Fits o ∧ Stored w (.modify dn mods) w') ∧ P) :
    Commits (stage.modify session dn mods next) w fun o w' =>
      ((Operation.modify dn mods).Fits o ∧ Followed w (.modify dn mods) w') ∧ P := by
  rw [AciStage.modify]
  split
  · exact rfl
  refine Commits.after_reads (World.reads_onStore (reads_lookupRequired dn)) fun pre hpre => ?_
  refine Commits.after_reads (Reads.ofExcept _) fun _ hv => ?_
  refine Commits.after_reads Reads.get fun w₀ hw₀ => ?_
  cases hw₀
  dsimp only
  have htail := commits_following (k := fun o => do
      World.changeGroups fun groups => groups.groupModified dn mods pre
      match ← World.onStore (Backend.lookup dn) with
      | some post =>
          let _ ← World.onTuples (TupleCache.subentryModified dn mods post)
      | none => pure ()
      return o) hnext fun o s' hs' =>
        follows_modify hw (World.lookupRequired_ok hpre) (ofExcept_ok hv) hs' o
  split
  · refine Commits.after_reads (reads_tuplesFor pre true) fun tuples _ => ?_
    exact Commits.after_reads (Reads.ofExcept _) fun _ _ => htail
  · exact htail

/-- Where storage has taken an entry to a new name, the caches follow. -/
theorem commits_relocated (hw : w.tuples = some t) {new : Dn}
    (hop : op.isRelocation = true) (hnew : op.newDn? = some new)
    (hnext : Commits next w fun o w' => (op.Fits o ∧ Stored w op w') ∧ P) :
    Commits (do
        let o ← next
        relocated op.target new
        return o) w fun o w' => (op.Fits o ∧ Followed w op w') ∧ P := by
  exact commits_following hnext fun o s' _ => follows_relocation hw hop hnew o s'

/-- The stage has the caches follow a renaming. -/
theorem commits_rename (hw : w.tuples = some t) (dn : Dn) (rdn : Rdn) (deleteOld : Bool)
    (hnext : Commits next w fun o w' =>
      ((Operation.rename dn rdn deleteOld).Fits o ∧ Stored w (.rename dn rdn deleteOld) w') ∧ P) :
    Commits (stage.rename session dn rdn next) w fun o w' =>
      ((Operation.rename dn rdn deleteOld).Fits o ∧ Followed w (.rename dn rdn deleteOld) w')
        ∧ P := by
  rw [AciStage.rename]
  split
  · exact rfl
  · next parent hparent =>
    have hnew : (Operation.rename dn rdn deleteOld).newDn? = some (parent.child rdn) := by
      rw [Operation.newDn?, hparent]
      rfl
    have htail := commits_relocated hw rfl hnew hnext
    refine Commits.after_reads Reads.get fun w₀ hw₀ => ?_
    cases hw₀
    dsimp only
    split
    · refine Commits.after_reads (Reads.ofExcept _) fun _ _ => ?_
      exact Commits.after_reads (reads_checkSource _ _ _) fun _ _ => htail
    · exact htail

/-- The stage has the caches follow a move. -/
theorem commits_move (hw : w.tuples = some t) (dn superior : Dn)
    (hnext : Commits next w fun o w' =>
      ((Operation.move dn superior).Fits o ∧ Stored w (.move dn superior) w') ∧ P) :
    Commits (stage.move session dn superior next) w fun o w' =>
      ((Operation.move dn superior).Fits o ∧ Followed w (.move dn superior) w') ∧ P := by
  rw [AciStage.move]
  split
  · exact rfl
  · next rdn hrdn =>
    have hnew : (Operation.move dn superior).newDn? = some (superior.child rdn) := by
      rw [Operation.newDn?, hrdn]
      rfl
    have htail := commits_relocated hw rfl hnew hnext
    refine Commits.after_reads Reads.get fun w₀ hw₀ => ?_
    cases hw₀
    dsimp only
    split
    · refine Commits.after_reads (Reads.ofExcept _) fun _ _ => ?_
      refine Commits.after_reads (reads_checkSource _ _ _) fun _ _ => ?_
      exact Commits.after_reads (reads_checkDestination _ _) fun _ _ => htail
    · exact htail

/-- The stage has the caches follow a move to another name. -/
theorem commits_moveAndRename (hw : w.tuples = some t) (dn superior : Dn) (rdn : Rdn)
    (deleteOld : Bool)
    (hnext : Commits next w fun o w' =>
      ((Operation.moveAndRename dn superior rdn deleteOld).Fits o
        ∧ Stored w (.moveAndRename dn superior rdn deleteOld) w') ∧ P) :
    Commits (stage.moveAndRename session dn superior rdn deleteOld next) w fun o w' =>
      ((Operation.moveAndRename dn superior rdn deleteOld).Fits o
        ∧ Followed w (.moveAndRename dn superior rdn deleteOld) w') ∧ P := by
  rw [AciStage.moveAndRename]
  have htail := commits_relocated hw rfl rfl hnext
  refine Commits.after_reads Reads.get fun w₀ hw₀ => ?_
  cases hw₀
  dsimp only
  split
  · refine Commits.after_reads (Reads.ofExcept _) fun _ _ => ?_
    refine Commits.after_reads (reads_checkSource _ _ _) fun _ _ => ?_
    exact Commits.after_reads (reads_checkDestination _ _) fun _ _ => htail
  · exact htail

/-- Before an operation that only reads, and after it, the world is the same. -/
theorem commits_reading (hop : op.isReading = true)
    (hnext : Commits next w fun o w' => (op.Fits o ∧ Stored w op w') ∧ P) :
    Commits next w fun o w' => w' = w ∧ (op.Fits o ∧ Followed w op w) ∧ P := by
  refine hnext.mono ?_
  rintro o w' ⟨⟨hfit, hstored⟩, hP⟩
  obtain ⟨rfl, hfollowed⟩ := followed_of_reading hop hstored
  exact ⟨rfl, ⟨hfit, hfollowed⟩, hP⟩

/-- A comparison that is answered leaves the caches as they are. -/
theorem commits_compare (dn : Dn) (attr value : String)
    (hnext : Commits next w fun o w' =>
      ((Operation.compare dn attr value).Fits o ∧ Stored w (.compare dn attr value) w') ∧ P) :
    Commits (stage.compare session dn attr value next) w fun o w' =>
      ((Operation.compare dn attr value).Fits o ∧ Followed w (.compare dn attr value) w')
        ∧ P := by
  have hdone : Commits next w fun o w' =>
      ((Operation.compare dn attr value).Fits o ∧ Followed w (.compare dn attr value) w')
        ∧ P := by
    refine (commits_reading rfl hnext).mono ?_
    rintro o w' ⟨rfl, h⟩
    exact h
  rw [AciStage.compare]
  refine Commits.after_reads Reads.get fun w₀ hw₀ => ?_
  cases hw₀
  dsimp only
  split
  · refine Commits.after_reads (World.reads_onStore (reads_lookupRequired dn)) fun _ _ => ?_
    refine Commits.after_reads (reads_tuplesFor _ true) fun _ _ => ?_
    exact Commits.after_reads (Reads.ofExcept _) fun _ _ => hdone
  · exact hdone

/-- A lookup that is answered leaves the caches as they are. -/
theorem commits_lookup (dn : Dn) (attrs : Option (List String))
    (hnext : Commits next w fun o w' =>
      ((Operation.lookup dn attrs).Fits o ∧ Stored w (.lookup dn attrs) w') ∧ P) :
    Commits (stage.lookup session dn next) w fun o w' =>
      ((Operation.lookup dn attrs).Fits o ∧ Followed w (.lookup dn attrs) w') ∧ P := by
  have hread := commits_reading rfl hnext
  rw [AciStage.lookup]
  refine Commits.after_reads Reads.get fun w₀ hw₀ => ?_
  cases hw₀
  dsimp only
  split
  · refine hread.mono ?_
    rintro o w' ⟨rfl, h⟩
    exact h
  · refine Commits.after_reads (World.reads_onStore (reads_lookupRequired dn)) fun _ _ => ?_
    refine Commits.after_reads (reads_tuplesFor _ true) fun tuples _ => ?_
    refine Commits.after_reads (Reads.ofExcept _) fun _ _ => ?_
    refine hread.then_sure ?_
    rintro o w' ⟨rfl, ⟨⟨e, rfl⟩, hfollowed⟩, hP⟩
    exact ⟨_, _, rfl, ⟨⟨_, rfl⟩, hfollowed⟩, hP⟩

/-- Whether an entry is there is answered with the caches left as they are. -/
theorem commits_hasEntry (dn : Dn)
    (hnext : Commits next w fun o w' =>
      ((Operation.hasEntry dn).Fits o ∧ Stored w (.hasEntry dn) w') ∧ P) :
    Commits (stage.hasEntry session dn next) w fun o w' =>
      ((Operation.hasEntry dn).Fits o ∧ Followed w (.hasEntry dn) w') ∧ P := by
  rw [AciStage.hasEntry]
  refine (commits_reading rfl hnext).then_commits (fun _ _ h => h.1) ?_
  rintro o ⟨-, ⟨⟨b, rfl⟩, hfollowed⟩, hP⟩
  refine Commits.after_reads (Reads.ofExcept _) fun present _ => ?_
  refine Commits.after_reads Reads.get fun w₀ hw₀ => ?_
  cases hw₀
  dsimp only
  split
  · exact ⟨⟨⟨_, rfl⟩, hfollowed⟩, hP⟩
  · refine Commits.after_reads (World.reads_onStore (reads_lookup dn)) fun found _ => ?_
    split
    · exact ⟨⟨⟨_, rfl⟩, hfollowed⟩, hP⟩
    · refine Commits.after_reads (reads_tuplesFor _ true) fun tuples _ => ?_
      exact ⟨⟨⟨_, rfl⟩, hfollowed⟩, hP⟩

/-- What the stage does to the entries of a search only reads. -/
theorem reads_searchFilter (asker : Requester) (e : Entry) :
    Reads ((searchFilter asker : EntryFilter (World MemoryStore)) e) := by
  rw [searchFilter]
  refine (reads_tuplesFor e true).bind fun tuples => ?_
  split
  · exact Reads.pure _
  · exact Reads.pure _

/-- A search that is answered leaves the caches as they are. -/
theorem commits_search (base : Dn) (scope : SearchScope) (filter : Filter)
    (attrs : Option (List String))
    (hnext : Commits next w fun o w' =>
      ((Operation.search base scope filter attrs).Fits o
        ∧ Stored w (.search base scope filter attrs) w') ∧ P) :
    Commits (stage.search session next) w fun o w' =>
      ((Operation.search base scope filter attrs).Fits o
        ∧ Followed w (.search base scope filter attrs) w') ∧ P := by
  have hread := commits_reading rfl hnext
  rw [AciStage.search]
  refine Commits.after_reads Reads.get fun w₀ hw₀ => ?_
  cases hw₀
  dsimp only
  split
  · refine hread.mono ?_
    rintro o w' ⟨rfl, h⟩
    exact h
  · refine hread.then_sure ?_
    rintro o w' ⟨rfl, ⟨⟨cursor, rfl, hfilters⟩, hfollowed⟩, hP⟩
    refine ⟨_, _, rfl, ⟨⟨_, rfl, ?_⟩, hfollowed⟩, hP⟩
    intro f hf e
    rcases List.mem_append.mp hf with hf | hf
    · exact hfilters f hf e
    · rw [List.mem_singleton.mp hf]
      exact reads_searchFilter _ e

/-- The access control stage lets the caches follow what storage has done. -/
theorem commits_handle (hw : w.tuples = some t)
    (hnext : Commits next w fun o w' => (op.Fits o ∧ Stored w op w') ∧ P) :
    Commits (stage.handle session op next) w fun o w' =>
      (op.Fits o ∧ Followed w op w') ∧ P := by
  unfold AciStage.handle
  refine Commits.after_reads World.reads_tupleCache fun _ _ => ?_
  cases op with
  | add entry => exact commits_add hw entry hnext
  | delete dn => exact commits_delete hw dn hnext
  | modify dn mods => exact commits_modify hw dn mods hnext
  | rename dn rdn deleteOld => exact commits_rename hw dn rdn deleteOld hnext
  | move dn superior => exact commits_move hw dn superior hnext
  | moveAndRename dn superior rdn deleteOld =>
      exact commits_moveAndRename hw dn superior rdn deleteOld hnext
  | compare dn attr value => exact commits_compare dn attr value hnext
  | lookup dn attrs => exact commits_lookup dn attrs hnext
  | hasEntry dn => exact commits_hasEntry dn hnext
  | search base scope filter attrs => exact commits_search base scope filter attrs hnext

end

end AciStage

end DirectoryAccess
