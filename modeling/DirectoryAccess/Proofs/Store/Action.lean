import DirectoryAccess.Authorization.Tuples
import DirectoryAccess.Chain.World
import DirectoryAccess.Store.Memory

/-! # Computations on a state — reading it, and changing it all or not at all

    A computation READS a state if it leaves it as it is, whether it succeeds or
    fails.  It COMMITS from a state if a failure leaves the state as it is, and a
    success ends as it should.  Reading in front of a commit is harmless; what
    comes after one must not fail. -/

namespace DirectoryAccess

namespace Action

variable {σ α β : Type}

/-- The computation never changes the state. -/
def Reads (act : Action σ α) : Prop :=
  ∀ s, (∃ a, act s = .ok a s) ∨ ∃ e, act s = .error e s

/-- From this state the computation fails and leaves the state as it is, or it
    succeeds as it should. -/
def Commits (act : Action σ α) (s : σ) (post : α → σ → Prop) : Prop :=
  match act s with
  | .ok a s' => post a s'
  | .error _ s' => s' = s

-- ── Running ──────────────────────────────────────────────────────────────────────

/-- A sequence goes on where its first action has left off. -/
theorem bind_of_ok {x : Action σ α} {f : α → Action σ β} {s s' : σ} {a : α}
    (h : x s = .ok a s') : (x >>= f) s = f a s' := by
  show EStateM.bind x f s = _
  rw [EStateM.bind, h]

/-- A sequence fails where its first action does. -/
theorem bind_of_error {x : Action σ α} {f : α → Action σ β} {s s' : σ}
    {e : OperationError} (h : x s = .error e s') : (x >>= f) s = .error e s' := by
  show EStateM.bind x f s = _
  rw [EStateM.bind, h]

/-- What does not fail is not caught. -/
theorem tryCatch_of_ok {x : Action σ α} {f : OperationError → Action σ α} {s s' : σ} {a : α}
    (h : x s = .ok a s') : tryCatchThe OperationError x f s = .ok a s' := by
  show EStateM.tryCatch x f s = _
  unfold EStateM.tryCatch
  rw [h]

/-- What fails is caught where it has left off. -/
theorem tryCatch_of_error {x : Action σ α} {f : OperationError → Action σ α} {s s' : σ}
    {e : OperationError} (h : x s = .error e s') :
    tryCatchThe OperationError x f s = f e s' := by
  show EStateM.tryCatch x f s = _
  unfold EStateM.tryCatch
  rw [h]
  rfl

-- ── Reading ──────────────────────────────────────────────────────────────────────

theorem Reads.pure (a : α) : Reads (Pure.pure a : Action σ α) :=
  fun _ => Or.inl ⟨a, rfl⟩

theorem Reads.throw (e : OperationError) : Reads (MonadExcept.throw e : Action σ α) :=
  fun _ => Or.inr ⟨e, rfl⟩

theorem Reads.get : Reads (MonadState.get : Action σ σ) :=
  fun s => Or.inl ⟨s, rfl⟩

theorem Reads.ofExcept (x : Except OperationError α) :
    Reads (Action.ofExcept x : Action σ α) := by
  cases x with
  | ok a => exact Reads.pure a
  | error e => exact Reads.throw e

/-- Actions that only read only read one after the other. -/
theorem Reads.bind {x : Action σ α} {f : α → Action σ β} (hx : Reads x)
    (hf : ∀ a, Reads (f a)) : Reads (x >>= f) := by
  intro s
  rcases hx s with ⟨a, ha⟩ | ⟨e, he⟩
  · rw [bind_of_ok ha]
    exact hf a s
  · exact Or.inr ⟨e, bind_of_error he⟩

/-- Where reading stands in front of a success, it has succeeded. -/
theorem Reads.of_bind_ok {x : Action σ α} {f : α → Action σ β} {s s' : σ} {b : β} (hx : Reads x)
    (h : (x >>= f) s = .ok b s') : ∃ a, x s = .ok a s ∧ f a s = .ok b s' := by
  rcases hx s with ⟨a, ha⟩ | ⟨e, he⟩
  · exact ⟨a, ha, (bind_of_ok ha).symm.trans h⟩
  · rw [bind_of_error he] at h
    cases h

/-- An action that only reads, with another such action to take over where it fails, only
    reads. -/
theorem Reads.tryCatch {x : Action σ α} {f : OperationError → Action σ α}
    (hx : Reads x) (hf : ∀ e, Reads (f e)) : Reads (tryCatchThe OperationError x f) := by
  intro s
  rcases hx s with ⟨a, ha⟩ | ⟨e, he⟩
  · exact Or.inl ⟨a, tryCatch_of_ok ha⟩
  · rw [tryCatch_of_error he]
    exact hf e s

/-- What only reads a part only reads the whole, if putting back a part changes nothing. -/
theorem Reads.onPart {τ : Type} {get : σ → τ} {put : τ → σ → σ} {act : Action τ α}
    (hput : ∀ s, put (get s) s = s) (h : Reads act) : Reads (Action.onPart get put act) := by
  intro s
  rw [Action.onPart]
  rcases h (get s) with ⟨a, ha⟩ | ⟨e, he⟩
  · rw [ha]
    exact Or.inl ⟨a, congrArg (EStateM.Result.ok a) (hput s)⟩
  · rw [he]
    exact Or.inr ⟨e, congrArg (EStateM.Result.error e) (hput s)⟩

-- ── Committing ───────────────────────────────────────────────────────────────────

/-- What is committed may be told with less. -/
theorem Commits.mono {act : Action σ α} {s : σ} {post post' : α → σ → Prop}
    (h : Commits act s post) (hpost : ∀ a s', post a s' → post' a s') :
    Commits act s post' := by
  rw [Commits] at h ⊢
  split at h
  · exact hpost _ _ h
  · exact h

/-- Reading may stand in front of a commit. -/
theorem Commits.after_reads {x : Action σ α} {f : α → Action σ β} {s : σ}
    {post : β → σ → Prop} (hx : Reads x)
    (hf : ∀ a, x s = .ok a s → Commits (f a) s post) : Commits (x >>= f) s post := by
  rcases hx s with ⟨a, ha⟩ | ⟨e, he⟩
  · rw [Commits, bind_of_ok ha]
    exact hf a ha
  · rw [Commits, bind_of_error he]

/-- What follows a commit must succeed. -/
theorem Commits.then_sure {x : Action σ α} {f : α → Action σ β} {s : σ}
    {mid : α → σ → Prop} {post : β → σ → Prop} (hx : Commits x s mid)
    (hf : ∀ a s', mid a s' → ∃ b s'', f a s' = .ok b s'' ∧ post b s'') :
    Commits (x >>= f) s post := by
  rw [Commits] at hx
  cases hr : x s with
  | ok a s' =>
      rw [hr] at hx
      obtain ⟨b, s'', hb, hpost⟩ := hf a s' hx
      rw [Commits, bind_of_ok hr, hb]
      exact hpost
  | error e s' =>
      rw [hr] at hx
      rw [Commits, bind_of_error hr]
      exact hx

/-- What follows a computation that has changed nothing may fail. -/
theorem Commits.then_commits {x : Action σ α} {f : α → Action σ β} {s : σ}
    {mid : α → σ → Prop} {post : β → σ → Prop} (hx : Commits x s mid)
    (hsame : ∀ a s', mid a s' → s' = s) (hf : ∀ a, mid a s → Commits (f a) s post) :
    Commits (x >>= f) s post := by
  rw [Commits] at hx
  cases hr : x s with
  | ok a s' =>
      rw [hr] at hx
      have hs : s' = s := hsame a s' hx
      subst hs
      rw [Commits, bind_of_ok hr]
      exact hf a hx
  | error e s' =>
      rw [hr] at hx
      rw [Commits, bind_of_error hr]
      exact hx

-- ── Giving an answer ─────────────────────────────────────────────────────────────

/-- From this state the computation comes to this answer, or is refused for this cause,
    and leaves the state as it is. -/
def Gives (act : Action σ α) (s : σ) (r : Except OperationError α) : Prop :=
  act s = (Action.ofExcept r : Action σ α) s

theorem Gives.get (s : σ) : Gives MonadState.get s (.ok s) := rfl

theorem Gives.congr {act : Action σ α} {s : σ} {r r' : Except OperationError α}
    (h : Gives act s r) (hr : r = r') : Gives act s r' := hr ▸ h

/-- What is given is passed on. -/
theorem Gives.bind {x : Action σ α} {f : α → Action σ β} {s : σ} {r : Except OperationError α}
    {g : α → Except OperationError β} (hx : Gives x s r)
    (hf : ∀ a, r = .ok a → Gives (f a) s (g a)) : Gives (x >>= f) s (r >>= g) := by
  cases r with
  | ok a => exact (bind_of_ok hx).trans (hf a rfl)
  | error e => exact bind_of_error hx

/-- A part that gives an answer may stand in front. -/
theorem Gives.after {x : Action σ α} {f : α → Action σ β} {s : σ} {a : α}
    {r : Except OperationError β} (hx : Gives x s (.ok a)) (hf : Gives (f a) s r) :
    Gives (x >>= f) s r := (bind_of_ok hx).trans hf

-- ── Failing ──────────────────────────────────────────────────────────────────────

/-- From this state the computation fails. -/
def Fails (act : Action σ α) (s : σ) : Prop := ∃ e s', act s = .error e s'

theorem Fails.bind {x : Action σ α} {f : α → Action σ β} {s : σ} (h : Fails x s) :
    Fails (x >>= f) s := by
  obtain ⟨e, s', he⟩ := h
  exact ⟨e, s', bind_of_error he⟩

theorem Fails.after {x : Action σ α} {f : α → Action σ β} {s s' : σ} {a : α}
    (hx : x s = .ok a s') (h : Fails (f a) s') : Fails (x >>= f) s := by
  obtain ⟨e, s'', he⟩ := h
  exact ⟨e, s'', (bind_of_ok hx).trans he⟩

/-- What is given as an error fails. -/
theorem Fails.ofExcept {x : Except OperationError α} {e : OperationError} (h : x = .error e)
    (s : σ) : Fails (Action.ofExcept x : Action σ α) s := by
  rw [h]
  exact ⟨e, s, rfl⟩

end Action

-- ── Asking storage ───────────────────────────────────────────────────────────────

section

open DirectoryAccess.Action

variable {σ : Type}

/-- Collecting results touches nothing. -/
theorem reads_collectResults (results : List (Except OperationError Entry)) :
    Reads (collectResults results : Action σ (List Entry)) := by
  induction results with
  | nil => exact Reads.pure _
  | cons r rest ih =>
      cases r with
      | ok e => exact ih.bind fun _ => Reads.pure _
      | error err => exact Reads.throw err

/-- A question to the store only reads it. -/
theorem MemoryStore.reads_query {α : Type} (ask : MemoryStore → Except OperationError α) :
    Reads (MemoryStore.query ask) := by
  intro s
  rw [MemoryStore.query]
  cases ask s with
  | ok a => exact Or.inl ⟨a, rfl⟩
  | error e => exact Or.inr ⟨e, rfl⟩

/-- An operation on the memory store changes it all or not at all. -/
theorem MemoryStore.commits_update (op : MemoryStore → Except OperationError MemoryStore)
    (s : MemoryStore) : Commits (MemoryStore.update op) s fun _ s' => op s = .ok s' := by
  rw [Commits, MemoryStore.update]
  cases op s with
  | ok s' => rfl
  | error e => rfl

theorem reads_lookup (dn : Dn) : Reads (Backend.lookup dn : Action MemoryStore _) :=
  MemoryStore.reads_query _

theorem reads_search (base : Dn) (scope : SearchScope) (filter : Filter) :
    Reads (Backend.search base scope filter : Action MemoryStore _) :=
  MemoryStore.reads_query _

theorem reads_lookupRequired (dn : Dn) :
    Reads (Backend.lookupRequired dn : Action MemoryStore Entry) := by
  refine (reads_lookup dn).bind fun found => ?_
  cases found with
  | some e => exact Reads.pure e
  | none => exact Reads.throw _

/-- An entry that must be there is the one under its name. -/
theorem lookupRequired_ok {dn : Dn} {e : Entry} {s s' : MemoryStore}
    (h : (Backend.lookupRequired dn : Action MemoryStore Entry) s = .ok e s') :
    s.lookup dn = some e := by
  have hl : (Backend.lookup dn : Action MemoryStore _) s = .ok (s.lookup dn) s := rfl
  rw [Backend.lookupRequired, bind_of_ok hl] at h
  cases hd : s.lookup dn with
  | some e' =>
      rw [hd] at h
      cases h
      rfl
  | none =>
      rw [hd] at h
      cases h

/-- What storage says of an entry that must be there. -/
def MemoryStore.required (s : MemoryStore) (dn : Dn) : Except OperationError Entry :=
  match s.lookup dn with
  | some e => .ok e
  | none => .error .noMatchingEntries

/-- Looking up an entry that must be there gives it, or says that there is none. -/
theorem MemoryStore.gives_required (s : MemoryStore) (dn : Dn) :
    Gives (Backend.lookupRequired dn) s (s.required dn) := by
  have hl : Gives (Backend.lookup dn) s (.ok (s.lookup dn)) := rfl
  refine hl.after ?_
  rw [MemoryStore.required]
  cases s.lookup dn <;> rfl

theorem reads_countChildren (dn : Dn) :
    Reads (Backend.countChildren dn : Action MemoryStore Nat) :=
  (reads_search dn .oneLevel Filter.all).bind fun results =>
    (reads_collectResults results).bind fun _ => Reads.pure _

/-- Searching below each suffix only reads. -/
theorem reads_findBelow (filter : Filter) (suffixes : List Dn) :
    Reads (findBelow filter suffixes : Action MemoryStore (List Entry)) := by
  induction suffixes with
  | nil => exact Reads.pure _
  | cons suffix rest ih =>
      refine Reads.bind ?_ fun results =>
        (reads_collectResults results).bind fun _ => ih.bind fun _ => Reads.pure _
      refine Reads.tryCatch (reads_search suffix .subtree filter) fun e => ?_
      split
      · exact Reads.pure _
      · exact Reads.throw _

/-- Working out the tuples that subentries prescribe only reads. -/
theorem reads_prescribedTuples (cache : TupleCache) (entry : Entry) :
    Reads (prescribedTuples cache entry : Action MemoryStore _) := by
  rw [prescribedTuples]
  split
  · split
    · exact Reads.pure _
    · exact (reads_lookup _).bind fun _ => Reads.pure _
  · exact Reads.pure _

/-- Collecting all tuples in force for an entry only reads. -/
theorem reads_collectTuples (cache : TupleCache) (entry : Entry) (includeEntryAci : Bool) :
    Reads (collectTuples cache entry includeEntryAci : Action MemoryStore _) :=
  (reads_prescribedTuples cache entry).bind fun _ => Reads.pure _

end

-- ── Asking the world ─────────────────────────────────────────────────────────────

namespace World

open DirectoryAccess.Action

variable {α : Type}

/-- Reading storage reads the world. -/
theorem reads_onStore {act : Action MemoryStore α} (h : Reads act) :
    Reads (World.onStore act) :=
  Reads.onPart (fun _ => rfl) h

/-- What storage gives, the world gives. -/
theorem gives_onStore {act : Action MemoryStore α} {w : World MemoryStore}
    {r : Except OperationError α} (h : Gives act w.store r) : Gives (World.onStore act) w r := by
  rw [Gives] at h
  rw [Gives, World.onStore, Action.onPart, h]
  cases r <;> rfl

/-- A commit on storage leaves the caches as they are. -/
theorem commits_onStore {act : Action MemoryStore α} {w : World MemoryStore}
    {post : α → MemoryStore → Prop} (h : Commits act w.store post) :
    Commits (World.onStore act) w
      fun a w' => ∃ s', post a s' ∧ w' = { w with store := s' } := by
  rw [Commits] at h
  rw [Commits, World.onStore, Action.onPart]
  cases hr : act w.store with
  | ok a s' =>
      rw [hr] at h
      exact ⟨s', h, rfl⟩
  | error e s' =>
      rw [hr] at h
      show { w with store := s' } = w
      rw [h]

/-- An entry that must be in storage is the one under its name. -/
theorem lookupRequired_ok {dn : Dn} {e : Entry} {w w' : World MemoryStore}
    (h : World.onStore (Backend.lookupRequired dn) w = .ok e w') :
    w.store.lookup dn = some e := by
  rw [World.onStore, Action.onPart] at h
  cases hr : (Backend.lookupRequired dn : Action MemoryStore Entry) w.store with
  | ok e' s' =>
      rw [hr] at h
      cases h
      exact DirectoryAccess.lookupRequired_ok hr
  | error err s' =>
      rw [hr] at h
      cases h

theorem reads_tupleCache : Reads (tupleCache : Action (World MemoryStore) TupleCache) := by
  refine Reads.get.bind fun w => ?_
  split
  · exact Reads.pure _
  · exact Reads.throw _

/-- A tuple cache that is loaded is at hand. -/
theorem tupleCache_of_loaded {σ : Type} {w : World σ} {t : TupleCache}
    (h : w.tuples = some t) : (tupleCache : Action (World σ) _) w = .ok t w := by
  have hget : (MonadState.get : Action (World σ) _) w = .ok w w := rfl
  rw [tupleCache, bind_of_ok hget, h]
  rfl

end World

end DirectoryAccess
