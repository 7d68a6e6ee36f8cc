import DirectoryAccess.Proofs.Cache.Loading
import DirectoryAccess.Proofs.Server.Transition

/-! # Reachable servers — a start, and operations after it

    A server starts over a store that operations have built and then takes steps,
    whoever asks for them.  Every reachable server has the two standard stages and
    a loaded tuple cache, so every step of it either fails and changes nothing, or
    takes store and caches through the transition of its operation. -/

namespace DirectoryAccess

open DirectoryAccess.Action

namespace Server

/-- The servers that operations under any sessions lead to from a start. -/
inductive Reachable (config : Configuration) : Server MemoryStore → Prop
  | start {store : MemoryStore} {server : Server MemoryStore} :
      store.Built → Server.start config store = .ok server → Reachable config server
  | step {server : Server MemoryStore} (session : Session) (op : Operation) :
      Reachable config server → Reachable config (server.step session op).2

/-- The stages of the standard server. -/
def standardStages (config : Configuration) : List Stage :=
  [.aci (AciStage.ofConfiguration config),
   .default (DefaultStage.ofConfiguration config .shared)]

/-- What the fixed policy of a configuration says to an operation in a world, while
    access control is switched off. -/
def Allows (config : Configuration) (session : Session) (op : Operation)
    (w : World MemoryStore) : Prop :=
  (DefaultStage.ofConfiguration config .shared).Allows session op w

-- ── Taking a step ────────────────────────────────────────────────────────────────

/-- A prepared operation takes the same transition and is allowed alike. -/
theorem of_prepared {config : Configuration} {session : Session} {op : Operation}
    {w w' : World MemoryStore}
    (h : Followed w (prepare op) w' ∧ Allows config session (prepare op) w) :
    Followed w op w' ∧ Allows config session op w := by
  cases op with
  | compare _ _ _ => exact h
  | add _ | delete _ | modify _ _ | rename _ _ _ | move _ _ | moveAndRename _ _ _ _
  | lookup _ _ | hasEntry _ | search _ _ _ _ => exact h

/-- What is only read leaves the world as it is. -/
theorem same_of_followed {w w' : World MemoryStore} {op : Operation}
    (hop : op.isReading = true) (h : Followed w op w') : w' = w := by
  obtain ⟨hstore, hafter⟩ := after_of_reading hop w
  obtain ⟨s', hs', rfl⟩ := h
  rw [hstore] at hs'
  cases hs'
  exact hafter

/-- Picking attributes out of an outcome keeps its kind. -/
theorem fits_pick {op : Operation} {o : Outcome (World MemoryStore)} (h : op.Fits o) :
    op.Fits (Chain.pick op o) := by
  cases op with
  | add _ | delete _ | modify _ _ | rename _ _ _ | move _ _ | moveAndRename _ _ _ _
  | compare _ _ _ | hasEntry _ => exact h
  | lookup dn attrs =>
      obtain ⟨e, rfl⟩ := h
      cases attrs with
      | none => exact ⟨e, rfl⟩
      | some attrs => exact ⟨_, rfl⟩
  | search base scope filter attrs =>
      obtain ⟨cursor, rfl, hfilters⟩ := h
      cases attrs with
      | none => exact ⟨cursor, rfl, hfilters⟩
      | some attrs =>
          refine ⟨_, rfl, ?_⟩
          intro f hf e
          rcases List.mem_append.mp hf with hf | hf
          · exact hfilters f hf e
          · rw [List.mem_singleton.mp hf]
            exact Reads.pure _

/-- Filters that only read do so one after the other. -/
theorem reads_through {σ : Type} {fs : List (EntryFilter σ)}
    (h : ∀ f ∈ fs, ∀ e, Reads (f e)) (e : Entry) : Reads (EntryCursor.through e fs) := by
  induction fs generalizing e with
  | nil => exact Reads.pure _
  | cons f rest ih =>
      refine (h f (List.mem_cons_self ..) e).bind fun r => ?_
      cases r with
      | some e' => exact ih (fun f' hf' => h f' (List.mem_cons_of_mem _ hf')) e'
      | none => exact Reads.pure _

/-- A cursor whose filters only read only reads. -/
theorem reads_collect {σ : Type} {c : EntryCursor σ}
    (h : ∀ f ∈ c.filters, ∀ e, Reads (f e)) : Reads c.collect := by
  rw [EntryCursor.collect]
  induction c.results with
  | nil => exact Reads.pure _
  | cons r rest ih =>
      cases r with
      | error err => exact Reads.throw err
      | ok e =>
          refine (reads_through h e).bind fun kept => ?_
          cases kept with
          | some e' => exact ih.bind fun _ => Reads.pure _
          | none => exact ih

/-- An operation that is run through the standard stages is allowed by the fixed
    policy and takes store and caches through its transition, or it fails and leaves
    the world as it is. -/
theorem commits_execute (config : Configuration) (session : Session) (op : Operation)
    {w : World MemoryStore} {t : TupleCache} (hw : w.tuples = some t) :
    Commits (Chain.execute (standardStages config) session op) w fun o w' =>
      (op.Fits o ∧ Followed w op w') ∧ Allows config session op w := by
  have hpassed : Commits (Chain.proceed session op (standardStages config)) w fun o w' =>
      (op.Fits o ∧ Followed w op w') ∧ Allows config session op w :=
    AciStage.commits_handle hw
      (DefaultStage.commits_handle rfl session op (commits_dispatch op w))
  refine hpassed.then_sure ?_
  rintro o w' ⟨⟨hfit, hfollowed⟩, hallows⟩
  exact ⟨_, w', rfl, ⟨fits_pick hfit, hfollowed⟩, hallows⟩

/-- What a session is told is put together without a failure, or by reading a world
    that has not changed. -/
theorem commits_perform (config : Configuration) (session : Session) (op : Operation)
    {w : World MemoryStore} {t : TupleCache} (hw : w.tuples = some t) :
    Commits (perform (standardStages config) session op) w fun _ w' =>
      Followed w op w' ∧ Allows config session op w := by
  have hexecuted := commits_execute config session (prepare op) hw
  refine Commits.mono ?_ fun _ _ => of_prepared
  unfold perform
  generalize prepare op = op at hexecuted ⊢
  cases op with
  | add _ | delete _ | modify _ _ | rename _ _ _ | move _ _ | moveAndRename _ _ _ _ =>
      refine hexecuted.then_sure ?_
      rintro o w' ⟨⟨rfl, hfollowed⟩, hallows⟩
      exact ⟨.done, w', rfl, hfollowed, hallows⟩
  | compare _ _ _ | lookup _ _ | hasEntry _ =>
      refine hexecuted.then_sure ?_
      rintro o w' ⟨⟨⟨_, rfl⟩, hfollowed⟩, hallows⟩
      exact ⟨_, w', rfl, hfollowed, hallows⟩
  | search _ _ _ _ =>
      refine hexecuted.then_commits (fun _ _ h => same_of_followed rfl h.1.2) ?_
      rintro o ⟨⟨⟨cursor, rfl, hfilters⟩, hfollowed⟩, hallows⟩
      refine Commits.after_reads (Reads.pure cursor) fun c hc => ?_
      cases hc
      refine Commits.after_reads (reads_collect hfilters) fun entries _ => ?_
      exact ⟨hfollowed, hallows⟩

/-- A server of a configuration in the standard make-up, its tuple cache loaded. -/
structure Standard (config : Configuration) (server : Server MemoryStore) : Prop where
  config_eq : server.config = config
  stages_eq : server.stages = standardStages config
  loaded : ∃ t, server.world.tuples = some t

/-- A step that fails leaves a standard server as it is; any other step is allowed by
    the fixed policy and takes store and caches through the transition of its
    operation. -/
theorem Standard.step_cases {config : Configuration} {server : Server MemoryStore}
    (h : Standard config server) (session : Session) (op : Operation) :
    ((∃ e, (server.step session op).1 = .error e) ∧ (server.step session op).2 = server)
      ∨ ((∃ answer, (server.step session op).1 = .ok answer)
        ∧ ∃ w, (server.step session op).2 = { server with world := w }
          ∧ Followed server.world op w ∧ Allows config session op server.world) := by
  obtain ⟨t, ht⟩ := h.loaded
  have hperform := commits_perform config session op ht
  rw [Commits] at hperform
  rw [step, h.stages_eq]
  cases hr : perform (standardStages config) session op server.world with
  | ok answer w =>
      rw [hr] at hperform
      exact Or.inr ⟨⟨answer, rfl⟩, w, rfl, hperform.1, hperform.2⟩
  | error e w =>
      rw [hr] at hperform
      have hw : w = server.world := hperform
      subst hw
      refine Or.inl ⟨⟨e, rfl⟩, ?_⟩
      rw [← h.stages_eq]

/-- Every step of a standard server leaves a standard server. -/
theorem Standard.step {config : Configuration} {server : Server MemoryStore}
    (h : Standard config server) (session : Session) (op : Operation) :
    Standard config (server.step session op).2 := by
  rcases h.step_cases session op with ⟨-, hsame⟩ | ⟨-, w, hserver, ⟨s', -, rfl⟩, -⟩
  · rw [hsame]
    exact h
  · obtain ⟨t, ht⟩ := h.loaded
    rw [hserver]
    exact ⟨h.config_eq, h.stages_eq, _, World.tuples_after ht op s'⟩

-- ── Starting ─────────────────────────────────────────────────────────────────────

theorem reads_loadGroups (c : GroupCache) :
    Reads (GroupCache.load c : Action MemoryStore GroupCache) :=
  Reads.get.bind fun _ => (reads_findBelow _ _).bind fun _ => Reads.pure _

theorem reads_loadTuples : Reads (TupleCache.load : Action MemoryStore TupleCache) :=
  Reads.get.bind fun _ => (reads_findBelow _ _).bind fun _ => Reads.pure _

/-- What only reads the store, and succeeds, leaves the world. -/
theorem onStore_of_ok {α : Type} {act : Action MemoryStore α} {w : World MemoryStore} {a : α}
    (h : act w.store = .ok a w.store) : World.onStore act w = .ok a w := by
  rw [World.onStore, Action.onPart, h]

/-- What only reads the store, and fails, leaves the world. -/
theorem onStore_of_error {α : Type} {act : Action MemoryStore α} {w : World MemoryStore}
    {e : OperationError} (h : act w.store = .error e w.store) :
    World.onStore act w = .error e w := by
  rw [World.onStore, Action.onPart, h]

/-- Both caches are loaded from the store, which stays as it is. -/
theorem aciInit_ok {w w' : World MemoryStore} (h : AciStage.init w = .ok () w') :
    ∃ g t, GroupCache.load w.groups w.store = .ok g w.store
      ∧ TupleCache.load w.store = .ok t w.store
      ∧ w' = { w with groups := g, tuples := some t } := by
  have hget : (MonadState.get : Action (World MemoryStore) _) w = .ok w w := rfl
  unfold AciStage.init at h
  rw [bind_of_ok hget] at h
  rcases reads_loadGroups w.groups w.store with ⟨g, hg⟩ | ⟨e, he⟩
  · rw [bind_of_ok (onStore_of_ok hg)] at h
    let w₁ := { w with groups := g }
    have hset : (modify fun w => { w with groups := g } : Action (World MemoryStore) Unit) w
        = .ok () w₁ := rfl
    rw [bind_of_ok hset] at h
    rcases reads_loadTuples w₁.store with ⟨t, ht⟩ | ⟨e, he⟩
    · rw [bind_of_ok (onStore_of_ok ht)] at h
      cases h
      exact ⟨g, t, hg, ht, rfl⟩
    · rw [bind_of_error (onStore_of_error he)] at h
      cases h
  · rw [bind_of_error (onStore_of_error he)] at h
    cases h

/-- Where both caches can be loaded, they are. -/
theorem aciInit_of_loads {w : World MemoryStore} {g : GroupCache} {t : TupleCache}
    (hg : GroupCache.load w.groups w.store = .ok g w.store)
    (ht : TupleCache.load w.store = .ok t w.store) :
    AciStage.init w = .ok () { w with groups := g, tuples := some t } := by
  have hget : (MonadState.get : Action (World MemoryStore) _) w = .ok w w := rfl
  let w₁ := { w with groups := g }
  have hset : (modify fun w => { w with groups := g } : Action (World MemoryStore) Unit) w
      = .ok () w₁ := rfl
  have hload : World.onStore TupleCache.load w₁ = .ok t w₁ := onStore_of_ok ht
  unfold AciStage.init
  rw [bind_of_ok hget, bind_of_ok (onStore_of_ok hg), bind_of_ok hset, bind_of_ok hload]
  rfl

/-- The default stage, which shares the group cache, has nothing to prepare. -/
theorem initShared (config : Configuration) (w : World MemoryStore) :
    Chain.init [.default (DefaultStage.ofConfiguration config .shared)] w = .ok () w := by
  show ((if _ && false then _ else _ : Handling MemoryStore Unit) >>= fun _ => pure ()) w = _
  rw [Bool.and_false]
  rfl

/-- Preparing the standard stages loads both caches; the default stage, which shares
    the group cache, adds nothing. -/
theorem initStages_ok {config : Configuration} {w w' : World MemoryStore}
    (h : Chain.init (standardStages config) w = .ok () w') :
    ∃ g t, GroupCache.load w.groups w.store = .ok g w.store
      ∧ TupleCache.load w.store = .ok t w.store
      ∧ w' = { w with groups := g, tuples := some t } := by
  cases hinit : AciStage.init w with
  | error e w₁ =>
      have hfail : Chain.init (standardStages config) w = .error e w₁ := bind_of_error hinit
      rw [hfail] at h
      cases h
  | ok u w₁ =>
      have hrest : Chain.init (standardStages config) w
          = Chain.init [.default (DefaultStage.ofConfiguration config .shared)] w₁ :=
        bind_of_ok hinit
      rw [hrest, initShared] at h
      cases h
      exact aciInit_ok hinit

/-- A server starts over its store with both caches loaded from it. -/
theorem start_ok {config : Configuration} {store : MemoryStore} {server : Server MemoryStore}
    (h : Server.start config store = .ok server) :
    server.config = config ∧ server.stages = standardStages config
      ∧ server.world.store = store
      ∧ GroupCache.load (GroupCache.unloaded config.adminDn config.adminGroupDn) store
          = .ok server.world.groups store
      ∧ ∃ t, TupleCache.load store = .ok t store ∧ server.world.tuples = some t := by
  simp only [Server.start, withStages] at h
  split at h
  · next w hinit =>
    obtain ⟨g, t, hg, ht, rfl⟩ := initStages_ok hinit
    cases h
    exact ⟨rfl, rfl, rfl, hg, t, ht, rfl⟩
  · cases h

/-- The standard server over a store without entries. -/
def fresh (config : Configuration) (suffixes : List Dn) : Server MemoryStore where
  config := config
  stages := standardStages config
  world := {
    unloadedWorld config (standardStages config) (MemoryStore.ofSuffixes suffixes) with
    tuples := some TupleCache.empty }

/-- Over a store without entries a server starts with caches without entries. -/
theorem start_fresh (config : Configuration) (suffixes : List Dn) :
    Server.start config (MemoryStore.ofSuffixes suffixes) = .ok (fresh config suffixes) := by
  let store := MemoryStore.ofSuffixes suffixes
  let w := unloadedWorld config (standardStages config) store
  have hgroups : GroupCache.load w.groups store = .ok w.groups store := by
    rw [GroupCache.load_ok, MemoryStore.found_ofSuffixes]
    rfl
  have htuples : TupleCache.load store = .ok TupleCache.empty store := by
    rw [TupleCache.load_ok, MemoryStore.found_ofSuffixes]
    rfl
  have hinit : Chain.init (standardStages config)
      (unloadedWorld config (standardStages config) (MemoryStore.ofSuffixes suffixes))
      = .ok () (fresh config suffixes).world :=
    (bind_of_ok (aciInit_of_loads hgroups htuples)).trans (initShared config _)
  have hstages : stagesOf config 0 [.aci, .sharedDefault] = standardStages config := rfl
  simp only [Server.start, withStages, hstages, hinit]
  rfl

/-- The server after the operations of a list, each under its session. -/
def run (server : Server MemoryStore) (ops : List (Session × Operation)) :
    Server MemoryStore :=
  ops.foldl (fun server op => (server.step op.1 op.2).2) server

/-- A run from a reachable server reaches another. -/
theorem Reachable.run {config : Configuration} {server : Server MemoryStore}
    (h : Reachable config server) (ops : List (Session × Operation)) :
    Reachable config (server.run ops) := by
  induction ops generalizing server with
  | nil => exact h
  | cons op rest ih => exact ih (h.step op.1 op.2)

/-- Every reachable server is a standard one. -/
theorem Reachable.standard {config : Configuration} {server : Server MemoryStore}
    (h : Reachable config server) : Standard config server := by
  induction h with
  | start _ hstart =>
      obtain ⟨hconfig, hstages, -, -, t, -, ht⟩ := start_ok hstart
      exact ⟨hconfig, hstages, t, ht⟩
  | step session op _ ih => exact ih.step session op

/-- The store of a reachable server has been built by operations. -/
theorem Reachable.built {config : Configuration} {server : Server MemoryStore}
    (h : Reachable config server) : server.world.store.Built := by
  induction h with
  | start hbuilt hstart =>
      obtain ⟨-, -, hstore, -⟩ := start_ok hstart
      rw [hstore]
      exact hbuilt
  | step session op hreach ih =>
      rcases hreach.standard.step_cases session op with ⟨-, hsame⟩ | ⟨-, w, hw, ⟨s', hs', rfl⟩, -⟩
      · rw [hsame]
        exact ih
      · rw [hw]
        exact ih.after op hs'

section

variable {config : Configuration} {server : Server MemoryStore} {P : Server MemoryStore → Prop}
  {T : Server MemoryStore → Session → Operation → Prop}

/-- What holds after a step of some kind exactly if something is true of it holds after
    every step of a run of this kind exactly if that is true of each of them, as long as it
    holds in front of the run. -/
theorem Reachable.run_iff_of_kind {K : Server MemoryStore → Session → Operation → Prop}
    (hreach : Reachable config server)
    (hstep : ∀ {server}, Reachable config server → P server → ∀ session op,
      K server session op → (P (server.step session op).2 ↔ T server session op))
    (h : P server) (ops : List (Session × Operation))
    (hkind : ∀ n op, ops[n]? = some op → K (server.run (ops.take n)) op.1 op.2) :
    (∀ n, P (server.run (ops.take n)))
      ↔ ∀ n op, ops[n]? = some op → T (server.run (ops.take n)) op.1 op.2 := by
  induction ops generalizing server with
  | nil =>
      constructor
      · intro _ n op hop
        cases hop
      · intro _ n
        rw [List.take_nil]
        exact h
  | cons op rest ih =>
      have hfirst := hstep hreach h op.1 op.2 (hkind 0 op rfl)
      have hrest := fun hnext => ih (hreach.step op.1 op.2) hnext fun n => hkind (n + 1)
      constructor
      · intro hall
        have hnext : P (server.step op.1 op.2).2 := hall 1
        intro n op' hop'
        cases n with
        | zero =>
            cases hop'
            exact hfirst.mp hnext
        | succ n => exact (hrest hnext).mp (fun n => hall (n + 1)) n op' hop'
      · intro hall
        have hnext : P (server.step op.1 op.2).2 := hfirst.mpr (hall 0 op rfl)
        intro n
        cases n with
        | zero => exact h
        | succ n => exact (hrest hnext).mpr (fun n => hall (n + 1)) n

/-- The same of every run, where steps of all kinds will do. -/
theorem Reachable.run_iff (hreach : Reachable config server)
    (hstep : ∀ {server}, Reachable config server → P server → ∀ session op,
      (P (server.step session op).2 ↔ T server session op))
    (h : P server) (ops : List (Session × Operation)) :
    (∀ n, P (server.run (ops.take n)))
      ↔ ∀ n op, ops[n]? = some op → T (server.run (ops.take n)) op.1 op.2 :=
  hreach.run_iff_of_kind (K := fun _ _ _ => True)
    (fun hreach h session op _ => hstep hreach h session op) h ops fun _ _ _ => trivial

end

-- ── A small directory ────────────────────────────────────────────────────────────

/-- A component of a name, of a type in lower case and with no blanks around its value. -/
def component (attr value : String)
    (h : (isAttributeType attr.toList = true ∧ Text.hasAsciiUpper attr = false)
      ∧ Text.trim value = value ∧ value ≠ "") : Rdn :=
  ⟨attr, value, h.1.1, h.1.2, h.2.1, h.2.2⟩

/-- The top of a directory. -/
def topName : Dn := ⟨[⟨"dc", "x", by decide, by decide, by decide, by decide⟩]⟩

/-- The base of its users. -/
def usersName : Dn := topName.child ⟨"ou", "u", by decide, by decide, by decide, by decide⟩

/-- The base of its groups. -/
def groupsName : Dn := topName.child ⟨"ou", "g", by decide, by decide, by decide, by decide⟩

/-- One of its users. -/
def userName : Dn := usersName.child ⟨"cn", "a", by decide, by decide, by decide, by decide⟩

/-- A group below the top. -/
def adminGroupName : Dn := topName.child ⟨"cn", "g", by decide, by decide, by decide, by decide⟩

/-- Somebody below the top. -/
def deputyName : Dn := topName.child ⟨"cn", "a", by decide, by decide, by decide, by decide⟩

/-- What a base may be called instead. -/
def otherBase : Rdn := component "ou" "v" (by decide)

/-- A configuration with access control, whose administrator is the top. -/
def groupConfig : Configuration := ⟨true, topName, adminGroupName, topName, topName, .info⟩

/-- A session of the administrator, where that is the top. -/
def adminSession : Session := Session.of (Principal.named topName .none)

/-- A server over a store of one entry, with the fixed policy. -/
def topServer : Server MemoryStore :=
  (fresh ⟨false, topName, topName, topName, topName, .info⟩ [topName]).run
    [(Session.anonymous, .add (Entry.named topName))]

-- ── Failure ──────────────────────────────────────────────────────────────────────

/-- An operation that fails leaves every reachable server exactly as it was: what is
    stored, the group cache and the tuple cache. -/
theorem failed_step_changes_nothing {config : Configuration} {server : Server MemoryStore}
    (h : Reachable config server) (session : Session) (op : Operation)
    {e : OperationError} (hfailed : (server.step session op).1 = .error e) :
    (server.step session op).2 = server := by
  rcases h.standard.step_cases session op with ⟨-, hsame⟩ | ⟨⟨answer, hok⟩, -⟩
  · exact hsame
  · rw [hok] at hfailed
    cases hfailed

/-- An entry that is there is not added again; the addition fails in the store, after
    every stage has let it pass, and leaves the server as it was. -/
theorem second_addition_changes_nothing :
    (topServer.step Session.anonymous (.add (Entry.named topName))).1
        = .error .entryAlreadyExists
      ∧ (topServer.step Session.anonymous (.add (Entry.named topName))).2 = topServer :=
  have hfailed : (topServer.step Session.anonymous (.add (Entry.named topName))).1
      = .error .entryAlreadyExists := by rfl
  ⟨hfailed, failed_step_changes_nothing
    ((Reachable.start (.empty [topName]) (start_fresh _ _)).run _)
    Session.anonymous (.add (Entry.named topName)) hfailed⟩

end Server

end DirectoryAccess
