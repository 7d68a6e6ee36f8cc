import DirectoryAccess.Proofs.Authorization.NothingGranted

/-! # Failing closed — a server without a policy

    With access control switched on, the default stage passes everything on, and the
    access control stage alone decides.  Where no policy is in force it refuses
    whatever it is asked about, so that nothing reaches storage that would change it
    and nothing comes out.  What it is not asked about gets through. -/

namespace DirectoryAccess

open DirectoryAccess.Action

/-- An operation about which the stage is not asked where no policy is in force. -/
def MemoryStore.Unasked (s : MemoryStore) : Operation → Prop
  | .modify dn mods => s.PassesUnasked dn mods
  | _ => False

/-- What a session is told that may do nothing and see nothing: of the root it may know
    that it is there. -/
def Operation.Denied : Operation → Except OperationError Answer → Prop
  | .hasEntry dn, answer => answer = .ok (.truth dn.isRoot)
  | .search _ _ _ _, answer => (∃ e, answer = .error e) ∨ answer = .ok (.entries [])
  | _, answer => ∃ e, answer = .error e

namespace Server

/-- With access control on, only an administrator skips the decision. -/
theorem not_bypasses {config : Configuration} (hon : config.accessControlEnabled = true)
    {groups : GroupCache} {session : Session}
    (hasked : groups.isAdministrator session.effective.dn = false) :
    (AciStage.ofConfiguration config).bypasses groups session = false := by
  rw [AciStage.bypasses, hasked, Bool.or_false]
  exact congrArg (!·) hon

section

variable {σ : Type} {inner : σ → MemoryStore} {Looked : σ → σ → Prop} {w : World σ}

/-- Where no policy is in force, the tuple cache has been loaded. -/
theorem after_cache_refuses (hb : Barren inner w) {β : Type} {f : TupleCache → Handling σ β}
    (h : ∀ t, Refuses Looked (f t) w) : Refuses Looked (World.tupleCache >>= f) w := by
  obtain ⟨t, ht, -⟩ := hb.cached
  obtain ⟨e, w', hw', he⟩ := h t
  exact ⟨e, w', hw', (bind_of_ok (World.tupleCache_of_loaded ht)).trans he⟩

/-- In front of an answer the tuple cache may be loaded. -/
theorem after_cache_answers (hb : Barren inner w) {β : Type} {f : TupleCache → Handling σ β}
    {b : β} (h : ∀ t, Answers Looked (f t) w b) : Answers Looked (World.tupleCache >>= f) w b := by
  obtain ⟨t, ht, -⟩ := hb.cached
  obtain ⟨w', hw', hb⟩ := h t
  exact ⟨w', hw', (bind_of_ok (World.tupleCache_of_loaded ht)).trans hb⟩

/-- Picking attributes only puts more in the way of what a search has found. -/
theorem pick_search (base : Dn) (scope : SearchScope) (filter : Filter)
    (attrs : Option (List String)) (results : List (Except OperationError Entry))
    (f : EntryFilter (World σ)) :
    ∃ more, Chain.pick (.search base scope filter attrs)
      (.search ((EntryCursor.ofResults results).addFilter f)) = .search ⟨results, f :: more⟩ := by
  cases attrs with
  | none => exact ⟨[], rfl⟩
  | some attrs => exact ⟨[fun e => pure (some (e.select (some attrs)))], rfl⟩

variable [Backend σ] {config : Configuration} {session : Session}

-- ── Through the stages ───────────────────────────────────────────────────────────

/-- With access control on, an operation reaches storage through the access control stage
    alone. -/
theorem proceed_eq (hon : config.accessControlEnabled = true) (op : Operation) :
    (Chain.proceed session op (standardStages config) : Handling σ _)
      = (AciStage.ofConfiguration config).handle session op (dispatch op) := by
  have hdefault : (DefaultStage.ofConfiguration config .shared).handle session op
      (dispatch op : Handling σ _) = dispatch op := by
    simp only [DefaultStage.handle, DefaultStage.ofConfiguration, hon, Bool.not_true,
      Bool.not_false, if_true]
  show (AciStage.ofConfiguration config).handle session op
    ((DefaultStage.ofConfiguration config .shared).handle session op (dispatch op)) = _
  rw [hdefault]

/-- What is refused on its way is refused. -/
theorem refuses_perform (hon : config.accessControlEnabled = true) {op : Operation}
    (h : Refuses Looked ((AciStage.ofConfiguration config).handle session (prepare op)
      (dispatch (prepare op))) w) :
    Refuses Looked (perform (standardStages config) session op) w := by
  rw [← proceed_eq hon] at h
  exact Refuses.bind (Refuses.bind h)

/-- Of what is answered on its way, what was asked for is picked. -/
theorem answers_execute (hlook : Looking inner Looked)
    (hon : config.accessControlEnabled = true) (op : Operation) {outcome : Outcome (World σ)}
    (h : Answers Looked ((AciStage.ofConfiguration config).handle session op (dispatch op)) w
      outcome) :
    Answers Looked (Chain.execute (standardStages config) session op) w
      (Chain.pick op outcome) := by
  rw [← proceed_eq hon] at h
  exact h.bind hlook fun w' _ => .of_ok hlook rfl

-- ── What storage answers ─────────────────────────────────────────────────────────

/-- Storage answers whether an entry is there, and the root always is. -/
theorem dispatch_hasEntry (hlook : Looking inner Looked) (dn : Dn) (w : World σ) :
    ∃ present, (dn.isRoot = true → present = true)
      ∧ Answers Looked (dispatch (.hasEntry dn)) w (.hasEntry present) := by
  rw [dispatch]
  cases hroot : dn.isRoot with
  | true => exact ⟨true, fun _ => rfl, .of_ok hlook rfl⟩
  | false =>
      refine ⟨((inner w.store).lookup dn).isSome, (absurd · Bool.false_ne_true), ?_⟩
      exact (answers_lookup hlook dn w).bind hlook fun w' _ => .of_ok hlook rfl

/-- What a search finds is stored. -/
theorem stored_of_search {s : MemoryStore} {base : Dn} {scope : SearchScope} {filter : Filter}
    {es : List Entry} (h : s.search base scope filter = .ok es) {e : Entry} (he : e ∈ es) :
    ∃ x, s.lookup x = some e := by
  rw [MemoryStore.search] at h
  split at h
  · cases h
  · cases h
    obtain ⟨hmem, -⟩ := List.mem_filter.mp he
    obtain ⟨⟨x, e'⟩, hselected, rfl⟩ := List.mem_map.mp hmem
    exact ⟨x, s.entries.get?_of_mem (List.mem_filter.mp hselected).1⟩

/-- Storage refuses a search, or answers with entries that it holds. -/
theorem dispatch_search (hlook : Looking inner Looked) (base : Dn) (scope : SearchScope)
    (filter : Filter) (attrs : Option (List String)) (w : World σ) :
    Refuses Looked (dispatch (.search base scope filter attrs)) w
      ∨ ∃ results, (∀ r ∈ results, ∃ e, r = .ok e ∧ ∃ x, (inner w.store).lookup x = some e)
        ∧ Answers Looked (dispatch (.search base scope filter attrs)) w
          (.search (.ofResults results)) := by
  obtain ⟨s', hs', hsearch⟩ := hlook.search base scope filter w.store
  have hw' : w.LookedAt Looked { w with store := s' } := ⟨s', hs', rfl⟩
  rw [dispatch]
  cases hfound : (inner w.store).search base scope filter with
  | error e =>
      rw [hfound] at hsearch
      have hrefused : Refuses Looked (World.onStore (Backend.search base scope filter)) w := by
        refine ⟨e, _, hw', ?_⟩
        rw [World.onStore, Action.onPart, hsearch]
      exact Or.inl hrefused.bind
  | ok es =>
      rw [hfound] at hsearch
      have hstored : World.onStore (Backend.search base scope filter) w
          = .ok (es.map Except.ok) { w with store := s' } := by
        rw [World.onStore, Action.onPart, hsearch]
      refine Or.inr ⟨es.map Except.ok, fun r hr => ?_, _, hw', (bind_of_ok hstored).trans rfl⟩
      obtain ⟨e, he, rfl⟩ := List.mem_map.mp hr
      exact ⟨e, rfl, stored_of_search hfound he⟩

/-- Of no entry but the root is anybody told that it is there. -/
theorem perform_hasEntry (hlook : Looking inner Looked) (hb : Barren inner w)
    (hon : config.accessControlEnabled = true)
    (hasked : (AciStage.ofConfiguration config).bypasses w.groups session = false) (dn : Dn) :
    Answers Looked (perform (standardStages config) session (.hasEntry dn)) w
      (.truth dn.isRoot) := by
  obtain ⟨present, hroot, hnext⟩ := dispatch_hasEntry hlook dn w
  have hhandled : Answers Looked ((AciStage.ofConfiguration config).handle session
      (.hasEntry dn) (dispatch (.hasEntry dn))) w (.hasEntry (present && dn.isRoot)) :=
    after_cache_answers hb fun _ => AciStage.hasEntry_denied hlook hb hasked hnext
  have hpresent : (present && dn.isRoot) = dn.isRoot := by
    cases h : dn.isRoot with
    | true => rw [hroot h, Bool.and_true]
    | false => rw [Bool.and_false]
  rw [hpresent] at hhandled
  exact (answers_execute hlook hon (.hasEntry dn) hhandled).bind hlook
    fun w' _ => .of_ok hlook rfl

/-- A search fails, or nothing comes out of it. -/
theorem perform_search (hlook : Looking inner Looked) (hb : Barren inner w)
    (hon : config.accessControlEnabled = true)
    (hasked : (AciStage.ofConfiguration config).bypasses w.groups session = false)
    (base : Dn) (scope : SearchScope) (filter : Filter) (attrs : Option (List String)) :
    Refuses Looked (perform (standardStages config) session (.search base scope filter attrs)) w
      ∨ Answers Looked (perform (standardStages config) session
          (.search base scope filter attrs)) w (.entries []) := by
  rcases dispatch_search hlook base scope filter attrs w with hnext | ⟨results, hfound, hnext⟩
  · refine Or.inl (refuses_perform hon ?_)
    exact after_cache_refuses hb fun _ => AciStage.search_refuses hasked hnext
  · have hhandled : Answers Looked ((AciStage.ofConfiguration config).handle session
        (.search base scope filter attrs) (dispatch (.search base scope filter attrs))) w
        (.search ((EntryCursor.ofResults results).addFilter
          (AciStage.searchFilter (AciStage.requester w.groups session)))) :=
      after_cache_answers hb fun _ => AciStage.search_answers hlook hasked hnext
    have hexecuted := answers_execute hlook hon (.search base scope filter attrs) hhandled
    let shown : EntryFilter (World σ) :=
      AciStage.searchFilter (AciStage.requester w.groups session)
    obtain ⟨more, hpick⟩ := pick_search base scope filter attrs results shown
    rw [hpick] at hexecuted
    refine Or.inr (hexecuted.bind hlook fun w' hw' => ?_)
    have hbare : ∀ r ∈ results, ∃ e : Entry, r = .ok e ∧ e.Bare := by
      intro r hr
      obtain ⟨e, rfl, x, he⟩ := hfound r hr
      exact ⟨e, rfl, hb.bare x e he⟩
    have hcollected := AciStage.collectFrom_denied hlook (hb.looked hlook hw').1
      (AciStage.requester w.groups session) more hbare
    exact hcollected.bind hlook fun w'' _ => .of_ok hlook rfl

-- ── A step ───────────────────────────────────────────────────────────────────────

/-- What is refused by looking alone leaves a server that was looked at. -/
theorem step_of_refuses {server : Server σ} {op : Operation}
    (h : Refuses Looked (perform server.stages session op) server.world) :
    (∃ e, (server.step session op).1 = .error e)
      ∧ server.world.LookedAt Looked (server.step session op).2.world := by
  obtain ⟨e, w', hw', he⟩ := h
  rw [step, he]
  exact ⟨⟨e, rfl⟩, hw'⟩

/-- What is answered by looking alone leaves a server that was looked at. -/
theorem step_of_answers {server : Server σ} {op : Operation} {answer : Answer}
    (h : Answers Looked (perform server.stages session op) server.world answer) :
    (server.step session op).1 = .ok answer
      ∧ server.world.LookedAt Looked (server.step session op).2.world := by
  obtain ⟨w', hw', hanswer⟩ := h
  rw [step, hanswer]
  exact ⟨rfl, hw'⟩

/-- Where no policy is in force, who is no administrator is denied every operation about
    which the stage is asked, and storage is only looked at. -/
theorem step_denied (hlook : Looking inner Looked) (hon : config.accessControlEnabled = true)
    {server : Server σ} (hstages : server.stages = standardStages config)
    (hb : Barren inner server.world)
    (hasked : server.world.groups.isAdministrator session.effective.dn = false) {op : Operation}
    (hop : ¬(inner server.world.store).Unasked op) :
    op.Denied (server.step session op).1
      ∧ server.world.LookedAt Looked (server.step session op).2.world := by
  have hbypass := not_bypasses hon hasked
  have hrefused : Refuses Looked ((AciStage.ofConfiguration config).handle session (prepare op)
      (dispatch (prepare op))) server.world → (∃ e, (server.step session op).1 = .error e)
        ∧ server.world.LookedAt Looked (server.step session op).2.world := by
    intro h
    refine step_of_refuses ?_
    rw [hstages]
    exact refuses_perform hon h
  cases op with
  | add entry =>
      exact hrefused (after_cache_refuses hb fun _ => AciStage.refuses_add hlook hb hbypass entry)
  | delete dn =>
      exact hrefused (after_cache_refuses hb fun _ => AciStage.refuses_delete hlook hb hbypass dn)
  | modify dn mods =>
      exact hrefused (after_cache_refuses hb fun _ => AciStage.refuses_modify hlook hb hbypass hop)
  | rename dn rdn deleteOld =>
      exact hrefused (after_cache_refuses hb fun _ =>
        AciStage.refuses_rename hlook hb hbypass dn rdn)
  | move dn superior =>
      exact hrefused (after_cache_refuses hb fun _ =>
        AciStage.refuses_move hlook hb hbypass dn superior)
  | moveAndRename dn superior rdn deleteOld =>
      exact hrefused (after_cache_refuses hb fun _ =>
        AciStage.refuses_moveAndRename hlook hb hbypass dn superior rdn deleteOld)
  | compare dn attr value =>
      exact hrefused (after_cache_refuses hb fun _ =>
        AciStage.refuses_compare hlook hb hbypass dn _ value)
  | lookup dn attrs =>
      exact hrefused (after_cache_refuses hb fun _ => AciStage.refuses_lookup hlook hb hbypass dn)
  | hasEntry dn =>
      refine step_of_answers ?_
      rw [hstages]
      exact perform_hasEntry hlook hb hon hbypass dn
  | search base scope filter attrs =>
      have hsearch := perform_search hlook hb hon hbypass base scope filter attrs
      rw [← hstages] at hsearch
      rcases hsearch with hrefused | hanswered
      · exact (step_of_refuses hrefused).imp_left Or.inl
      · exact (step_of_answers hanswered).imp_left Or.inr

end

-- ── What reaches storage ─────────────────────────────────────────────────────────

/-- The server over storage that writes down what it is asked from now on. -/
def recorded (server : Server MemoryStore) : Server (Recorded MemoryStore) where
  config := server.config
  stages := server.stages
  world := {
    store := Recorded.fresh server.world.store
    groups := server.world.groups
    tuples := server.world.tuples
    ownGroups := server.world.ownGroups }

/-- What the stages leave true of the store is true after the step. -/
theorem step_of_leaves {σ : Type} [Backend σ] {P : σ → Prop} {server : Server σ}
    {session : Session} {op : Operation}
    (h : Leaves P (perform server.stages session op) server.world) :
    P (server.step session op).2.world.store := by
  rw [Leaves] at h
  rw [step]
  cases hr : perform server.stages session op server.world with
  | ok answer w =>
      rw [hr] at h
      exact h
  | error e w =>
      rw [hr] at h
      exact h

/-- A modification that is passed on is written down, whatever storage makes of it. -/
theorem leaves_dispatch_modify (dn : Dn) (mods : List Modification)
    {w : World (Recorded MemoryStore)} {before : List BackendCall}
    (hbefore : w.store.mutations = before) :
    Leaves (fun r => r.mutations = before ++ [.modify dn mods])
      (dispatch (.modify dn mods)) w := by
  have hwritten : (w.store.calls ++ [BackendCall.modify dn mods]).filter (·.isMutation)
      = before ++ [.modify dn mods] := by
    rw [List.filter_append, ← hbefore]
    rfl
  have hmodify : (Backend.modify dn mods : Action (Recorded MemoryStore) Unit)
      = Recorded.recording (.modify dn mods) (Backend.modify dn mods) := rfl
  have hstore : Leaves (fun r => r.mutations = before ++ [.modify dn mods])
      (World.onStore (Backend.modify dn mods)) w := by
    rw [Leaves, World.onStore, Action.onPart, hmodify, Recorded.recording_eq]
    cases (Backend.modify dn mods : Action MemoryStore Unit) w.store.inner <;> exact hwritten
  exact hstore.bind fun _ w' hw' => hw'

/-- Modifications about which the stage is not asked reach storage, whatever storage and
    the caches then make of them. -/
theorem unasked_reaches_storage {config : Configuration}
    (hon : config.accessControlEnabled = true) {session : Session}
    {server : Server (Recorded MemoryStore)} (hstages : server.stages = standardStages config)
    (hb : Barren (fun r : Recorded MemoryStore => r.inner) server.world)
    (hasked : (AciStage.ofConfiguration config).bypasses server.world.groups session = false)
    {dn : Dn} {mods : List Modification}
    (hunasked : server.world.store.inner.PassesUnasked dn mods) :
    (server.step session (.modify dn mods)).2.world.store.mutations
      = server.world.store.mutations ++ [.modify dn mods] := by
  let P : Recorded MemoryStore → Prop := fun r =>
    r.mutations = server.world.store.mutations ++ [.modify dn mods]
  have hkeeps : ∀ r r', Recorded.Looked r r' → P r → P r' := fun _ _ hlooked h =>
    hlooked.mutations.trans h
  obtain ⟨pre, w', ⟨r', hr', rfl⟩, hpassed⟩ :=
    AciStage.modify_passes (dispatch (.modify dn mods)) Recorded.looking hb hasked hunasked
  have hfollowed := (leaves_dispatch_modify dn mods
      (w := { server.world with store := r' }) hr'.mutations).bind fun outcome _ h =>
    AciStage.leaves_followModified Recorded.looking hkeeps h dn mods pre outcome
  rw [Leaves, ← hpassed] at hfollowed
  have hhandled : Leaves P ((AciStage.ofConfiguration config).handle session (.modify dn mods)
      (dispatch (.modify dn mods))) server.world := by
    obtain ⟨t, ht, -⟩ := hb.cached
    rw [Leaves, AciStage.handle, bind_of_ok (World.tupleCache_of_loaded ht)]
    exact hfollowed
  rw [← proceed_eq hon, ← hstages] at hhandled
  have hexecuted : Leaves P (Chain.execute server.stages session (.modify dn mods))
      server.world := hhandled.bind fun _ _ h => h
  have hperformed : Leaves P (perform server.stages session (.modify dn mods))
      server.world := by
    refine Leaves.bind hexecuted fun outcome w'' h => ?_
    have htold : Leaves P (Action.ofExcept outcome.toDone) w'' := by
      cases outcome <;> exact h
    exact htold.bind fun _ _ h => h
  exact step_of_leaves hperformed

-- ── Failing closed ───────────────────────────────────────────────────────────────

/-- In every reachable server with access control on, no access control items in store
    and no cached subentry, whoever is no administrator is denied an operation, and
    storage is asked for no change, exactly if the stage is asked about the operation. -/
theorem fails_closed_iff {config : Configuration} {server : Server MemoryStore}
    (hreach : Reachable config server) (hon : config.accessControlEnabled = true)
    (hbare : ∀ x e, server.world.store.lookup x = some e → e.Bare)
    (hempty : ∀ t, server.world.tuples = some t → t.subentries.entries = [])
    {session : Session}
    (hasked : server.world.groups.isAdministrator session.effective.dn = false)
    (op : Operation) :
    (op.Denied (server.step session op).1
        ∧ op.Denied (server.recorded.step session op).1
        ∧ (server.recorded.step session op).2.world.store.mutations = [])
      ↔ ¬server.world.store.Unasked op := by
  have hstages := hreach.standard.stages_eq
  obtain ⟨t, ht⟩ := hreach.standard.loaded
  have hb : Barren (fun s : MemoryStore => s) server.world := ⟨hbare, t, ht, hempty t ht⟩
  have hb' : Barren (fun r : Recorded MemoryStore => r.inner) server.recorded.world :=
    ⟨hbare, t, ht, hempty t ht⟩
  constructor
  · rintro ⟨-, -, hnone⟩ hunasked
    cases op with
    | modify dn mods =>
        rw [unasked_reaches_storage hon hstages hb' (not_bypasses hon hasked) hunasked] at hnone
        exact absurd (List.append_eq_nil_iff.mp hnone).2 (List.cons_ne_nil _ _)
    | add _ | delete _ | rename _ _ _ | move _ _ | moveAndRename _ _ _ _ | compare _ _ _
    | lookup _ _ | hasEntry _ | search _ _ _ _ => exact hunasked
  · intro hop
    obtain ⟨hdenied, -⟩ := step_denied MemoryStore.looking hon hstages hb hasked hop
    have hrecorded : op.Denied (server.recorded.step session op).1
        ∧ server.recorded.world.LookedAt Recorded.Looked
          (server.recorded.step session op).2.world :=
      step_denied Recorded.looking hon hstages hb' hasked hop
    obtain ⟨hdenied', s', hlooked, hw'⟩ := hrecorded
    refine ⟨hdenied, hdenied', ?_⟩
    rw [hw']
    exact hlooked.mutations

-- ── A small directory ────────────────────────────────────────────────────────────

/-- A top that is described. -/
def describedTop : Entry :=
  (Entry.named topName).project (.add "description" ["here"])

/-- A server with access control over the described top, where nothing is granted. -/
def ungrantedServer : Server MemoryStore :=
  (fresh groupConfig [topName]).run [(adminSession, .add describedTop)]

theorem ungranted_bare (x : Dn) (e : Entry)
    (h : ungrantedServer.world.store.lookup x = some e) : e.Bare := by
  have hentries : ∀ p ∈ ungrantedServer.world.store.entries.entries,
      ∀ attr ∈ [Attribute.prescriptiveAci, Attribute.entryAci, Attribute.subentryAci],
        p.2.has attr = false := by
    decide +kernel
  obtain ⟨k, hmem, -⟩ := ungrantedServer.world.store.entries.mem_of_get? h
  exact hentries (k, e) hmem

theorem ungranted_empty (t : TupleCache) (h : ungrantedServer.world.tuples = some t) :
    t.subentries.entries = [] := by
  cases h
  rfl

/-- Somebody unknown adds no description to the top, and storage is not asked to. -/
theorem new_description_denied :
    (Operation.modify topName [.add "description" ["there"]]).Denied
        (ungrantedServer.step Session.anonymous
          (.modify topName [.add "description" ["there"]])).1
      ∧ (ungrantedServer.recorded.step Session.anonymous
          (.modify topName [.add "description" ["there"]])).2.world.store.mutations = [] := by
  have hasked : ungrantedServer.world.groups.isAdministrator Session.anonymous.effective.dn
      = false := by rfl
  have hstored : ungrantedServer.world.store.lookup topName = some describedTop := by rfl
  have hnoticed : ¬ungrantedServer.world.store.Unasked
      (.modify topName [.add "description" ["there"]]) := by
    rintro ⟨-, e, he, -, hread, -⟩
    cases Option.some.inj (hstored.symm.trans he)
    exact absurd hread (by decide +kernel)
  have hfails := fails_closed_iff ((Reachable.start (.empty [topName]) (start_fresh _ _)).run _)
    rfl ungranted_bare ungranted_empty hasked (.modify topName [.add "description" ["there"]])
  obtain ⟨hdenied, -, hnone⟩ := hfails.mpr hnoticed
  exact ⟨hdenied, hnone⟩

/-- Somebody unknown adds the description that is there already.  This reaches storage, and
    tells them that it is there. -/
theorem held_description_added :
    (∀ x e, ungrantedServer.world.store.lookup x = some e → e.Bare)
      ∧ (∀ t, ungrantedServer.world.tuples = some t → t.subentries.entries = [])
      ∧ ungrantedServer.world.groups.isAdministrator Session.anonymous.effective.dn = false
      ∧ ungrantedServer.world.store.PassesUnasked topName [.add "description" ["here"]]
      ∧ (ungrantedServer.step Session.anonymous
          (.modify topName [.add "description" ["here"]])).1 = .ok .done
      ∧ (ungrantedServer.recorded.step Session.anonymous
          (.modify topName [.add "description" ["here"]])).2.world.store.mutations
            = [.modify topName [.add "description" ["here"]]] := by
  have hunnoticed : Unnoticed describedTop [.add "description" ["here"]] :=
    unnoticed_of_held (by decide +kernel) (by decide +kernel)
  have hunasked : ungrantedServer.world.store.PassesUnasked topName
      [.add "description" ["here"]] :=
    ⟨List.cons_ne_nil _ _, describedTop, by rfl, by rfl, hunnoticed⟩
  exact ⟨ungranted_bare, ungranted_empty, by rfl, hunasked, by rfl, by rfl⟩

end Server

end DirectoryAccess
