import DirectoryAccess.Proofs.Authorization.Discretion
import DirectoryAccess.Proofs.Server.Reachable

/-! # Reading — what a session is shown of the directory

    A lookup, a search and the question whether an entry is there take different ways
    through the stages, but what they answer is put together from the same three things:
    whether the fixed policy HIDES a name, whether an operation on an entry is PERMITTED,
    and what is REVEALED of an entry that may be read.  So the three ways of reading
    agree with each other, for everybody and with either policy. -/

namespace DirectoryAccess

open DirectoryAccess.Action

-- ── What decides what is shown ───────────────────────────────────────────────────

namespace World

variable (w : World MemoryStore) (config : Configuration) (session : Session)

/-- The fixed policy hides a protected name from everybody but administrators and the
    bearer of the name. -/
def hides (dn : Dn) : Bool :=
  !config.accessControlEnabled && !w.groups.isAdministrator session.effective.dn
    && (DefaultStage.ofConfiguration config .shared).areas.isProtected dn
    && !dn.same session.effective.dn

/-- Access control permits micro operations on an entry. -/
def permits (operations : List MicroOperation) (e : Entry) : Bool :=
  (AciStage.ofConfiguration config).bypasses w.groups session
    || (AccessCheck.onEntry (AciStage.requester w.groups session) e operations
        (w.inForce e)).hasPermission

/-- What a session may read of an entry. -/
def revealed (e : Entry) : Entry :=
  if (AciStage.ofConfiguration config).bypasses w.groups session then e
  else readable (AciStage.requester w.groups session) e (w.inForce e)

/-- What a search shows of an entry that it has found, if anything. -/
def shows (attrs : Option (List String)) (e : Entry) : Option Entry :=
  if w.hides config session e.dn then none
  else if w.permits config session AciStage.searchOperations e then
    some ((w.revealed config session e).select attrs)
  else none

/-- What a lookup comes to. -/
def lookedUp (dn : Dn) (attrs : Option (List String)) : Except OperationError Entry :=
  if w.hides config session dn then .error .accessDenied
  else do
    let e ← w.store.required dn
    if w.permits config session AciStage.lookupOperations e then
      .ok ((w.revealed config session e).select attrs)
    else .error .accessDenied

/-- Whether a session is told that an entry is there. -/
def present (dn : Dn) : Bool :=
  dn.isRoot ||
    match w.store.lookup dn with
    | none => false
    | some e => w.permits config session [.browse] e

/-- What a search comes to. -/
def searchedFor (base : Dn) (scope : SearchScope) (filter : Filter)
    (attrs : Option (List String)) : Except OperationError (List Entry) :=
  if !base.isRoot && !w.store.entries.contains base then .error .noMatchingEntries
  else .ok ((MemoryStore.found base scope filter w.store.entries.entries).filterMap
    (w.shows config session attrs))

end World

namespace Server

variable {config : Configuration} {session : Session} {w : World MemoryStore} {t : TupleCache}

-- ── Through the default stage ────────────────────────────────────────────────────

/-- What the fixed policy of a configuration says to an operation, if it is on. -/
def policyVerdict (config : Configuration) (session : Session) (w : World MemoryStore)
    (op : Operation) : Except OperationError Unit :=
  if config.accessControlEnabled then .ok ()
  else (DefaultStage.ofConfiguration config .shared).check
    (w.groups.isAdministrator session.effective.dn) session.effective.dn op

/-- The fixed policy refuses to look up what it hides, and nothing else. -/
theorem policyVerdict_lookup (dn : Dn) (attrs : Option (List String)) :
    policyVerdict config session w (.lookup dn attrs)
      = if w.hides config session dn then .error .accessDenied else .ok () := by
  rw [policyVerdict, World.hides]
  cases config.accessControlEnabled with
  | true => rfl
  | false => rfl

/-- The fixed policy has its say on an operation other than a search, and passes it on. -/
theorem gives_default (op : Operation)
    (hop : ∀ base scope filter attrs, op ≠ .search base scope filter attrs)
    {next : Handling MemoryStore (Outcome (World MemoryStore))}
    {r : Except OperationError (Outcome (World MemoryStore))} (hnext : Gives next w r) :
    Gives ((DefaultStage.ofConfiguration config .shared).handle session op next) w
      (policyVerdict config session w op >>= fun _ => r) := by
  have henabled : (DefaultStage.ofConfiguration config .shared).enabled
      = !config.accessControlEnabled := rfl
  unfold DefaultStage.handle
  rw [henabled, policyVerdict]
  cases config.accessControlEnabled with
  | true => exact hnext
  | false =>
      refine Gives.after (Gives.get w) (Gives.bind rfl fun _ _ => ?_)
      have hpassed : Gives (next >>= fun outcome => pure outcome) w r := by
        rw [bind_pure]
        exact hnext
      cases op with
      | search base scope filter attrs => exact absurd rfl (hop base scope filter attrs)
      | add _ | delete _ | modify _ _ | rename _ _ _ | move _ _ | moveAndRename _ _ _ _
      | compare _ _ _ | lookup _ _ | hasEntry _ => exact hpassed

-- ── Looking up ───────────────────────────────────────────────────────────────────

/-- Only while access control is on is anybody asked for permission, and then the fixed
    policy hides nothing. -/
theorem hides_of_asked
    (hasked : (AciStage.ofConfiguration config).bypasses w.groups session = false) (dn : Dn) :
    w.hides config session dn = false := by
  rw [AciStage.bypasses, Bool.or_eq_false_iff] at hasked
  have hon : (!config.accessControlEnabled) = false := hasked.1
  rw [World.hides, hon]
  rfl

/-- Who is not asked is permitted everything. -/
theorem permits_of_bypassed
    (hb : (AciStage.ofConfiguration config).bypasses w.groups session = true)
    (operations : List MicroOperation) (e : Entry) :
    w.permits config session operations e = true := by
  rw [World.permits, hb, Bool.true_or]

/-- Who is asked is permitted what is granted on the entry. -/
theorem permits_of_asked
    (hasked : (AciStage.ofConfiguration config).bypasses w.groups session = false)
    (operations : List MicroOperation) (e : Entry) :
    w.permits config session operations e
      = (AccessCheck.onEntry (AciStage.requester w.groups session) e operations
          (w.inForce e)).hasPermission := by
  rw [World.permits, hasked, Bool.false_or]

/-- The whole entry is revealed to who is not asked. -/
theorem revealed_of_bypassed
    (hb : (AciStage.ofConfiguration config).bypasses w.groups session = true) (e : Entry) :
    w.revealed config session e = e := by
  rw [World.revealed, hb, if_pos rfl]

/-- What is readable of the entry is revealed to who is asked. -/
theorem revealed_of_asked
    (hasked : (AciStage.ofConfiguration config).bypasses w.groups session = false) (e : Entry) :
    w.revealed config session e
      = readable (AciStage.requester w.groups session) e (w.inForce e) := by
  rw [World.revealed, hasked, if_neg Bool.false_ne_true]

/-- What a session that is asked is shown of an entry is what access control shows of it. -/
theorem shows_of_asked
    (hasked : (AciStage.ofConfiguration config).bypasses w.groups session = false)
    (attrs : Option (List String)) :
    w.shows config session attrs
      = AciStage.shown w (AciStage.requester w.groups session) attrs := by
  funext e
  rw [World.shows, hides_of_asked hasked, permits_of_asked hasked, revealed_of_asked hasked]
  rfl

/-- A lookup comes through the stages with what may be read of the whole entry. -/
theorem gives_lookup (ht : w.tuples = some t) (dn : Dn) (attrs : Option (List String)) :
    Gives (Chain.proceed session (.lookup dn attrs) (standardStages config)) w
      ((w.lookedUp config session dn none).map Outcome.entry) := by
  have hrequired := World.gives_onStore (w.store.gives_required dn)
  have hdispatched : Gives (dispatch (.lookup dn attrs)) w
      (w.store.required dn >>= fun e => .ok (.entry e)) := hrequired.bind fun e _ => rfl
  have hpassed : Gives ((DefaultStage.ofConfiguration config .shared).handle session
      (.lookup dn attrs) (dispatch (.lookup dn attrs))) w _ :=
    gives_default (.lookup dn attrs) (by rintro _ _ _ _ ⟨⟩) hdispatched
  rw [policyVerdict_lookup] at hpassed
  refine Gives.after (World.tupleCache_of_loaded ht) ?_
  show Gives (AciStage.lookup _ session dn _) w _
  unfold AciStage.lookup
  refine Gives.after (Gives.get w) ?_
  dsimp only
  cases hb : (AciStage.ofConfiguration config).bypasses w.groups session with
  | true =>
      refine hpassed.congr ?_
      simp only [World.lookedUp, permits_of_bypassed hb, revealed_of_bypassed hb]
      cases w.hides config session dn <;> cases w.store.required dn <;> rfl
  | false =>
      rw [hides_of_asked hb] at hpassed
      rw [World.lookedUp, hides_of_asked hb]
      cases hfound : w.store.required dn with
      | error cause =>
          rw [hfound] at hrequired
          exact bind_of_error hrequired
      | ok e =>
          rw [hfound] at hrequired hpassed
          refine Gives.after hrequired (Gives.after (AciStage.tuplesFor_ok ht e) ?_)
          show Gives _ w (Except.map Outcome.entry
            (if w.permits config session AciStage.lookupOperations e then _ else _))
          rw [AccessCheck.require, permits_of_asked hb, revealed_of_asked hb]
          split
          · exact Gives.after rfl (Gives.after hpassed rfl)
          · rfl

-- ── Asking whether an entry is there ─────────────────────────────────────────────

/-- Who asks whether an entry is there is answered after storage. -/
theorem gives_hasEntry (ht : w.tuples = some t) (dn : Dn) :
    Gives (Chain.proceed session (.hasEntry dn) (standardStages config)) w
      (.ok (.hasEntry (w.present config session dn))) := by
  have hlookup : Gives (World.onStore (Backend.lookup dn)) w (.ok (w.store.lookup dn)) := rfl
  have hdispatched : Gives (dispatch (.hasEntry dn)) w
      (.ok (.hasEntry (dn.isRoot || (w.store.lookup dn).isSome))) := by
    rw [dispatch]
    cases dn.isRoot with
    | true => rfl
    | false => exact Gives.after hlookup rfl
  have hpassed : Gives ((DefaultStage.ofConfiguration config .shared).handle session
      (.hasEntry dn) (dispatch (.hasEntry dn))) w
      (.ok (.hasEntry (dn.isRoot || (w.store.lookup dn).isSome))) := by
    refine (gives_default (.hasEntry dn) (by rintro _ _ _ _ ⟨⟩) hdispatched).congr ?_
    rw [policyVerdict]
    cases config.accessControlEnabled <;> rfl
  refine Gives.after (World.tupleCache_of_loaded ht) ?_
  show Gives (AciStage.hasEntry _ session dn _) w _
  unfold AciStage.hasEntry World.present World.permits
  refine Gives.after hpassed (Gives.after rfl (Gives.after (Gives.get w) ?_))
  dsimp only
  cases hroot : dn.isRoot with
  | true => rfl
  | false =>
      cases he : w.store.lookup dn with
      | none => rfl
      | some e =>
          cases (AciStage.ofConfiguration config).bypasses w.groups session with
          | true => rfl
          | false =>
              rw [he] at hlookup
              exact Gives.after hlookup (Gives.after (AciStage.tuplesFor_ok ht e) rfl)

-- ── Comparing ────────────────────────────────────────────────────────────────────

/-- Where nobody is asked, storage compares, whatever the fixed policy hides. -/
theorem gives_compare (ht : w.tuples = some t)
    (hb : (AciStage.ofConfiguration config).bypasses w.groups session = true) (dn : Dn)
    (attr value : String) :
    Gives (Chain.proceed session (.compare dn attr value) (standardStages config)) w
      ((w.store.compare dn attr value).map Outcome.compare) := by
  have hcompared : Gives (Backend.compare dn attr value) w.store
      (w.store.compare dn attr value) := by
    show MemoryStore.query _ w.store = _
    rw [MemoryStore.query]
    cases w.store.compare dn attr value <;> rfl
  have hdispatched : Gives (dispatch (.compare dn attr value)) w
      (w.store.compare dn attr value >>= fun held => .ok (.compare held)) :=
    (World.gives_onStore hcompared).bind fun _ _ => rfl
  have hpassed : Gives ((DefaultStage.ofConfiguration config .shared).handle session
      (.compare dn attr value) (dispatch (.compare dn attr value))) w _ :=
    gives_default (.compare dn attr value) (by rintro _ _ _ _ ⟨⟩) hdispatched
  have hverdict : policyVerdict config session w (.compare dn attr value) = .ok () := by
    rw [policyVerdict]
    cases config.accessControlEnabled <;> rfl
  rw [hverdict] at hpassed
  refine Gives.after (World.tupleCache_of_loaded ht) (Gives.after (Gives.get w) ?_)
  dsimp only
  rw [hb]
  refine hpassed.congr ?_
  cases w.store.compare dn attr value <;> rfl

-- ── Searching ────────────────────────────────────────────────────────────────────

/-- The results of a cursor are these entries, and its filters make this of each. -/
structure Sifts (w : World MemoryStore) (c : EntryCursor (World MemoryStore)) (es : List Entry)
    (g : Entry → Option Entry) : Prop where
  results_eq : c.results = es.map Except.ok
  through_eq : ∀ e, Gives (EntryCursor.through e c.filters) w (.ok (g e))

/-- Behind the others a filter sees what they let out. -/
theorem gives_through_append {fs : List (EntryFilter (World MemoryStore))}
    {f : EntryFilter (World MemoryStore)} {g h : Entry → Option Entry}
    (hfs : ∀ e, Gives (EntryCursor.through e fs) w (.ok (g e)))
    (hf : ∀ e, Gives (f e) w (.ok (h e))) (e : Entry) :
    Gives (EntryCursor.through e (fs ++ [f])) w (.ok ((g e).bind h)) := by
  have happend : ∀ (fs : List (EntryFilter (World MemoryStore))) (e : Entry),
      EntryCursor.through e (fs ++ [f])
        = EntryCursor.through e fs >>= fun r => r.elim (pure none) f := by
    intro fs
    induction fs with
    | nil =>
        intro e
        refine Eq.trans (bind_congr (g := pure) fun r => ?_) (bind_pure (f e))
        cases r <;> rfl
    | cons f' rest ih =>
        intro e
        refine Eq.trans (bind_congr fun r => ?_) (bind_assoc (f' e) _ _).symm
        cases r with
        | none => rfl
        | some e' => exact ih e'
  rw [happend]
  refine Gives.after (hfs e) ?_
  cases g e with
  | none => rfl
  | some e' => exact hf e'

/-- A further filter sifts what the others have left. -/
theorem Sifts.addFilter {c : EntryCursor (World MemoryStore)} {es : List Entry}
    {g h : Entry → Option Entry} (hc : Sifts w c es g) {f : EntryFilter (World MemoryStore)}
    (hf : ∀ e, Gives (f e) w (.ok (h e))) :
    Sifts w (c.addFilter f) es fun e => (g e).bind h :=
  ⟨hc.results_eq, gives_through_append hc.through_eq hf⟩

/-- What a cursor yields is told by what becomes of each entry. -/
theorem Sifts.congr {c : EntryCursor (World MemoryStore)} {es : List Entry}
    {g h : Entry → Option Entry} (hc : Sifts w c es g) (hgh : ∀ e, g e = h e) : Sifts w c es h :=
  ⟨hc.results_eq, fun e => (hc.through_eq e).congr (congrArg Except.ok (hgh e))⟩

/-- Out of a cursor come the entries that its filters let out. -/
theorem Sifts.collect {c : EntryCursor (World MemoryStore)} {es : List Entry}
    {g : Entry → Option Entry} (hc : Sifts w c es g) :
    Gives c.collect w (.ok (es.filterMap g)) := by
  rw [EntryCursor.collect, hc.results_eq]
  have hthrough := hc.through_eq
  clear hc
  induction es with
  | nil => rfl
  | cons e rest ih =>
      rw [List.map_cons, EntryCursor.collectFrom]
      refine Gives.after (hthrough e) ?_
      cases hshown : g e with
      | none =>
          rw [List.filterMap_cons_none hshown]
          exact ih
      | some shown =>
          rw [List.filterMap_cons_some hshown]
          exact Gives.after ih rfl

/-- What the fixed policy makes of an entry on its way out of a search. -/
def unhidden (config : Configuration) (session : Session) (w : World MemoryStore) (e : Entry) :
    Option Entry :=
  if w.hides config session e.dn then none else some e

/-- The fixed policy puts a filter in the way of a search, unless an administrator asks. -/
theorem sifts_default (base : Dn) (scope : SearchScope) (filter : Filter)
    (attrs : Option (List String))
    {next : Handling MemoryStore (Outcome (World MemoryStore))}
    {c : EntryCursor (World MemoryStore)} {es : List Entry} (hc : Sifts w c es some)
    (hnext : Gives next w (.ok (.search c))) :
    ∃ c', Sifts w c' es (unhidden config session w)
      ∧ Gives ((DefaultStage.ofConfiguration config .shared).handle session
          (.search base scope filter attrs) next) w (.ok (.search c')) := by
  have henabled : (DefaultStage.ofConfiguration config .shared).enabled
      = !config.accessControlEnabled := rfl
  unfold DefaultStage.handle
  rw [henabled]
  cases hon : config.accessControlEnabled with
  | true =>
      refine ⟨c, hc.congr fun e => ?_, hnext⟩
      rw [unhidden, World.hides, hon]
      rfl
  | false =>
      let f := (DefaultStage.ofConfiguration config .shared).searchFilter
        (σ := MemoryStore) session.effective.dn
      -- who is an administrator is asked before the search is passed on
      obtain ⟨c', hc', hout⟩ : ∃ c', Sifts w c' es (unhidden config session w)
          ∧ Gives (if w.groups.isAdministrator session.effective.dn then pure (Outcome.search c)
              else pure (.search (c.addFilter f))) w (.ok (.search c')) := by
        cases hadmin : w.groups.isAdministrator session.effective.dn with
        | true =>
            refine ⟨c, hc.congr fun e => ?_, rfl⟩
            rw [unhidden, World.hides, hon, hadmin]
            rfl
        | false =>
            refine ⟨c.addFilter f, (hc.addFilter (h := unhidden config session w) fun e => ?_).congr
              fun e => rfl, rfl⟩
            show Gives (if _ then _ else _) w (.ok (if _ then _ else _))
            rw [World.hides, hon, hadmin, Bool.not_false, Bool.true_and, Bool.true_and]
            split <;> rfl
      exact ⟨c', hc', Gives.after (Gives.get w) (Gives.after rfl (Gives.after hnext
        (Gives.after (a := c) rfl hout)))⟩

/-- A search comes through the stages with filters that show what may be read of each
    entry. -/
theorem gives_search (ht : w.tuples = some t) {base : Dn}
    (hbase : (!base.isRoot && !w.store.entries.contains base) = false) (scope : SearchScope)
    (filter : Filter) (attrs : Option (List String)) :
    ∃ c, Sifts w c (MemoryStore.found base scope filter w.store.entries.entries)
        (w.shows config session none)
      ∧ Gives (Chain.proceed session (.search base scope filter attrs) (standardStages config)) w
          (.ok (.search c)) := by
  let es := MemoryStore.found base scope filter w.store.entries.entries
  have hfound : Gives (Backend.search base scope filter) w.store (.ok (es.map Except.ok)) := by
    rw [Gives, w.store.backend_search_eq, hbase]
    rfl
  have hdispatched : Gives (dispatch (.search base scope filter attrs)) w
      (.ok (.search (.ofResults (es.map Except.ok)))) :=
    Gives.after (World.gives_onStore hfound) rfl
  have hall : Sifts w (.ofResults (es.map Except.ok)) es some := ⟨rfl, fun e => rfl⟩
  obtain ⟨c, hc, hpassed⟩ : ∃ c, Sifts w c es (unhidden config session w)
      ∧ Gives ((DefaultStage.ofConfiguration config .shared).handle session
          (.search base scope filter attrs) (dispatch (.search base scope filter attrs))) w
          (.ok (.search c)) := sifts_default base scope filter attrs hall hdispatched
  cases hb : (AciStage.ofConfiguration config).bypasses w.groups session with
  | true =>
      refine ⟨c, hc.congr fun e => ?_, Gives.after (World.tupleCache_of_loaded ht) ?_⟩
      · rw [unhidden, World.shows, permits_of_bypassed hb, revealed_of_bypassed hb]
        rfl
      · refine Gives.after (Gives.get w) ?_
        dsimp only
        rw [hb]
        exact hpassed
  | false =>
      let asker := AciStage.requester w.groups session
      have hfilter : ∀ e,
          Gives ((AciStage.searchFilter asker : EntryFilter (World MemoryStore)) e) w
          (.ok (AciStage.shown w asker none e)) := by
        intro e
        refine Gives.after (AciStage.tuplesFor_ok ht e) ?_
        rw [AciStage.shown]
        split <;> rfl
      refine ⟨c.addFilter (AciStage.searchFilter asker), (hc.addFilter hfilter).congr fun e => ?_,
        Gives.after (World.tupleCache_of_loaded ht) ?_⟩
      · rw [unhidden, World.shows, hides_of_asked hb, permits_of_asked hb, revealed_of_asked hb]
        rfl
      · refine Gives.after (Gives.get w) ?_
        dsimp only
        rw [hb]
        exact Gives.after hpassed (Gives.after (a := c) rfl rfl)

/-- A search from a base that is not there is refused by storage. -/
theorem gives_search_nowhere (ht : w.tuples = some t) {base : Dn}
    (hbase : (!base.isRoot && !w.store.entries.contains base) = true) (scope : SearchScope)
    (filter : Filter) (attrs : Option (List String)) :
    Gives (Chain.proceed session (.search base scope filter attrs) (standardStages config)) w
      (.error .noMatchingEntries) := by
  have hfound : Gives (Backend.search base scope filter) w.store (.error .noMatchingEntries) := by
    rw [Gives, w.store.backend_search_eq, hbase]
    rfl
  have hdispatched : Gives (dispatch (.search base scope filter attrs)) w
      (.error .noMatchingEntries) := bind_of_error (World.gives_onStore hfound)
  have hpassed : Gives ((DefaultStage.ofConfiguration config .shared).handle session
      (.search base scope filter attrs) (dispatch (.search base scope filter attrs))) w
      (.error .noMatchingEntries) := by
    have henabled : (DefaultStage.ofConfiguration config .shared).enabled
        = !config.accessControlEnabled := rfl
    unfold DefaultStage.handle
    rw [henabled]
    cases config.accessControlEnabled with
    | true => exact hdispatched
    | false => exact Gives.after (Gives.get w) (Gives.after rfl (bind_of_error hdispatched))
  refine Gives.after (World.tupleCache_of_loaded ht) (Gives.after (Gives.get w) ?_)
  dsimp only
  split
  · exact hpassed
  · exact bind_of_error hpassed

-- ── What a session is told ───────────────────────────────────────────────────────

/-- What is looked up is selected from the whole. -/
theorem lookedUp_select (dn : Dn) (attrs : Option (List String)) :
    w.lookedUp config session dn attrs
      = (w.lookedUp config session dn none).map fun e => e.select attrs := by
  rw [World.lookedUp, World.lookedUp]
  split
  · rfl
  · cases w.store.required dn with
    | error cause => rfl
    | ok e =>
        show (if _ then _ else _) = Except.map _ (if _ then _ else _)
        split <;> rfl

/-- What a search shows of an entry is selected from the whole. -/
theorem shows_select (attrs : Option (List String)) (e : Entry) :
    w.shows config session attrs e
      = (w.shows config session none e).map fun e => e.select attrs := by
  rw [World.shows, World.shows]
  split
  · rfl
  · split <;> rfl

/-- Answers that are told apart tell apart what they are made of. -/
theorem eq_of_map_eq {ε α β : Type} {f : α → β} (hf : ∀ a b, f a = f b → a = b)
    {x y : Except ε α} (h : x.map f = y.map f) : x = y := by
  cases x with
  | error cause =>
      cases y with
      | error cause' =>
          cases h
          rfl
      | ok b => cases h
  | ok a =>
      cases y with
      | error cause => cases h
      | ok b => rw [hf a b (Except.ok.inj h)]

/-- What a session is told is what the operation gives, and nothing has changed. -/
theorem step_of_gives {server : Server MemoryStore} {op : Operation}
    {r : Except OperationError Answer}
    (h : Gives (perform server.stages session op) server.world r) :
    server.step session op = (r, server) := by
  rw [Gives] at h
  rw [step, h]
  cases r <;> rfl

section

variable {server : Server MemoryStore} (h : Standard config server)

include h

/-- A lookup is answered with what is looked up, and changes nothing. -/
theorem step_lookup (session : Session) (dn : Dn) (attrs : Option (List String)) :
    server.step session (.lookup dn attrs)
      = ((server.world.lookedUp config session dn attrs).map Answer.entry, server) := by
  obtain ⟨t, ht⟩ := h.loaded
  refine step_of_gives ?_
  rw [h.stages_eq, lookedUp_select]
  have hproceeded : Gives (Chain.proceed session (.lookup dn attrs) (standardStages config))
      server.world _ := gives_lookup ht dn attrs
  cases hr : server.world.lookedUp config session dn none with
  | error cause =>
      rw [hr] at hproceeded
      exact bind_of_error (bind_of_error hproceeded)
  | ok e =>
      rw [hr] at hproceeded
      cases attrs <;> exact Gives.after (Gives.after hproceeded rfl) rfl

/-- Whether an entry is there is answered, and nothing is changed. -/
theorem step_hasEntry (session : Session) (dn : Dn) :
    server.step session (.hasEntry dn)
      = (.ok (.truth (server.world.present config session dn)), server) := by
  obtain ⟨t, ht⟩ := h.loaded
  refine step_of_gives ?_
  rw [h.stages_eq]
  exact Gives.after (Gives.after (gives_hasEntry ht dn) rfl) rfl

/-- A comparison of who is not asked is answered from the store. -/
theorem step_compare {session : Session}
    (hb : (AciStage.ofConfiguration config).bypasses server.world.groups session = true)
    (dn : Dn) (attr value : String) :
    server.step session (.compare dn attr value)
      = ((server.world.store.compare dn (Text.lowercase attr) value).map Answer.truth,
        server) := by
  obtain ⟨t, ht⟩ := h.loaded
  refine step_of_gives ?_
  rw [h.stages_eq]
  have hproceeded := gives_compare ht hb dn (Text.lowercase attr) value
  cases hr : server.world.store.compare dn (Text.lowercase attr) value with
  | error cause =>
      rw [hr] at hproceeded
      exact bind_of_error (bind_of_error hproceeded)
  | ok held =>
      rw [hr] at hproceeded
      exact Gives.after (Gives.after hproceeded rfl) rfl

/-- A search is answered with what is shown, and changes nothing. -/
theorem step_search (session : Session) (base : Dn) (scope : SearchScope) (filter : Filter)
    (attrs : Option (List String)) :
    server.step session (.search base scope filter attrs)
      = ((server.world.searchedFor config session base scope filter attrs).map Answer.entries,
        server) := by
  obtain ⟨t, ht⟩ := h.loaded
  refine step_of_gives ?_
  rw [h.stages_eq, World.searchedFor]
  cases hbase : (!base.isRoot && !server.world.store.entries.contains base) with
  | true =>
      have hrefused : Gives (Chain.proceed session (.search base scope filter attrs)
          (standardStages config)) server.world _ :=
        gives_search_nowhere ht hbase scope filter attrs
      exact bind_of_error (bind_of_error hrefused)
  | false =>
      obtain ⟨c, hc, hproceeded⟩ : ∃ c, Sifts server.world c _
            (server.world.shows config session none)
          ∧ Gives (Chain.proceed session (.search base scope filter attrs)
              (standardStages config)) server.world (.ok (.search c)) :=
        gives_search ht hbase scope filter attrs
      cases attrs with
      | none =>
          exact Gives.after (Gives.after hproceeded rfl)
            (Gives.after (a := c) rfl (Gives.after hc.collect rfl))
      | some names =>
          have hpicked : Sifts server.world
              (c.addFilter fun e => pure (some (e.select (some names)))) _
              (server.world.shows config session (some names)) :=
            (hc.addFilter (h := fun e => some (e.select (some names))) fun e => rfl).congr
              fun e => by
                rw [shows_select (some names)]
                cases server.world.shows config session none e <;> rfl
          exact Gives.after (Gives.after hproceeded rfl)
            (Gives.after (a := c.addFilter _) rfl (Gives.after hpicked.collect rfl))

end

end Server

end DirectoryAccess
