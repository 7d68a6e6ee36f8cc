import DirectoryAccess.Proofs.Authorization.Bypass
import DirectoryAccess.Proofs.Server.FailClosed

/-! # Transparency — to administrators the stages are not there

    With access control on, an operation of an administrator is answered as by the same
    server without stages: the same success or a refusal of the same kind, and the same
    store afterwards.  Nothing that is stored in the way of policy, and nothing that is
    cached of it, makes a difference.  Only what is refused to everybody is refused to
    administrators as well. -/

namespace DirectoryAccess

open DirectoryAccess.Action

namespace Server

/-- The same server without stages: operations go to storage, and what was asked for is
    picked out of what comes back. -/
def bare (server : Server MemoryStore) : Server MemoryStore := { server with stages := [] }

section

variable {config : Configuration} (hon : config.accessControlEnabled = true) {session : Session}
  {w : World MemoryStore} {t : TupleCache} (ht : w.tuples = some t)
  (hadmin : w.groups.isAdministrator session.effective.dn = true)

/-- Administrators bypass access control. -/
theorem bypasses_of_administrator (config : Configuration)
    (hadmin : w.groups.isAdministrator session.effective.dn = true) :
    (AciStage.ofConfiguration config).bypasses w.groups session = true := by
  rw [AciStage.bypasses, hadmin, Bool.or_true]

-- ── Reading ──────────────────────────────────────────────────────────────────────

/-- What is told of an operation is put together from what comes through the stages. -/
theorem perform_congr {stages stages' : List Stage} {op : Operation}
    (h : Chain.proceed session (prepare op) stages w
      = Chain.proceed session (prepare op) stages' w) :
    perform stages session op w = perform stages' session op w := by
  have hbind : ∀ {α β : Type} {x y : Handling MemoryStore α} {f : α → Handling MemoryStore β},
      x w = y w → (x >>= f) w = (y >>= f) w := by
    intro α β x y f hxy
    show EStateM.bind x f w = EStateM.bind y f w
    rw [EStateM.bind, EStateM.bind, hxy]
  exact hbind (hbind h)

/-- What is done to the directory is told of as such. -/
theorem perform_of_done {stages : List Stage} {op : Operation} (hop : op.isReading = false)
    {w' : World MemoryStore} (h : Chain.proceed session op stages w = .ok .done w') :
    perform stages session op w = .ok .done w' := by
  have hexecuted : Chain.execute stages session op w = .ok (Chain.pick op .done) w' :=
    (bind_of_ok h).trans rfl
  cases op with
  | compare _ _ _ | lookup _ _ | hasEntry _ | search _ _ _ _ => cases hop
  | add _ | delete _ | modify _ _ | rename _ _ _ | move _ _ | moveAndRename _ _ _ _ =>
      exact (bind_of_ok hexecuted).trans rfl

/-- A change that the stages refuse is refused for their cause. -/
theorem perform_of_refused {stages : List Stage} {op : Operation} (hop : op.isReading = false)
    {cause : OperationError} {w' : World MemoryStore}
    (h : Chain.proceed session op stages w = .error cause w') :
    perform stages session op w = .error cause w' := by
  have hexecuted : Chain.execute stages session op w = .error cause w' := bind_of_error h
  cases op with
  | compare _ _ _ | lookup _ _ | hasEntry _ | search _ _ _ _ => cases hop
  | add _ | delete _ | modify _ _ | rename _ _ _ | move _ _ | moveAndRename _ _ _ _ =>
      exact bind_of_error hexecuted

include hon ht hadmin

/-- What an administrator reads comes through the stages as storage gives it. -/
theorem proceed_reading {op : Operation} (hop : op.isReading = true) :
    Chain.proceed session op (standardStages config) w = dispatch op w := by
  have hb := bypasses_of_administrator config hadmin
  rw [proceed_eq hon]
  unfold AciStage.handle
  rw [bind_of_ok (World.tupleCache_of_loaded ht)]
  cases op with
  | add _ | delete _ | modify _ _ | rename _ _ _ | move _ _ | moveAndRename _ _ _ _ => cases hop
  | compare dn attr value =>
      refine (bind_of_ok (Gives.get w)).trans ?_
      dsimp only
      rw [hb]
      rfl
  | lookup dn attrs =>
      refine (bind_of_ok (Gives.get w)).trans ?_
      dsimp only
      rw [hb]
      rfl
  | hasEntry dn =>
      obtain ⟨b, hpresent⟩ : ∃ b, dispatch (.hasEntry dn) w = .ok (.hasEntry b) w := by
        rw [dispatch]
        split
        · exact ⟨true, rfl⟩
        · exact ⟨(w.store.lookup dn).isSome, rfl⟩
      have hanswered : Gives (Action.ofExcept (Outcome.hasEntry (σ := World MemoryStore) b).toBool)
          w (.ok b) := rfl
      rw [hpresent]
      refine (bind_of_ok hpresent).trans ((bind_of_ok hanswered).trans
        ((bind_of_ok (Gives.get w)).trans ?_))
      dsimp only
      rw [hb, Bool.or_true]
      rfl
  | search base scope filter attrs =>
      refine (bind_of_ok (Gives.get w)).trans ?_
      dsimp only
      rw [hb]
      rfl

end

-- ── The same answers ─────────────────────────────────────────────────────────────

/-- **THE BYPASS IS TRANSPARENT**: with access control on, whatever is stored, an operation
    of an administrator is answered as without any stage, by the same success or a refusal
    of the same kind, and leaves the same store; unless it modifies nothing or would leave
    an access control subentry without items, which is refused to everybody. -/
theorem administrator_bypass_transparent {config : Configuration}
    (hon : config.accessControlEnabled = true) {server : Server MemoryStore}
    (hreach : Reachable config server) {session : Session}
    (hadmin : server.world.groups.isAdministrator session.effective.dn = true) {op : Operation}
    (hbars : ¬server.world.store.Bars op) :
    (server.step session op).1.mapError OperationError.name
        = (server.bare.step session op).1.mapError OperationError.name
      ∧ (server.step session op).2.world.store = (server.bare.step session op).2.world.store := by
  obtain ⟨t, ht⟩ := hreach.standard.loaded
  rw [step, step, hreach.standard.stages_eq, bare]
  dsimp only
  cases hop : op.isReading with
  | true =>
      have hprepared : (prepare op).isReading = true := by
        cases op <;> exact hop
      have hsame : perform (standardStages config) session op server.world
          = perform [] session op server.world :=
        perform_congr (proceed_reading hon ht hadmin hprepared)
      rw [hsame]
      cases perform [] session op server.world <;> exact ⟨rfl, rfl⟩
  | false =>
      have hcarried := AciStage.carries_handle ht (bypasses_of_administrator config hadmin) hop
        hbars
      rw [← proceed_eq hon, AciStage.Carries] at hcarried
      cases hstore : server.world.store.after op with
      | ok s' =>
          rw [hstore] at hcarried
          have hbare : Chain.proceed session op [] server.world = .ok .done _ :=
            AciStage.dispatch_of_ok hop hstore
          rw [perform_of_done hop hcarried, perform_of_done hop hbare]
          exact ⟨rfl, rfl⟩
      | error cause =>
          rw [hstore] at hcarried
          have hbare : Chain.proceed session op [] server.world = .error cause _ :=
            AciStage.dispatch_of_error hop hstore
          obtain ⟨cause', hname, hrefused⟩ := hcarried
          rw [perform_of_refused hop hrefused, perform_of_refused hop hbare]
          exact ⟨congrArg Except.error hname, rfl⟩

/-- Where nothing is granted to anybody, the administrator describes the top anew, and the
    store is that of the server without stages. -/
theorem administrator_describes_top :
    (ungrantedServer.step adminSession (.modify topName [.add "description" ["there"]])).1.mapError
        OperationError.name = .ok .done
      ∧ (ungrantedServer.step adminSession
          (.modify topName [.add "description" ["there"]])).2.world.store
        = (ungrantedServer.bare.step adminSession
          (.modify topName [.add "description" ["there"]])).2.world.store := by
  have hbars : ¬ungrantedServer.world.store.Bars
      (.modify topName [.add "description" ["there"]]) := by
    rintro (hnothing | ⟨s', e, hs', he, hclass, -⟩)
    · cases hnothing
    · cases hs'
      cases he
      exact absurd hclass (by decide +kernel)
  have hbare : (ungrantedServer.bare.step adminSession
      (.modify topName [.add "description" ["there"]])).1.mapError OperationError.name
      = .ok .done := by rfl
  have hadmin : ungrantedServer.world.groups.isAdministrator adminSession.effective.dn = true := by
    rfl
  obtain ⟨hanswer, hstore⟩ := administrator_bypass_transparent rfl
    ((Reachable.start (.empty [topName]) (start_fresh groupConfig _)).run _) hadmin hbars
  exact ⟨hanswer.trans hbare, hstore⟩

end Server

end DirectoryAccess
