import DirectoryAccess.Proofs.Server.Reachable
import DirectoryAccess.Proofs.Server.TupleTracking

/-! # Policy coherence — a restart against a run

    The prescriptive policy in force is what the tuple cache has kept.  It is CURRENT if
    a restart would load just that; then the restart puts the same tuples in force
    everywhere.  Every server starts with a current policy.  A run keeps it so as long
    as the tuple cache tracks every operation that succeeds, and the first one that it
    does not track ends it. -/

namespace DirectoryAccess

namespace Server

/-- The tuple cache keeps, under every name, what one that is freshly loaded from the same
    store keeps. -/
def PolicyCurrent (server : Server MemoryStore) : Prop :=
  ∃ live fresh, server.world.tuples = some live
    ∧ TupleCache.load server.world.store = .ok fresh server.world.store
    ∧ live.subentries.content = fresh.subentries.content

/-- The tuple cache puts the same tuples in force as one that is freshly loaded from the
    same store, at every name and for every entry. -/
def PolicySurvives (server : Server MemoryStore) : Prop :=
  ∃ live fresh, server.world.tuples = some live
    ∧ TupleCache.load server.world.store = .ok fresh server.world.store
    ∧ ∀ dn entry, live.prescriptiveTuples dn entry = fresh.prescriptiveTuples dn entry

/-- If a step succeeds, the tuple cache tracks its operation. -/
def TuplesTracked (server : Server MemoryStore) (session : Session) (op : Operation) : Prop :=
  ∀ answer live, (server.step session op).1 = .ok answer → server.world.tuples = some live →
    live.Tracks server.world.store (server.step session op).2.world.store op

/-- A policy that is current survives a restart. -/
theorem PolicyCurrent.survives {server : Server MemoryStore} (h : server.PolicyCurrent) :
    server.PolicySurvives := by
  obtain ⟨live, fresh, hlive, hfresh, hcontent⟩ := h
  exact ⟨live, fresh, hlive, hfresh,
    TupleCache.prescriptiveTuples_congr (NameMap.get?_of_content hcontent)⟩

section

variable {config : Configuration} {server : Server MemoryStore}

/-- The policy of a reachable server is current if its tuple cache keeps what its store
    prescribes. -/
theorem Reachable.policyCurrent_iff (h : Reachable config server) {live : TupleCache}
    (hlive : server.world.tuples = some live) :
    server.PolicyCurrent ↔ live.Matches server.world.store := by
  have hfresh := TupleCache.matches_loaded h.built.named
  constructor
  · rintro ⟨live', fresh, hlive', hload, hcontent⟩ x a
    cases hlive.symm.trans hlive'
    cases hload.symm.trans (TupleCache.load_loaded _)
    have hsame := NameMap.get?_of_content hcontent x
    exact (iff_of_eq (congrArg (· = some a) hsame)).trans (hfresh x a)
  · intro hmatches
    refine ⟨live, _, hlive, TupleCache.load_loaded _, NameMap.content_eq fun x => ?_⟩
    exact Option.ext fun a => (hmatches x a).trans (hfresh x a).symm

/-- A server starts with a current policy. -/
theorem policyCurrent_start {store : MemoryStore}
    (hstart : Server.start config store = .ok server) : server.PolicyCurrent := by
  obtain ⟨-, -, hstore, -, live, hload, hlive⟩ := start_ok hstart
  refine ⟨live, live, hlive, ?_, rfl⟩
  rw [hstore]
  exact hload

/-- One step keeps the policy current exactly if the tuple cache tracks it. -/
theorem policyCurrent_step (hreach : Reachable config server) (h : server.PolicyCurrent)
    (session : Session) (op : Operation) :
    (server.step session op).2.PolicyCurrent ↔ server.TuplesTracked session op := by
  obtain ⟨live, hlive⟩ := hreach.standard.loaded
  have hmatches := (hreach.policyCurrent_iff hlive).mp h
  rcases hreach.standard.step_cases session op with
    ⟨⟨e, herr⟩, hsame⟩ | ⟨⟨answer, hok⟩, w, hw, ⟨s', hs', rfl⟩, -⟩
  · rw [hsame]
    refine iff_of_true h fun answer _ hok => ?_
    rw [herr] at hok
    cases hok
  · have hafter : (server.step session op).2.world.tuples
        = some (live.after server.world.store s' op) := by
      rw [hw]
      exact World.tuples_after hlive op s'
    have hreach' := hreach.step session op
    rw [hreach'.policyCurrent_iff hafter, TuplesTracked, hok, hw]
    refine (TupleCache.matches_after hmatches hs').trans
      ⟨fun ht _ live' _ hlive' => ?_, fun ht => ?_⟩
    · cases hlive.symm.trans hlive'
      exact ht
    · exact ht answer live rfl hlive

/-- At every time of a run the tuple cache keeps what a restart would load, exactly if it
    tracks every operation of the run that succeeds.  Whenever it does, a restart puts the
    same tuples in force, at every name and for every entry. -/
theorem policy_current_iff {store : MemoryStore} (hbuilt : store.Built)
    (hstart : Server.start config store = .ok server) (ops : List (Session × Operation)) :
    ((∀ n, (server.run (ops.take n)).PolicyCurrent)
      ↔ ∀ n op, ops[n]? = some op → (server.run (ops.take n)).TuplesTracked op.1 op.2)
    ∧ ∀ n, (server.run (ops.take n)).PolicyCurrent → (server.run (ops.take n)).PolicySurvives :=
  ⟨(Reachable.start hbuilt hstart).run_iff policyCurrent_step (policyCurrent_start hstart) ops,
    fun _ => PolicyCurrent.survives⟩

end

-- ── A small directory ────────────────────────────────────────────────────────────

/-- An item that lets everybody read an entry. -/
def readItem : String :=
  "\x7b identificationTag \"read\", precedence 1, authenticationLevel none, itemOrUserFirst " ++
  "itemFirst: \x7b protectedItems \x7b entry \x7d, itemPermissions " ++
  "\x7b \x7b userClasses \x7b allUsers \x7d, " ++
  "grantsAndDenials \x7b grantRead \x7d \x7d \x7d \x7d \x7d"

/-- The name of a policy below the top. -/
def policyName : Dn := topName.child (component "cn" "p" (by decide))

/-- An entry with this item that is no subentry. -/
def strayPolicy : Entry := (Entry.named policyName).addAva Attribute.prescriptiveAci readItem

/-- An access control subentry with this item. -/
def readPolicy : Entry :=
  strayPolicy.addAva Attribute.objectClass ObjectClass.accessControlSubentry

/-- The additions that make a directory with a policy. -/
def policyAdditions (policy : Entry) : List (Session × Operation) :=
  [(adminSession, .add (Entry.named topName)), (adminSession, .add policy)]

/-- A server over such a directory, with access control. -/
def policyServer (policy : Entry) : Server MemoryStore :=
  (fresh groupConfig [topName]).run (policyAdditions policy)

theorem not_prescribes_named (dn : Dn) (a : CachedSubentry) : ¬(Entry.named dn).Prescribes a := by
  rintro ⟨hclass, -⟩
  cases hclass

/-- The policy of a subentry is kept, and survives a restart. -/
theorem read_policy_survives :
    (policyServer readPolicy).world.tuples.map (fun live => live.contains policyName) = some true
      ∧ (policyServer readPolicy).PolicySurvives := by
  obtain ⟨hcurrent, hsurvives⟩ := policy_current_iff (.empty [topName])
    (start_fresh groupConfig [topName]) (policyAdditions readPolicy)
  refine ⟨by decide +kernel, hsurvives 2 (hcurrent.mpr ?_ 2)⟩
  intro n op hop
  rcases n with _ | _ | n
  · cases hop
    refine fun _ _ _ _ => ⟨fun x e a _ he => ?_, fun hitems => ?_⟩
    · cases he
    · cases hitems
  · cases hop
    refine fun _ _ _ _ => ⟨fun x e a _ he ha => ?_, fun _ => ⟨by decide +kernel, ?_⟩⟩
    · obtain ⟨k, hk, -⟩ := NameMap.mem_of_get? _ he
      have hk : (k, e) ∈ [(topName, Entry.named topName)] := hk
      cases List.mem_singleton.mp hk
      exact absurd ha (not_prescribes_named topName a)
    · exact ⟨topName, by decide, Or.inr (by decide +kernel), by decide⟩
  · cases hop

/-- The same item is in force from an entry that is no subentry, until a restart forgets
    it. -/
theorem stray_policy_forgotten :
    (policyServer strayPolicy).world.tuples.map (fun live =>
        (live.prescriptiveTuples userName none).length) = some 1
      ∧ ((TupleCache.loaded (policyServer strayPolicy).world.store).prescriptiveTuples
        userName none).length = 0
      ∧ ¬(policyServer strayPolicy).PolicySurvives := by
  have hlive : (policyServer strayPolicy).world.tuples.map (fun live =>
      (live.prescriptiveTuples userName none).length) = some 1 := by
    decide +kernel
  have hfresh : ((TupleCache.loaded (policyServer strayPolicy).world.store).prescriptiveTuples
      userName none).length = 0 := by
    decide +kernel
  refine ⟨hlive, hfresh, ?_⟩
  rintro ⟨live, fresh, htuples, hload, hsame⟩
  cases hload.symm.trans (TupleCache.load_loaded _)
  rw [htuples, Option.map_some, hsame, hfresh] at hlive
  cases hlive

end Server

end DirectoryAccess
