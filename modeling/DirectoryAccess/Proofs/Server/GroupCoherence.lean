import DirectoryAccess.Proofs.Server.GroupTracking
import DirectoryAccess.Proofs.Server.Reachable

/-! # Group cache coherence — a restart against a run

    A server is coherent if a restart would not change who is a member of what.
    Every server starts coherent.  A run keeps it so as long as the group cache tracks
    every operation that succeeds, and the first one that it does not track ends it. -/

namespace DirectoryAccess

namespace GroupCache

/-- A modification does not change who the administrators are named after. -/
theorem groupModifiedBy_admin (c : GroupCache) (dn : Dn) (e : Entry) (m : Modification) :
    (c.groupModifiedBy dn e m).adminDn = c.adminDn
      ∧ (c.groupModifiedBy dn e m).adminGroupDn = c.adminGroupDn := by
  rw [groupModifiedBy]
  cases e.memberAttr? with
  | none => exact ⟨rfl, rfl⟩
  | some attr =>
      dsimp only
      split
      · split <;> exact ⟨rfl, rfl⟩
      · exact ⟨rfl, rfl⟩

/-- No operation changes which administrators a cache is about. -/
theorem after_admin (c : GroupCache) (s : MemoryStore) (op : Operation) :
    (c.after s op).adminDn = c.adminDn ∧ (c.after s op).adminGroupDn = c.adminGroupDn := by
  cases op with
  | add entry => exact foldl_groupAdded_admin [entry] c
  | modify dn mods =>
      rw [after]
      cases s.lookup dn with
      | none => exact ⟨rfl, rfl⟩
      | some e =>
          show (mods.foldl _ c).adminDn = _ ∧ (mods.foldl _ c).adminGroupDn = _
          induction mods generalizing c with
          | nil => exact ⟨rfl, rfl⟩
          | cons m rest ih =>
              obtain ⟨hdn, hgroup⟩ := c.groupModifiedBy_admin dn e m
              exact ⟨(ih _).1.trans hdn, (ih _).2.trans hgroup⟩
  | rename dn rdn deleteOld =>
      rw [after]
      cases (Operation.rename dn rdn deleteOld).newDn? <;> exact ⟨rfl, rfl⟩
  | move dn superior =>
      rw [after]
      cases (Operation.move dn superior).newDn? <;> exact ⟨rfl, rfl⟩
  | delete _ | moveAndRename _ _ _ _ | compare _ _ _ | lookup _ _ | hasEntry _
  | search _ _ _ _ => exact ⟨rfl, rfl⟩

end GroupCache

namespace Server

/-- The group cache answers every question like one that is freshly loaded from the
    same store. -/
def Coherent (server : Server MemoryStore) : Prop :=
  ∃ fresh, GroupCache.load
      (GroupCache.unloaded server.config.adminDn server.config.adminGroupDn) server.world.store
        = .ok fresh server.world.store
    ∧ server.world.groups.Agrees fresh

/-- If a step succeeds, the group cache tracks its operation. -/
def Tracks (server : Server MemoryStore) (session : Session) (op : Operation) : Prop :=
  ∀ answer, (server.step session op).1 = .ok answer →
    server.world.groups.Tracks server.world.store (server.step session op).2.world.store op

section

variable {config : Configuration} {server : Server MemoryStore}

/-- The group cache of a reachable server is about the administrators of its
    configuration. -/
theorem Reachable.admin (h : Reachable config server) :
    server.world.groups.adminDn = config.adminDn
      ∧ server.world.groups.adminGroupDn = config.adminGroupDn := by
  induction h with
  | start _ hstart =>
      obtain ⟨-, -, -, hload, -⟩ := start_ok hstart
      rw [GroupCache.load_unloaded] at hload
      injection hload with hloaded
      rw [← hloaded]
      exact GroupCache.loaded_admin ..
  | step session op hreach ih =>
      rcases hreach.standard.step_cases session op with ⟨-, hsame⟩ | ⟨-, w, hw, ⟨s', -, rfl⟩, -⟩
      · rw [hsame]
        exact ih
      · rw [hw]
        obtain ⟨hdn, hgroup⟩ := GroupCache.after_admin _ _ op
        exact ⟨hdn.trans ih.1, hgroup.trans ih.2⟩

/-- A reachable server is coherent if its group cache lists what its store lists. -/
theorem Reachable.coherent_iff (h : Reachable config server) :
    server.Coherent ↔ server.world.groups.Matches server.world.store := by
  obtain ⟨hdn, hgroup⟩ := h.admin
  let fresh := GroupCache.loaded config.adminDn config.adminGroupDn server.world.store
  obtain ⟨hfreshdn, hfreshgroup⟩ :=
    GroupCache.loaded_admin config.adminDn config.adminGroupDn server.world.store
  have hagrees : server.world.groups.Agrees fresh
      ↔ server.world.groups.Matches server.world.store := by
    refine (GroupCache.agrees_iff (hdn.trans hfreshdn.symm)
      (hgroup.trans hfreshgroup.symm)).trans ?_
    exact forall_congr' fun g => forall_congr' fun d =>
      iff_congr Iff.rfl (GroupCache.lists_loaded _ _ h.built.named g d)
  rw [← hagrees, Coherent, h.standard.config_eq]
  simp only [GroupCache.load_unloaded]
  constructor
  · rintro ⟨fresh', hload, hsame⟩
    injection hload with hloaded
    rw [← hloaded] at hsame
    exact hsame
  · exact fun hsame => ⟨fresh, rfl, hsame⟩

/-- A server starts coherent. -/
theorem coherent_start {store : MemoryStore} (hstart : Server.start config store = .ok server) :
    server.Coherent := by
  obtain ⟨hconfig, -, hstore, hload, -⟩ := start_ok hstart
  refine ⟨server.world.groups, ?_, fun _ => rfl, fun _ _ => rfl⟩
  rw [hconfig, hstore]
  exact hload

/-- One step keeps a server coherent exactly if the group cache tracks it. -/
theorem coherent_step (hreach : Reachable config server) (h : server.Coherent)
    (session : Session) (op : Operation) :
    (server.step session op).2.Coherent ↔ server.Tracks session op := by
  have hmatches := hreach.coherent_iff.mp h
  rcases hreach.standard.step_cases session op with
    ⟨⟨e, herr⟩, hsame⟩ | ⟨⟨answer, hok⟩, w, hw, ⟨s', hs', rfl⟩, -⟩
  · rw [hsame]
    refine iff_of_true h fun answer hok => ?_
    rw [herr] at hok
    cases hok
  · have hafter := GroupCache.matches_after hmatches hs'
    rw [(hreach.step session op).coherent_iff, Tracks, hok, hw]
    exact hafter.trans ⟨fun ht _ _ => ht, fun ht => ht answer rfl⟩

/-- Where all suffixes stand directly below the root, whether a relocation is tracked is a
    matter of the directory before and after it. -/
theorem tracks_relocation_iff (hreach : Reachable config server)
    (hshallow : ∀ x ∈ server.world.store.suffixes, x.depth ≤ 1) (session : Session)
    {op : Operation} (hop : op.isRelocation = true) {new : Dn} (hnew : op.newDn? = some new) :
    server.Tracks session op ↔ ∀ answer, (server.step session op).1 = .ok answer →
      GroupCache.TracksRelocation server.world.store (server.step session op).2.world.store
        op.target new op.rewrite := by
  rcases hreach.standard.step_cases session op with
    ⟨⟨e, herr⟩, -⟩ | ⟨⟨answer, hok⟩, w, hw, ⟨s', hs', rfl⟩, -⟩
  · rw [Tracks, herr]
    constructor <;> intro _ _ hanswer <;> cases hanswer
  · have htracks := GroupCache.tracks_relocation_iff (c := server.world.groups)
      (hreach.built.rooted hshallow) hop hs' hnew
    rw [Tracks, hw]
    exact forall_congr' fun _ => imp_congr_right fun _ => htracks

/-- From a coherent server a run stays coherent exactly if the group cache tracks every
    step of it. -/
theorem coherent_run_iff (hreach : Reachable config server) (h : server.Coherent)
    (ops : List (Session × Operation)) :
    (∀ n, (server.run (ops.take n)).Coherent)
      ↔ ∀ n op, ops[n]? = some op → (server.run (ops.take n)).Tracks op.1 op.2 :=
  hreach.run_iff coherent_step h ops

/-- A restart never changes who is a member of what, at any time of a run, exactly if the
    group cache tracks every operation of the run that succeeds. -/
theorem group_cache_coherent_iff {store : MemoryStore} (hbuilt : store.Built)
    (hstart : Server.start config store = .ok server) (ops : List (Session × Operation)) :
    (∀ n, (server.run (ops.take n)).Coherent)
      ↔ ∀ n op, ops[n]? = some op → (server.run (ops.take n)).Tracks op.1 op.2 :=
  coherent_run_iff (.start hbuilt hstart) (coherent_start hstart) ops

end

-- ── A small directory ────────────────────────────────────────────────────────────

/-- The group, with the deputy as its only member and in two spellings. -/
def adminGroup : Entry :=
  (((Entry.named adminGroupName).addAva Attribute.objectClass ObjectClass.groupOfNames).addAva
    Attribute.member "cn=a,dc=x").addAva Attribute.member "cn=a, dc=x"

/-- The additions that make the directory. -/
def groupAdditions : List (Session × Operation) :=
  [(adminSession, .add (Entry.named topName)), (adminSession, .add adminGroup)]

theorem not_lists_named (dn d : Dn) : ¬(Entry.named dn).Lists d := by
  intro h
  cases h

/-- Once the directory is made the deputy is an administrator, and a restart does not
    change that. -/
theorem additions_stay_coherent :
    ((fresh groupConfig [topName]).run groupAdditions).world.groups.isAdministrator deputyName
        = true
      ∧ ((fresh groupConfig [topName]).run groupAdditions).Coherent := by
  refine ⟨by decide +kernel, (group_cache_coherent_iff (.empty [topName]) (start_fresh _ _)
    groupAdditions).mpr ?_ 2⟩
  intro n op hop
  rcases n with _ | _ | n
  · cases hop
    intro _ _
    refine ⟨?_, fun d hd => absurd hd (not_lists_named topName d)⟩
    intro _ _ _ _ he
    cases he
  · cases hop
    intro _ _
    refine ⟨fun g e d _ he hd => ?_, fun d _ => ?_⟩
    · obtain ⟨k, hk, -⟩ := NameMap.mem_of_get? _ he
      have hk : (k, e) ∈ [(topName, Entry.named topName)] := hk
      cases List.mem_singleton.mp hk
      exact absurd hd (not_lists_named topName d)
    · exact ⟨topName, by decide, Or.inr (by decide +kernel), by decide⟩
  · cases hop

/-- The directory after one of the two spellings of the deputy has been taken out of the
    group. -/
def respelledServer : Server MemoryStore :=
  (fresh groupConfig [topName]).run (groupAdditions ++
    [(adminSession, .modify adminGroupName [.remove Attribute.member ["cn=a,dc=x"]])])

/-- The group still holds the other spelling.  The running server takes the deputy for no
    administrator, and a restart would bring them back. -/
theorem respelled_member_forgotten :
    respelledServer.world.groups.isAdministrator deputyName = false
      ∧ (GroupCache.loaded topName adminGroupName
        respelledServer.world.store).isAdministrator deputyName = true
      ∧ ¬respelledServer.Coherent := by
  have hlive : respelledServer.world.groups.isAdministrator deputyName = false := by
    decide +kernel
  have hfresh : (GroupCache.loaded topName adminGroupName
      respelledServer.world.store).isAdministrator deputyName = true := by
    decide +kernel
  refine ⟨hlive, hfresh, ?_⟩
  rintro ⟨fresh, hload, hagrees⟩
  have hloaded := hload.symm.trans (GroupCache.load_unloaded ..)
  injection hloaded with hloaded
  have hsame := hagrees.isAdministrator_eq deputyName
  rw [hlive, hloaded] at hsame
  exact Bool.false_ne_true (hsame.trans hfresh)

end Server

end DirectoryAccess
