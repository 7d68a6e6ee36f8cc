import DirectoryAccess.Proofs.Cache.Group
import DirectoryAccess.Proofs.Cache.Tuple
import DirectoryAccess.Proofs.Server.Reachable
import DirectoryAccess.Proofs.Store.Rooted

/-! # Relocation — what has moved, and what was lost on the way

    Storage takes the entry of the old name along and then those below it, the group
    cache takes its groups along in the order of their names, and the tuple cache
    goes like storage.  Whatever is stored afterwards was stored before and stands
    where it should.  Whether everything has arrived, in storage and in both caches,
    is a question of three ways: each of them must be clear. -/

namespace DirectoryAccess

/-- The group cache follows a relocation by renaming. -/
theorem GroupCache.after_relocation (c : GroupCache) (s : MemoryStore) {op : Operation}
    {new : Dn} (h : op.newDn? = some new) : c.after s op = c.groupRenamed op.target new := by
  cases op with
  | rename _ _ _ | move _ _ | moveAndRename _ _ _ _ =>
      simp only [after, h]
      rfl
  | add _ | delete _ | modify _ _ | compare _ _ _ | lookup _ _ | hasEntry _
  | search _ _ _ _ => cases h

/-- A relocation without a new name leaves the cached groups as they are. -/
theorem GroupCache.after_of_no_newDn (c : GroupCache) (s : MemoryStore) {op : Operation}
    (hop : op.isRelocation = true) (h : op.newDn? = none) : c.after s op = c := by
  cases op with
  | rename _ _ _ | move _ _ => simp only [after, h]
  | moveAndRename _ _ _ _ => cases h
  | add _ | delete _ | modify _ _ | compare _ _ _ | lookup _ _ | hasEntry _
  | search _ _ _ _ => cases hop

/-- The tuple cache follows it by taking subentries along. -/
theorem TupleCache.after_relocation (c : TupleCache) (s s' : MemoryStore) {op : Operation}
    {new : Dn} (h : op.newDn? = some new) : c.after s s' op = c.relocated op.target new := by
  cases op with
  | rename _ _ _ | move _ _ | moveAndRename _ _ _ _ =>
      simp only [after, h]
      rfl
  | add _ | delete _ | modify _ _ | compare _ _ _ | lookup _ _ | hasEntry _
  | search _ _ _ _ => cases h

-- ── Groups under stored names ────────────────────────────────────────────────────

/-- Ground that is free in storage is free in a map of stored names. -/
theorem FreeGround.of_stored {β : Type} {m : NameMap β} {s : MemoryStore} {old new : Dn}
    (h : FreeGround s.entries old new)
    (hstored : ∀ x, m.contains x = true → s.entries.contains x = true) :
    FreeGround m old new := by
  refine h.imp_right fun hempty e he => ?_
  have hthere : m.contains e.1 = true :=
    (OrdMap.contains_iff ..).mpr ⟨e.2, OrdMap.get?_of_mem m he⟩
  obtain ⟨entry, hentry⟩ := (OrdMap.contains_iff ..).mp (hstored e.1 hthere)
  obtain ⟨k, hk, hkey⟩ := NameMap.mem_of_get? s.entries hentry
  rw [← Dn.isWithin_congr hkey]
  exact hempty _ hk

namespace GroupCache

/-- Every group that is cached is stored. -/
def StoredIn (c : GroupCache) (s : MemoryStore) : Prop :=
  ∀ g, c.groups.contains g = true → s.entries.contains g = true

/-- Adding an entry caches no group but under its name. -/
theorem contains_groupAdded {c : GroupCache} {e : Entry} {g : Dn}
    (h : (c.groupAdded e).groups.contains g = true) :
    g.key = e.dn.key ∨ c.groups.contains g = true := by
  rw [groupAdded] at h
  cases hm : memberSet? e with
  | none =>
      rw [hm] at h
      exact Or.inr h
  | some members =>
      rw [hm] at h
      exact (NameMap.contains_insert ..).mp h

/-- Adding several entries caches no groups but under their names. -/
theorem contains_foldl_groupAdded {es : List Entry} {c : GroupCache} {g : Dn}
    (h : (es.foldl groupAdded c).groups.contains g = true) :
    (∃ e ∈ es, g.key = e.dn.key) ∨ c.groups.contains g = true := by
  induction es generalizing c with
  | nil => exact Or.inr h
  | cons e rest ih =>
      rcases ih h with ⟨e', he', hkey⟩ | h
      · exact Or.inl ⟨e', List.mem_cons_of_mem _ he', hkey⟩
      · exact (contains_groupAdded h).imp_left fun hkey => ⟨e, List.mem_cons_self .., hkey⟩

/-- Modifications cache no group but under the name that they are made to. -/
theorem contains_groupModified {c : GroupCache} {dn : Dn} {mods : List Modification} {e : Entry}
    {g : Dn} (h : (c.groupModified dn mods e).groups.contains g = true) :
    g.key = dn.key ∨ c.groups.contains g = true := by
  have hone : ∀ (c : GroupCache) m, (c.groupModifiedBy dn e m).groups.contains g = true →
      g.key = dn.key ∨ c.groups.contains g = true := by
    intro c m h
    rw [groupModifiedBy] at h
    split at h
    · exact Or.inr h
    · dsimp only at h
      split at h
      · split at h
        · exact Or.inr ((NameMap.contains_erase ..).mp h).2
        · exact (NameMap.contains_insert ..).mp h
      · exact Or.inr h
  induction mods generalizing c with
  | nil => exact Or.inr h
  | cons m rest ih => exact (ih h).elim Or.inl (hone c m)

/-- Wherever a group is found after a renaming, some cached group belongs there. -/
theorem contains_groupRenamed {c : GroupCache} {old new g : Dn}
    (h : (c.groupRenamed old new).groups.contains g = true) :
    (g.isWithin old = false ∧ c.groups.contains g = true)
      ∨ ∃ k r, c.groups.contains k = true ∧ k.rebase? old new = some r ∧ r.key = g.key := by
  have hthere : ∀ e ∈ c.groups.entries, c.groups.contains e.1 = true := fun e he =>
    (OrdMap.contains_iff ..).mpr ⟨e.2, OrdMap.get?_of_mem c.groups he⟩
  rw [groupRenamed_groups] at h
  obtain ⟨members, hmembers⟩ := (OrdMap.contains_iff ..).mp h
  obtain ⟨e, he, himage⟩ := List.mem_map.mp (carryAll_from (fun _ => List.mem_filter) hmembers)
  rcases rebase_or_outside old new e.1 with ⟨r, hr⟩ | hout
  · rw [imageOf_of_rebase hr] at himage
    exact Or.inr ⟨e.1, r, hthere e he, hr, (Prod.mk.inj himage).1⟩
  · rw [imageOf_outside hout] at himage
    have hkey := (Prod.mk.inj himage).1
    rw [← Dn.isWithin_congr hkey, ← NameMap.contains_congr c.groups hkey]
    exact Or.inl ⟨hout, hthere e he⟩

/-- Over a rooted store every group stays cached under a stored name. -/
theorem StoredIn.after {c : GroupCache} {s s' : MemoryStore} {op : Operation}
    (h : c.StoredIn s) (hs : s.Rooted) (hstep : s.after op = .ok s') :
    (c.after s op).StoredIn s' := by
  intro g hg
  cases op with
  | add entry =>
      obtain ⟨-, -, rfl⟩ := MemoryStore.add_ok hstep
      refine (NameMap.contains_insert ..).mpr ?_
      exact (contains_groupAdded hg).imp_right (h g)
  | delete dn =>
      obtain ⟨-, -, rfl⟩ := MemoryStore.delete_ok hstep
      refine (NameMap.contains_erase ..).mpr ?_
      exact ((NameMap.contains_erase ..).mp hg).imp_right (h g)
  | modify dn mods =>
      obtain ⟨e, he, -, rfl⟩ := MemoryStore.modify_ok hstep
      have he : s.lookup dn = some e := he
      simp only [GroupCache.after, he] at hg
      refine (NameMap.contains_insert ..).mpr ?_
      exact (contains_groupModified hg).imp_right (h g)
  | rename _ _ _ | move _ _ | moveAndRename _ _ _ _ =>
      obtain ⟨new, hnew, hrelocate⟩ := MemoryStore.after_relocation rfl hstep
      have hfree := hs.freeGround hrelocate (Operation.newDn_not_root hnew)
      rw [after_relocation c s hnew] at hg
      refine (MemoryStore.contains_relocated hrelocate hfree g).mpr ?_
      rcases contains_groupRenamed hg with ⟨hout, hg⟩ | ⟨k, r, hk, hr, hkey⟩
      · exact Or.inl ⟨hout, h g hg⟩
      · exact Or.inr ⟨k, r, h k hk, hr, hkey⟩
  | compare _ _ _ | lookup _ _ | hasEntry _ | search _ _ _ _ =>
      cases hstep
      exact h g hg

end GroupCache

-- ── Exact relocations ────────────────────────────────────────────────────────────

/-- The subentries that are cached; none, before the tuple cache is loaded. -/
def World.subentries (w : World MemoryStore) : NameMap CachedSubentry :=
  (w.tuples.getD TupleCache.empty).subentries

namespace Server

/-- A relocation has left exactly the image of what there was: of what is stored, of the
    cached groups and of the cached subentries. -/
structure RelocatedExactly (op : Operation) (new : Dn) (w w' : World MemoryStore) : Prop where
  stored : Rekeyed (MemoryStore.landed op.target op.rewrite) op.target new
    w.store.entries w'.store.entries
  groups : Rekeyed (fun _ _ members => members) op.target new w.groups.groups w'.groups.groups
  subentries : Rekeyed (fun _ _ cached => cached) op.target new w.subentries w'.subentries

/-- Nothing is in the way of a relocation, in storage or in a cache, in the order in which
    each of them takes its entries along. -/
structure WayIsClear (w : World MemoryStore) (dn new : Dn) : Prop where
  stored : ClearWay dn new (w.store.entries.topFirst dn) w.store.entries
  groups : ClearWay dn new (w.groups.groups.entries.filter fun e => e.1.isWithin dn)
    w.groups.groups
  subentries : ClearWay dn new (w.subentries.topFirst dn) w.subentries

section

variable {config : Configuration} {server : Server MemoryStore} {session : Session}
  {op : Operation}

/-- Where every suffix stands directly below the root, every group is cached under a stored
    name. -/
theorem Reachable.groupsStored (h : Reachable config server)
    (hshallow : ∀ x ∈ server.world.store.suffixes, x.depth ≤ 1) :
    server.world.groups.StoredIn server.world.store := by
  induction h with
  | start hbuilt hstart =>
      obtain ⟨-, -, hstore, hload, -⟩ := start_ok hstart
      rw [GroupCache.load_ok] at hload
      injection hload with hloaded
      rw [← hloaded, hstore]
      intro g hg
      rcases GroupCache.contains_foldl_groupAdded hg with ⟨e, he, hkey⟩ | hg
      · obtain ⟨⟨k, hk, -⟩, -⟩ := MemoryStore.mem_found.mp he
        have hname := hbuilt.named k e (OrdMap.get?_of_mem _ hk)
        rw [NameMap.contains_congr _ (hkey.trans hname)]
        exact NameMap.contains_of_mem hk
      · cases hg
  | step session op hreach ih =>
      rcases hreach.standard.step_cases session op with
        ⟨-, hsame⟩ | ⟨-, w, hw, ⟨s', hs', rfl⟩, -⟩
      · rw [hsame] at hshallow ⊢
        exact ih hshallow
      · rw [hw] at hshallow ⊢
        have hsuffixes : s'.suffixes = _ := MemoryStore.after_suffixes hs'
        have hbefore := fun x hx => hshallow x (hsuffixes ▸ hx)
        exact (ih hbefore).after (hreach.built.rooted hbefore) hs'

/-- What a relocation that succeeds does to a server, map by map. -/
theorem Reachable.relocation_cases (h : Reachable config server) {answer : Answer}
    (hop : op.isRelocation = true) (hok : (server.step session op).1 = .ok answer) :
    ∃ new, op.newDn? = some new
      ∧ server.world.store.relocate op.target new op.rewrite
          = .ok (server.step session op).2.world.store
      ∧ (server.step session op).2.world.groups = server.world.groups.groupRenamed op.target new
      ∧ (server.step session op).2.world.subentries
          = carryAll (fun _ _ cached => cached) op.target new
            (server.world.subentries.topFirst op.target) server.world.subentries := by
  rcases h.standard.step_cases session op with
    ⟨⟨e, herr⟩, -⟩ | ⟨-, w, hw, ⟨s', hs', rfl⟩, -⟩
  · rw [herr] at hok
    cases hok
  · obtain ⟨new, hnew, hrelocate⟩ := MemoryStore.after_relocation hop hs'
    obtain ⟨t, ht⟩ := h.standard.loaded
    obtain ⟨hbelow, -⟩ := MemoryStore.relocate_ok hrelocate
    rw [hw]
    refine ⟨new, hnew, hrelocate, GroupCache.after_relocation _ _ hnew, ?_⟩
    have hloaded : server.world.subentries = t.subentries := by
      rw [World.subentries, ht]
      rfl
    have hafter : (server.world.after op s').subentries
        = (t.after server.world.store s' op).subentries := by
      rw [World.subentries, World.after, ht]
      rfl
    rw [hloaded, ← t.relocated_subentries hbelow, ← t.after_relocation _ _ hnew]
    exact hafter

/-- Whatever is stored after a relocation that succeeds was stored before and stands where
    it should, and only the entry that was asked to be relocated may have other
    attributes.  Exactly if the way is clear, in storage and in both caches, everything
    has arrived, exactly once.  The way is clear if every suffix stands directly below
    the root and every cached subentry is stored. -/
theorem relocation_exact_iff (hreach : Reachable config server) {answer : Answer}
    (hop : op.isRelocation = true) (hok : (server.step session op).1 = .ok answer) :
    ∃ new, op.newDn? = some new
      ∧ (∀ x e, (server.step session op).2.world.store.lookup x = some e →
          ∃ d ∈ server.world.store.entries.entries,
            imageOf (MemoryStore.landed op.target op.rewrite) op.target new d = (x.key, e)
              ∧ (d.1.same op.target = false → e.attrs = d.2.attrs))
      ∧ (RelocatedExactly op new server.world (server.step session op).2.world
          ↔ WayIsClear server.world op.target new)
      ∧ ((∀ x ∈ server.world.store.suffixes, x.depth ≤ 1) →
          (∀ x, server.world.subentries.contains x = true →
            server.world.store.entries.contains x = true) →
          WayIsClear server.world op.target new) := by
  obtain ⟨new, hnew, hrelocate, hgroups, hsubentries⟩ := hreach.relocation_cases hop hok
  have hstore := MemoryStore.relocate_topFirst hrelocate
  have htop : ∀ {β : Type} (m : NameMap β) (e : Dn × β),
      e ∈ m.topFirst op.target ↔ e ∈ m.entries ∧ e.1.isWithin op.target = true :=
    fun _ _ => NameMap.mem_topFirst
  have hwithin : ∀ e, e ∈ (server.world.groups.groups.entries.filter
      fun e => e.1.isWithin op.target) ↔ e ∈ server.world.groups.groups.entries
        ∧ e.1.isWithin op.target = true := fun _ => List.mem_filter
  have hgroupsDistinct :=
    server.world.groups.groups.distinct.filter fun e => e.1.isWithin op.target
  refine ⟨new, hnew, ?_, ⟨fun h => ?_, fun h => ?_⟩, fun hshallow hcached => ?_⟩
  · intro x e he
    have he : OrdMap.get? (server.step session op).2.world.store.entries x = some e := he
    rw [hstore] at he
    obtain ⟨d, hd, himage⟩ := List.mem_map.mp (carryAll_from (htop _) he)
    refine ⟨d, hd, himage, fun hother => ?_⟩
    rcases rebase_or_outside op.target new d.1 with ⟨r, hr⟩ | hout
    · rw [imageOf_of_rebase hr, MemoryStore.landed, hother] at himage
      rw [← (Prod.mk.inj himage).2]
      rfl
    · rw [imageOf_outside hout] at himage
      rw [← (Prod.mk.inj himage).2]
  · obtain ⟨hstored, hgrouped, hsubentried⟩ := h
    rw [hstore] at hstored
    rw [hgroups] at hgrouped
    rw [hsubentries] at hsubentried
    exact ⟨hstored.clearWay (htop _) (NameMap.topFirst_distinct ..),
      hgrouped.clearWay hwithin hgroupsDistinct,
      hsubentried.clearWay (htop _) (NameMap.topFirst_distinct ..)⟩
  · constructor
    · rw [hstore]
      exact (rekeyed_iff (htop _) (NameMap.topFirst_distinct ..)).mpr h.stored
    · rw [hgroups]
      exact (rekeyed_iff hwithin hgroupsDistinct).mpr h.groups
    · rw [hsubentries]
      exact (rekeyed_iff (htop _) (NameMap.topFirst_distinct ..)).mpr h.subentries
  · have hfree := (hreach.built.rooted hshallow).freeGround hrelocate
      (Operation.newDn_not_root hnew)
    exact ⟨hfree.clearWay (htop _) (NameMap.topFirst_distinct ..),
      (hfree.of_stored (hreach.groupsStored hshallow)).clearWay hwithin hgroupsDistinct,
      (hfree.of_stored hcached).clearWay (htop _) (NameMap.topFirst_distinct ..)⟩

end

-- ── A small directory ────────────────────────────────────────────────────────────

/-- A server over a top, the base of its users and one of them. -/
def usersServer : Server MemoryStore :=
  topServer.run
    [(adminSession, .add (Entry.named usersName)), (adminSession, .add (Entry.named userName))]

/-- Renaming the base takes the user along and loses nothing. -/
theorem users_relocated_exactly :
    (usersServer.step adminSession (.rename usersName otherBase true)).1 = .ok .done
      ∧ ∃ new, RelocatedExactly (.rename usersName otherBase true) new usersServer.world
        (usersServer.step adminSession (.rename usersName otherBase true)).2.world := by
  have hreach : Reachable ⟨false, topName, topName, topName, topName, .info⟩ usersServer :=
    ((Reachable.start (.empty [topName]) (start_fresh _ _)).run _).run _
  have hok : (usersServer.step adminSession (.rename usersName otherBase true)).1
      = .ok .done := by rfl
  obtain ⟨new, -, -, hexact, hclear⟩ := relocation_exact_iff hreach rfl hok
  refine ⟨hok, new, hexact.mpr (hclear (by decide +kernel) fun x hx => ?_)⟩
  have hnone : usersServer.world.subentries = OrdMap.empty := by rfl
  rw [hnone] at hx
  cases hx

/-- A name below the top. -/
def innerName : Dn := topName.child (component "dc" "a" (by decide))

/-- A name below that one, called alike. -/
def innermostName : Dn := innerName.child (component "dc" "a" (by decide))

/-- An entry below the one. -/
def nearName : Dn := innerName.child (component "cn" "r" (by decide))

/-- An entry below the other, called alike. -/
def farName : Dn := innermostName.child (component "cn" "r" (by decide))

/-- A server with these four entries.  Its suffix is not directly below the root. -/
def nestedServer : Server MemoryStore :=
  (fresh ⟨false, groupsName, groupsName, groupsName, groupsName, .info⟩ [innerName]).run
    [(Session.anonymous, .add (Entry.named innerName)),
     (Session.anonymous, .add (Entry.named nearName)),
     (Session.anonymous, .add (Entry.named innermostName)),
     (Session.anonymous, .add (Entry.named farName))]

/-- The suffix is taken to the top, one component up. -/
def liftInner : Operation :=
  .moveAndRename innerName Dn.root (component "dc" "x" (by decide)) false

/-- The far entry is taken to the name of the near one, which is still waiting there.  The
    near one takes its place clear as it goes, and the far one is lost. -/
theorem far_entry_lost :
    (nestedServer.step Session.anonymous liftInner).1 = .ok .done
      ∧ (farName.rebase? innerName topName).map Dn.norm = some nearName.norm
      ∧ nestedServer.world.store.lookup farName = some (Entry.named farName)
      ∧ (nestedServer.step Session.anonymous liftInner).2.world.store.lookup nearName = none
      ∧ ∀ new, ¬RelocatedExactly liftInner new nestedServer.world
          (nestedServer.step Session.anonymous liftInner).2.world := by
  refine ⟨by rfl, by decide +kernel, by rfl, by rfl, ?_⟩
  intro new h
  have hlength := h.stored.length_eq
  rw [NameMap.content, List.length_map, List.length_map] at hlength
  have hbefore : nestedServer.world.store.entries.entries.length = 4 := by rfl
  have hafter : (nestedServer.step Session.anonymous liftInner).2.world.store.entries.entries.length
      = 3 := by rfl
  rw [hbefore, hafter] at hlength
  cases hlength

end Server

end DirectoryAccess
