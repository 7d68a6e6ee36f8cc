import DirectoryAccess.Proofs.Name.Rekeying
import DirectoryAccess.Proofs.Store.Rooted

/-! # Calls on the memory store — one after the other, whatever they answer

    Storage is called with one operation at a time, and goes on after a call that
    fails as after one that succeeds.  If every suffix stands directly below the
    root, the store is a tree at all times: every entry is called as the place where
    it is, and the place above it is the root or taken.  In a tree a relocation has
    free ground before it, so it loses nothing. -/

namespace DirectoryAccess

/-- The call of a backend that an operation comes down to, whatever the answer tells. -/
def Backend.request {σ : Type} [Backend σ] : Operation → Action σ Unit
  | .add entry => Backend.add entry
  | .delete dn => Backend.delete dn
  | .modify dn mods => Backend.modify dn mods
  | .rename dn rdn deleteOld => Backend.rename dn rdn deleteOld
  | .move dn superior => Backend.move dn superior
  | .moveAndRename dn superior rdn deleteOld => Backend.moveAndRename dn superior rdn deleteOld
  | .compare dn attr value => do
      let _ ← Backend.compare dn attr value
  | .lookup dn _ | .hasEntry dn => do
      let _ ← Backend.lookup dn
  | .search base scope filter _ => do
      let _ ← Backend.search base scope filter

/-- A relocation is no reading. -/
theorem Operation.isReading_of_isRelocation {op : Operation} (h : op.isRelocation = true) :
    op.isReading = false := by
  cases op with
  | rename _ _ _ | move _ _ | moveAndRename _ _ _ _ => rfl
  | add _ | delete _ | modify _ _ | compare _ _ _ | lookup _ _ | hasEntry _
  | search _ _ _ _ => cases h

namespace Dn

/-- Only the root has no components. -/
theorem eq_root_of_key {d : Dn} (h : d.key = root.key) : d = root :=
  congrArg mk (List.isEmpty_iff.mp ((isRoot_iff d).mpr h))

/-- Only the root has nothing above it. -/
theorem eq_root_of_parent {d : Dn} (h : d.parent? = none) : d = root := by
  obtain ⟨rdns⟩ := d
  cases rdns with
  | nil => rfl
  | cons r rest => cases h

end Dn

namespace MemoryStore

/-- The store that a call leaves, whether it succeeds or fails. -/
def called (s : MemoryStore) (op : Operation) : MemoryStore :=
  (EntryCursor.attempt (Backend.request op) s).2

/-- The store after the calls of a list. -/
def calledAll (s : MemoryStore) (ops : List Operation) : MemoryStore := ops.foldl called s

section

variable {s s' : MemoryStore} {op : Operation}

/-- A question leaves the store as it is. -/
theorem query_state {α : Type} (ask : MemoryStore → Except OperationError α) (s : MemoryStore) :
    (EntryCursor.attempt (do let _ ← query ask) s).2 = s := by
  show (EntryCursor.attempt (EStateM.bind (query ask) fun _ => pure ()) s).2 = s
  rw [EntryCursor.attempt, EStateM.bind, query]
  cases ask s <;> rfl

/-- A call that changes something leaves what the operation makes of the store, or fails
    and leaves the store as it was. -/
theorem request_eq_update (hop : op.isReading = false) :
    Backend.request op = update fun s => s.after op := by
  cases op with
  | compare _ _ _ | lookup _ _ | hasEntry _ | search _ _ _ _ => cases hop
  | add _ | delete _ | modify _ _ | rename _ _ _ | move _ _ | moveAndRename _ _ _ _ => rfl

/-- A call leaves what the operation makes of the store, or the store as it was. -/
theorem called_cases (s : MemoryStore) (op : Operation) :
    s.after op = .ok (s.called op) ∨ s.called op = s := by
  cases hop : op.isReading with
  | true =>
      refine Or.inr ?_
      cases op with
      | add _ | delete _ | modify _ _ | rename _ _ _ | move _ _ | moveAndRename _ _ _ _ => cases hop
      | compare _ _ _ | lookup _ _ | hasEntry _ | search _ _ _ _ => exact query_state _ s
  | false =>
      rw [called, request_eq_update hop, EntryCursor.attempt, update]
      cases s.after op with
      | ok s' => exact Or.inl rfl
      | error cause => exact Or.inr rfl

/-- A call that succeeds and changes something leaves what the operation makes of the store. -/
theorem after_of_request (hop : op.isReading = false) (h : Backend.request op s = .ok () s') :
    s.after op = .ok s' := by
  rw [request_eq_update hop, update] at h
  cases hstep : s.after op with
  | ok t =>
      rw [hstep] at h
      cases h
      rfl
  | error cause =>
      rw [hstep] at h
      cases h

/-- What a call leaves of a store that is built is built, also if it fails. -/
theorem Built.called (h : s.Built) (op : Operation) : (s.called op).Built := by
  rcases called_cases s op with hstep | hsame
  · exact h.after op hstep
  · rw [hsame]
    exact h

/-- What any number of calls leave of a store that is built is built. -/
theorem Built.calledAll (h : s.Built) (ops : List Operation) : (s.calledAll ops).Built := by
  induction ops generalizing s with
  | nil => exact h
  | cons op rest ih => exact ih (h.called op)

/-- No call changes the suffixes, whether it is carried out or refused. -/
theorem called_suffixes (s : MemoryStore) (op : Operation) :
    (s.called op).suffixes = s.suffixes := by
  rcases called_cases s op with hstep | hsame
  · exact after_suffixes hstep
  · rw [hsame]

/-- No number of calls changes the suffixes. -/
theorem calledAll_suffixes (s : MemoryStore) (ops : List Operation) :
    (s.calledAll ops).suffixes = s.suffixes := by
  induction ops generalizing s with
  | nil => rfl
  | cons op rest ih => exact (ih (s.called op)).trans (called_suffixes s op)

-- ── The root itself ──────────────────────────────────────────────────────────────

/-- Nothing gets to be stored under the root, if it is no suffix. -/
theorem after_root (hsuffix : s.isSuffix Dn.root = false)
    (hroot : s.entries.contains Dn.root = false) (hstep : s.after op = .ok s') :
    s'.entries.contains Dn.root = false := by
  rw [← Bool.not_eq_true] at hroot ⊢
  intro hthere
  cases op with
  | add entry =>
      obtain ⟨-, hplace, rfl⟩ := add_ok hstep
      rcases (NameMap.contains_insert ..).mp hthere with hkey | hthere
      · rw [Dn.eq_root_of_key hkey.symm] at hplace
        rcases hplace with hs | ⟨p, hp, -⟩
        · rw [hsuffix] at hs
          cases hs
        · cases hp
      · exact hroot hthere
  | delete dn =>
      obtain ⟨-, -, rfl⟩ := delete_ok hstep
      exact hroot ((NameMap.contains_erase ..).mp hthere).2
  | modify dn mods =>
      obtain ⟨e, he, -, rfl⟩ := modify_ok hstep
      rcases (NameMap.contains_insert ..).mp hthere with hkey | hthere
      · refine hroot ((OrdMap.contains_iff ..).mpr ⟨e, ?_⟩)
        rw [NameMap.get?_congr s.entries hkey]
        exact he
      · exact hroot hthere
  | rename _ _ _ | move _ _ | moveAndRename _ _ _ _ =>
      obtain ⟨new, hnew, hrelocate⟩ := after_relocation rfl hstep
      obtain ⟨l, -, hcarried⟩ := relocate_carries hrelocate
      obtain ⟨e, he⟩ := (OrdMap.contains_iff ..).mp hthere
      rw [hcarried] at he
      rcases carryAll_origin he with ⟨hold, -⟩ | ⟨d, -, r, hr, hkey, -⟩
      · exact hroot ((OrdMap.contains_iff ..).mpr ⟨e, hold⟩)
      · -- what has been taken along stands within the new name, which is not the root
        have hwithin : new.key <:+ Dn.root.key := by
          rw [← hkey]
          exact (Dn.isWithin_iff r new).mp (Dn.isWithin_new_of_rebase hr)
        have hnil : new.key = [] := List.suffix_nil.mp hwithin
        rw [← Dn.isRoot_iff, Operation.newDn_not_root hnew] at hnil
        cases hnil
  | compare _ _ _ | lookup _ _ | hasEntry _ | search _ _ _ _ =>
      cases hstep
      exact hroot hthere

/-- In a store that operations have built over suffixes of one component, the root itself is
    not stored. -/
theorem Built.root_free (h : s.Built) (hs : ∀ x ∈ s.suffixes, x.depth = 1) :
    s.entries.contains Dn.root = false := by
  induction h with
  | empty suffixes => rfl
  | after op _ hstep ih =>
      rw [after_suffixes hstep] at hs
      refine after_root ?_ (ih hs) hstep
      refine List.any_eq_false.mpr fun x hx hsame => ?_
      have hdepth := hs x hx
      rw [← Dn.length_key, (Dn.same_iff x Dn.root).mp hsame] at hdepth
      cases hdepth

-- ── Relocations lose nothing ─────────────────────────────────────────────────────

/-- In a rooted store a relocation leaves as many entries as there were. -/
theorem Rooted.length_relocate (h : s.Rooted) {dn new : Dn} {adjust : Entry → Entry}
    (hstep : s.relocate dn new adjust = .ok s') (hnew : new.isRoot = false) :
    s'.entries.entries.length = s.entries.entries.length := by
  have hclear : ClearWay dn new (s.entries.topFirst dn) s.entries :=
    (h.freeGround hstep hnew).clearWay (fun _ => NameMap.mem_topFirst)
      (s.entries.topFirst_distinct dn)
  have hrekeyed : Rekeyed (landed dn adjust) dn new s.entries s'.entries := by
    rw [relocate_topFirst hstep]
    exact (rekeyed_iff (fun _ => NameMap.mem_topFirst) (s.entries.topFirst_distinct dn)).mpr hclear
  have hlength := hrekeyed.length_eq
  rw [NameMap.content, List.length_map, List.length_map] at hlength
  exact hlength

/-- **THE STORE IS A TREE**: over suffixes of one component, after any calls from empty,
    whether they have succeeded or failed, every entry is called as the place where it is,
    and the name one component above is the root or is stored; and a relocation that then
    succeeds leaves as many entries as there were. -/
theorem calls_keep_tree {suffixes : List Dn} (hsuffixes : ∀ x ∈ suffixes, x.depth = 1)
    (ops : List Operation) :
    (∀ k e, (k, e) ∈ ((ofSuffixes suffixes).calledAll ops).entries.entries →
      k.same e.dn = true
        ∧ ∃ p, k.parent? = some p ∧ (p.isRoot = true
          ∨ ((ofSuffixes suffixes).calledAll ops).entries.contains p = true))
    ∧ ∀ op s', op.isRelocation = true →
      Backend.request op ((ofSuffixes suffixes).calledAll ops) = .ok () s' →
      s'.entries.entries.length
        = ((ofSuffixes suffixes).calledAll ops).entries.entries.length := by
  have hbuilt : ((ofSuffixes suffixes).calledAll ops).Built :=
    (Built.empty suffixes).calledAll ops
  have hkept : ∀ x ∈ ((ofSuffixes suffixes).calledAll ops).suffixes, x.depth = 1 := by
    rw [calledAll_suffixes]
    exact hsuffixes
  have hrooted := hbuilt.rooted fun x hx => Nat.le_of_eq (hkept x hx)
  refine ⟨fun k e hk => ⟨?_, ?_⟩, fun op s' hop h => ?_⟩
  · rw [Dn.same_iff]
    exact (hbuilt.named k e (OrdMap.get?_of_mem _ hk)).symm
  · have hthere := NameMap.contains_of_mem hk
    cases hp : k.parent? with
    | some p => exact ⟨p, rfl, hrooted.placed k hthere p hp⟩
    | none =>
        have hempty : k = Dn.root := Dn.eq_root_of_parent hp
        rw [hempty, hbuilt.root_free hkept] at hthere
        cases hthere
  · have hreading : op.isReading = false := Operation.isReading_of_isRelocation hop
    obtain ⟨new, hnew, hrelocate⟩ := after_relocation hop (after_of_request hreading h)
    exact hrooted.length_relocate hrelocate (Operation.newDn_not_root hnew)

-- ── A small tree ─────────────────────────────────────────────────────────────────

/-- The name of an organization. -/
def organizationName : Dn := ⟨[⟨"o", "org", by decide, by decide, by decide, by decide⟩]⟩

/-- A component for what is below it. -/
def branchRdn : Rdn := ⟨"l", "south", by decide, by decide, by decide, by decide⟩

/-- What that may be called instead. -/
def renamedRdn : Rdn := ⟨"l", "north", by decide, by decide, by decide, by decide⟩

/-- The name of a branch. -/
def branchName : Dn := organizationName.child branchRdn

/-- Additions of an organization, of a branch and of a branch of it; the second comes too
    early and fails, and is called again. -/
def branchCalls : List Operation :=
  [.add (Entry.named organizationName), .add (Entry.named (branchName.child branchRdn)),
    .add (Entry.named branchName), .add (Entry.named (branchName.child branchRdn))]

/-- The store after these calls. -/
def branchStore : MemoryStore := (ofSuffixes [organizationName]).calledAll branchCalls

/-- Renaming the outer branch takes the inner one along: there are three entries before and
    after. -/
theorem branches_keep_tree :
    (∃ p, branchName.parent? = some p
        ∧ (p.isRoot = true ∨ branchStore.entries.contains p = true))
      ∧ ∃ s', Backend.request (.rename branchName renamedRdn true) branchStore = .ok () s'
        ∧ s'.entries.entries.length = 3 := by
  have hsuffixes : ∀ x ∈ [organizationName], x.depth = 1 := by decide
  obtain ⟨hplaced, hlength⟩ := calls_keep_tree hsuffixes branchCalls
  have hstored : (branchName, Entry.named branchName) ∈ branchStore.entries.entries :=
    List.mem_of_getElem? (i := 1) (by rfl)
  obtain ⟨-, hparent⟩ := hplaced _ _ hstored
  have hok : Backend.request (.rename branchName renamedRdn true) branchStore
      = .ok () (branchStore.called (.rename branchName renamedRdn true)) := by rfl
  have hcount : branchStore.entries.entries.length = 3 := by rfl
  exact ⟨hparent, _, hok, (hlength _ _ rfl hok).trans hcount⟩

end

end MemoryStore

end DirectoryAccess
