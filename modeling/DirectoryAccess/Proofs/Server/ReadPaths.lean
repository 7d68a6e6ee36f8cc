import DirectoryAccess.Proofs.Authorization.ProtectedAreas
import DirectoryAccess.Proofs.Server.Reading

/-! # Read paths — searching, looking up and asking agree

    Whatever a search shows of the directory is the REDUCED FORM of one stored entry, no
    entry is shown twice, a lookup of the same name shows nothing else, and whoever is
    shown an entry is also told that it is there.  Asking for some attributes only
    projects what asking for all of them shows. -/

namespace DirectoryAccess

/-- An answer with every entry in it projected onto named attributes. -/
def Answer.select (names : List String) : Answer → Answer
  | .entry e => .entry (e.select (some names))
  | .entries es => .entries (es.map fun e => e.select (some names))
  | answer => answer

namespace World

variable {w : World MemoryStore} {config : Configuration} {session : Session}

-- ── What is shown of an entry ────────────────────────────────────────────────────

theorem revealed_dn (e : Entry) : (w.revealed config session e).dn = e.dn := by
  rw [revealed]
  split <;> rfl

theorem select_dn (e : Entry) (attrs : Option (List String)) : (e.select attrs).dn = e.dn := by
  cases attrs <;> rfl

/-- Who is permitted some operations on an entry is permitted each of them. -/
theorem permits_of_mem {operations : List MicroOperation} {op : MicroOperation}
    (hop : op ∈ operations) {e : Entry} (h : w.permits config session operations e = true) :
    w.permits config session [op] e = true := by
  rw [permits, Bool.or_eq_true] at h ⊢
  refine h.imp_right fun hall => ?_
  have hgrants := List.all_eq_true.mp hall op hop
  rw [AccessCheck.hasPermission]
  show (_ && true) = true
  rw [Bool.and_true]
  exact hgrants

/-- What a search shows of an entry is what may be read of it, projected onto what was
    asked for, and whoever is shown it may browse it. -/
theorem shows_eq_some {attrs : Option (List String)} {e r : Entry}
    (h : w.shows config session attrs e = some r) :
    r = (w.revealed config session e).select attrs ∧ r.dn = e.dn
      ∧ w.permits config session [.browse] e = true := by
  rw [shows] at h
  split at h
  · cases h
  · split at h
    · next hpermitted =>
      cases h
      exact ⟨rfl, (select_dn _ _).trans (revealed_dn e),
        permits_of_mem (List.mem_cons_self ..) hpermitted⟩
    · cases h

/-- What a lookup shows of a name is what may be read of the entry stored under it, and
    whoever is shown it may browse it. -/
theorem lookedUp_eq_ok {dn : Dn} {attrs : Option (List String)} {r : Entry}
    (h : w.lookedUp config session dn attrs = .ok r) :
    ∃ e, w.store.lookup dn = some e ∧ r = (w.revealed config session e).select attrs
      ∧ w.permits config session [.browse] e = true := by
  rw [lookedUp, MemoryStore.required] at h
  split at h
  · cases h
  · cases he : w.store.lookup dn with
    | none =>
        rw [he] at h
        cases h
    | some e =>
        rw [he] at h
        have h : (if w.permits config session AciStage.lookupOperations e then _ else _)
          = Except.ok r := h
        split at h
        · next hpermitted =>
          cases h
          exact ⟨e, rfl, rfl, permits_of_mem (List.mem_cons_of_mem _ (List.mem_cons_self ..))
            hpermitted⟩
        · cases h

/-- Who may browse the entry of a name is told that it is there. -/
theorem present_of_permits {dn : Dn} {e : Entry} (he : w.store.lookup dn = some e)
    (h : w.permits config session [.browse] e = true) : w.present config session dn = true := by
  rw [present, he, Bool.or_eq_true]
  exact Or.inr h

-- ── What a search shows ──────────────────────────────────────────────────────────

section

variable {base : Dn} {scope : SearchScope} {filter : Filter} {attrs : Option (List String)}
  {shown : List Entry} (hnamed : w.store.Named)
  (h : w.searchedFor config session base scope filter attrs = .ok shown)

include h

omit h in
/-- A search that succeeds shows what it shows of each entry that it finds. -/
theorem searchedFor_eq_ok (h : w.searchedFor config session base scope filter attrs = .ok shown) :
    shown = (MemoryStore.found base scope filter w.store.entries.entries).filterMap
      (w.shows config session attrs) := by
  rw [searchedFor] at h
  split at h
  · cases h
  · exact (Except.ok.inj h).symm

include hnamed

/-- What is shown has been made of an entry that is stored under its own name, in the
    scope of the search, and meets its filter. -/
theorem exists_of_shown {r : Entry} (hr : r ∈ shown) :
    ∃ e, w.store.lookup e.dn = some e ∧ scope.selects base e.dn = true
      ∧ filter.isMetBy e = true ∧ w.shows config session attrs e = some r := by
  rw [searchedFor_eq_ok h] at hr
  obtain ⟨e, he, hshows⟩ := List.mem_filterMap.mp hr
  obtain ⟨he, hmet⟩ := List.mem_filter.mp he
  obtain ⟨⟨k, e⟩, hk, rfl⟩ := List.mem_map.mp he
  obtain ⟨hk, hselected⟩ := List.mem_filter.mp hk
  have hlookup : w.store.lookup k = some e := w.store.entries.get?_of_mem hk
  have hkey : e.dn.key = k.key := hnamed k e hlookup
  refine ⟨e, (MemoryStore.lookup_congr hkey).trans hlookup, ?_, hmet, hshows⟩
  rw [SearchScope.selects_congr hkey]
  exact hselected

/-- What is shown is shown under one name each. -/
theorem distinct_of_shown : shown.Pairwise fun r r' => r.dn.key ≠ r'.dn.key := by
  rw [searchedFor_eq_ok h]
  have hkey : ∀ d ∈ w.store.entries.entries, d.2.dn.key = d.1.key := fun d hd =>
    hnamed d.1 d.2 (w.store.entries.get?_of_mem hd)
  have hstored : w.store.entries.entries.Pairwise fun d d' => d.2.dn.key ≠ d'.2.dn.key := by
    refine (NameMap.distinct w.store.entries).imp_of_mem fun hd hd' hne => ?_
    rw [hkey _ hd, hkey _ hd']
    exact hne
  have hfound : (MemoryStore.found base scope filter w.store.entries.entries).Pairwise
      fun e e' => e.dn.key ≠ e'.dn.key :=
    List.Pairwise.filter _ (List.pairwise_map.mpr (hstored.filter _))
  refine hfound.filterMap _ fun e e' hne r hr r' hr' => ?_
  rw [(shows_eq_some hr).2.1, (shows_eq_some hr').2.1]
  exact hne

end

/-- Asking for some attributes selects them from what is shown. -/
theorem searchedFor_select (base : Dn) (scope : SearchScope) (filter : Filter)
    (names : List String) :
    w.searchedFor config session base scope filter (some names)
      = (w.searchedFor config session base scope filter none).map fun es =>
          es.map fun e => e.select (some names) := by
  rw [searchedFor, searchedFor]
  split
  · rfl
  · refine congrArg Except.ok ?_
    dsimp only
    rw [List.map_filterMap]
    exact congrArg (List.filterMap · _) (funext fun e => Server.shows_select (some names) e)

end World

namespace Server

/-- **THE READ PATHS AGREE**: with either policy and for every session, what a search shows
    are reduced forms of stored entries in its scope that meet its filter, each of exactly
    one and none of them twice; the session is told that these entries are there, and a
    lookup that it may make for the same attributes shows the same.  Whatever a lookup
    shows is said to be there, and who asks for some attributes is shown what asking for
    all shows, in the same order and projected onto these. -/
theorem read_paths_agree {config : Configuration} {server : Server MemoryStore}
    (hreach : Reachable config server) (session : Session) :
    (∀ base scope filter attrs shown,
      (server.step session (.search base scope filter attrs)).1 = .ok (.entries shown) →
        (shown.Pairwise fun r r' => r.dn.key ≠ r'.dn.key)
        ∧ ∀ r ∈ shown,
          (∃! e, server.world.store.lookup e.dn = some e ∧ scope.selects base e.dn = true
            ∧ filter.isMetBy e = true
            ∧ r = (server.world.revealed config session e).select attrs)
          ∧ (server.step session (.hasEntry r.dn)).1 = .ok (.truth true)
          ∧ ∀ dn r', dn.key = r.dn.key →
              (server.step session (.lookup dn attrs)).1 = .ok (.entry r') → r' = r)
    ∧ (∀ dn attrs r, (server.step session (.lookup dn attrs)).1 = .ok (.entry r) →
        (server.step session (.hasEntry dn)).1 = .ok (.truth true))
    ∧ (∀ base scope filter names,
        (server.step session (.search base scope filter (some names))).1
          = (server.step session (.search base scope filter none)).1.map (Answer.select names))
    ∧ ∀ dn names,
        (server.step session (.lookup dn (some names))).1
          = (server.step session (.lookup dn none)).1.map (Answer.select names) := by
  have hstandard := hreach.standard
  have hnamed := hreach.built.named
  have hlookup : ∀ {dn attrs r},
      (server.step session (.lookup dn attrs)).1 = .ok (.entry r) →
        server.world.lookedUp config session dn attrs = .ok r := by
    intro dn attrs r h
    rw [step_lookup hstandard] at h
    exact eq_of_map_eq (y := .ok r) (fun _ _ => Answer.entry.inj) h
  have hsearch : ∀ {base scope filter attrs shown},
      (server.step session (.search base scope filter attrs)).1 = .ok (.entries shown) →
        server.world.searchedFor config session base scope filter attrs = .ok shown := by
    intro base scope filter attrs shown h
    rw [step_search hstandard] at h
    exact eq_of_map_eq (y := .ok shown) (fun _ _ => Answer.entries.inj) h
  refine ⟨fun base scope filter attrs shown h => ⟨World.distinct_of_shown hnamed (hsearch h),
    fun r hr => ?_⟩, fun dn attrs r h => ?_, fun base scope filter names => ?_,
    fun dn names => ?_⟩
  · obtain ⟨e, he, hselected, hmet, hshows⟩ := World.exists_of_shown hnamed (hsearch h) hr
    obtain ⟨hreduced, hdn, hbrowse⟩ := World.shows_eq_some hshows
    refine ⟨⟨e, ⟨he, hselected, hmet, hreduced⟩, ?_⟩, ?_, ?_⟩
    · rintro e' ⟨he', -, -, hreduced'⟩
      have hdn' : r.dn = e'.dn := by
        rw [hreduced', World.select_dn, World.revealed_dn]
      rw [← hdn', hdn, he] at he'
      exact (Option.some.inj he').symm
    · rw [step_hasEntry hstandard, hdn, World.present_of_permits he hbrowse]
    · intro dn r' hkey h'
      obtain ⟨e', he', hreduced', -⟩ := World.lookedUp_eq_ok (hlookup h')
      rw [MemoryStore.lookup_congr hkey, hdn, he] at he'
      cases he'
      rw [hreduced', hreduced]
  · obtain ⟨e, he, -, hbrowse⟩ := World.lookedUp_eq_ok (hlookup h)
    rw [step_hasEntry hstandard, World.present_of_permits he hbrowse]
  · rw [step_search hstandard, step_search hstandard, World.searchedFor_select]
    cases server.world.searchedFor config session base scope filter none <;> rfl
  · rw [step_lookup hstandard, step_lookup hstandard, lookedUp_select]
    cases server.world.lookedUp config session dn none <;> rfl

/-- Of a small directory the user is shown their own entry and the base of the users, but
    not the top.  They are told that their own entry is there, and looking it up shows the
    same. -/
theorem user_reads_own_entry :
    let session := Session.of (Principal.named userName .simple)
    (smallServer.step session (.search topName .subtree Filter.all none)).1
        = .ok (.entries [Entry.named userName, Entry.named usersName])
      ∧ (smallServer.step session (.hasEntry userName)).1 = .ok (.truth true)
      ∧ ∀ r, (smallServer.step session (.lookup userName none)).1 = .ok (.entry r) →
          r = Entry.named userName := by
  intro session
  have hshown : (smallServer.step session (.search topName .subtree Filter.all none)).1
      = .ok (.entries [Entry.named userName, Entry.named usersName]) := by
    decide +kernel
  obtain ⟨hsearch, -⟩ := read_paths_agree
    ((Reachable.start (.empty [topName]) (start_fresh _ _)).run _) session
  obtain ⟨-, hthere, hlookup⟩ := (hsearch topName .subtree Filter.all none _ hshown).2
    (Entry.named userName) (by decide)
  exact ⟨hshown, hthere, fun r hr => hlookup userName r rfl hr⟩

end Server

end DirectoryAccess
