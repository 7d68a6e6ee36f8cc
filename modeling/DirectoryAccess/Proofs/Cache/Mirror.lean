import DirectoryAccess.Proofs.Cache.Loading

/-! # Mirrors — caches of what a store shows

    Both caches keep something that is read off entries: the members of a group, the
    tuples of a subentry.  A store SHOWS what can be read off its entries under names
    that are reached, and a cache mirrors the store if it holds just that.  Whether it
    still does so after a change is decided where the change was made, and by who is
    reached elsewhere. -/

namespace DirectoryAccess

namespace MemoryStore

section

variable {α : Type} (R : Entry → α → Prop)

/-- Something can be read off the entry of a name that is reached. -/
def Shows (s : MemoryStore) (x : Dn) (a : α) : Prop :=
  s.Reaches x ∧ ∃ e, s.lookup x = some e ∧ R e a

/-- Names that are not touched, and show something, are reached afterwards as before. -/
def KeepsReach (s s' : MemoryStore) (touched : Dn → Bool) : Prop :=
  ∀ x e a, touched x = false → s.lookup x = some e → R e a → (s.Reaches x ↔ s'.Reaches x)

/-- A relocation keeps what is shown: names outside the old one are reached as before,
    and every entry that is carried shows where it lands what it has shown. -/
def KeepsShown (s s' : MemoryStore) (dn new : Dn) (adjust : Entry → Entry) : Prop :=
  s.KeepsReach R s' (fun x => x.isWithin dn)
    ∧ ∀ k e r, (k, e) ∈ s.entries.entries → k.rebase? dn new = some r →
      ∀ a, (s.Reaches k ∧ R e a) ↔ (s'.Reaches r ∧ R (landed dn adjust k r e) a)

/-- What a relocation leaves a store to show under a name that is reached afterwards.  The
    old name itself goes first, and the names below it follow in their order. -/
def ShowsLeft (s s' : MemoryStore) (dn new : Dn) (adjust : Entry → Entry) (x : Dn) (a : α) :
    Prop :=
  s'.Reaches x
    ∧ s.entries.Leaves dn new dn.Before (fun x a => ∃ e, s.lookup x = some e ∧ R e a)
        (fun k r a => ∃ e, (k, e) ∈ s.entries.entries ∧ R (landed dn adjust k r e) a) x a

/-- A relocation has names in the way lose ALIKE, in the store and in a cache that takes the
    names that it holds along in their turns: every name is left to tell the same by both. -/
def LosesAlike {β : Type} (s s' : MemoryStore) (held : NameMap β) (before : Dn → Dn → Prop)
    (dn new : Dn) (adjust : Entry → Entry) : Prop :=
  ∀ x a, held.Leaves dn new before (s.Shows R) (fun k _ => s.Shows R k) x a
    ↔ s.ShowsLeft R s' dn new adjust x a

variable {R} {s s' : MemoryStore}

/-- An entry shows what can be read off it, if it is reached. -/
theorem shows_of_lookup {x : Dn} {e : Entry} (h : s.lookup x = some e) (a : α) :
    s.Shows R x a ↔ s.Reaches x ∧ R e a := by
  constructor
  · rintro ⟨hreach, e', he', ha⟩
    rw [h] at he'
    cases he'
    exact ⟨hreach, ha⟩
  · rintro ⟨hreach, ha⟩
    exact ⟨hreach, e, h, ha⟩

theorem not_shows_of_lookup {x : Dn} (h : s.lookup x = none) (a : α) : ¬s.Shows R x a := by
  rintro ⟨-, e, he, -⟩
  rw [h] at he
  cases he

/-- What is shown under a name is shown under every spelling of it. -/
theorem shows_congr (s : MemoryStore) {x y : Dn} (h : x.key = y.key) (a : α) :
    s.Shows R x a ↔ s.Shows R y a := by
  have hlookup : s.lookup x = s.lookup y := NameMap.get?_congr s.entries h
  rw [Shows, Shows, reaches_congr s h, hlookup]

/-- Two entries found under one name are one entry. -/
theorem Named.eq_of_found (h : s.Named) {filter : Filter} {e e' : Entry}
    (he : e ∈ s.suffixes.flatMap (s.foundBelow filter))
    (he' : e' ∈ s.suffixes.flatMap (s.foundBelow filter)) (hkey : e.dn.key = e'.dn.key) :
    e = e' := by
  obtain ⟨⟨k, hk, -⟩, -⟩ := mem_found.mp he
  obtain ⟨⟨k', hk', -⟩, -⟩ := mem_found.mp he'
  have hname := h k e (OrdMap.get?_of_mem s.entries hk)
  have hname' := h k' e' (OrdMap.get?_of_mem s.entries hk')
  have hsame : k.key = k'.key := hname.symm.trans (hkey.trans hname')
  exact congrArg Prod.snd (NameMap.eq_of_key s.entries hk hk' hsame)

/-- What a store shows is read off the entries that a search below every suffix finds, if
    the search is for everything that it can be read off. -/
theorem Named.shows_iff_found (h : s.Named) {filter : Filter}
    (hmet : ∀ e a, R e a → filter.isMetBy e = true) (x : Dn) (a : α) :
    s.Shows R x a
      ↔ ∃ e ∈ s.suffixes.flatMap (s.foundBelow filter), x.key = e.dn.key ∧ R e a := by
  have hname : ∀ {k e}, (k, e) ∈ s.entries.entries → e.dn.key = k.key :=
    fun {k e} hk => h k e (OrdMap.get?_of_mem s.entries hk)
  constructor
  · rintro ⟨hreach, e, he, ha⟩
    obtain ⟨k, hk, hkey⟩ := NameMap.mem_of_get? s.entries he
    refine ⟨e, mem_found.mpr ⟨⟨k, hk, (s.reaches_congr hkey).mpr hreach⟩, hmet e a ha⟩, ?_, ha⟩
    rw [hname hk, hkey]
  · rintro ⟨e, he, hx, ha⟩
    obtain ⟨⟨k, hk, hreach⟩, -⟩ := mem_found.mp he
    rw [s.shows_congr (hx.trans (hname hk))]
    exact ⟨hreach, e, OrdMap.get?_of_mem s.entries hk, ha⟩

/-- A name that is not touched shows what it has shown, if it is reached as before. -/
theorem KeepsReach.shows_iff {touched : Dn → Bool} (h : s.KeepsReach R s' touched) {x : Dn}
    (hx : touched x = false) (hlookup : s'.lookup x = s.lookup x) (a : α) :
    s'.Shows R x a ↔ s.Shows R x a := by
  cases he : s.lookup x with
  | none =>
      rw [he] at hlookup
      exact iff_of_false (not_shows_of_lookup hlookup a) (not_shows_of_lookup he a)
  | some e =>
      rw [he] at hlookup
      rw [shows_of_lookup he, shows_of_lookup hlookup]
      exact and_congr_left fun ha => (h x e a hx he ha).symm

/-- The other way round, names whose entries are stored and shown as before have been
    reached as before. -/
theorem keepsReach_of_shows {touched : Dn → Bool}
    (h : ∀ x e, touched x = false → s.lookup x = some e →
      s'.lookup x = some e ∧ ∀ a, s.Shows R x a ↔ s'.Shows R x a) : s.KeepsReach R s' touched := by
  intro x e a hx he ha
  obtain ⟨he', hshows⟩ := h x e hx he
  have hshows := hshows a
  rw [shows_of_lookup he, shows_of_lookup he', and_iff_left ha, and_iff_left ha] at hshows
  exact hshows

/-- Putting another entry in the place of a stored one changes nothing about what is
    reached. -/
theorem reaches_insert {s : MemoryStore} {dn : Dn} (h : s.entries.contains dn = true)
    (e : Entry) (x : Dn) : Reaches { s with entries := s.entries.insert dn e } x ↔ s.Reaches x := by
  have hthere : ∀ x, (s.entries.insert dn e).contains x = true ↔ s.entries.contains x = true := by
    intro x
    rw [NameMap.contains_insert]
    refine or_iff_right_of_imp fun hx => ?_
    rw [NameMap.contains_congr s.entries hx]
    exact h
  constructor
  · intro hr
    refine hr.mono ?_ fun x hx => ?_
    · rfl
    · exact (hthere x).mp hx
  · intro hr
    refine hr.mono ?_ fun x hx => ?_
    · rfl
    · exact (hthere x).mpr hx

/-- What modifications that succeed leave: the last of the projections, reached as
    before. -/
theorem modified {dn : Dn} {mods : List Modification} {e : Entry} (he : s.lookup dn = some e)
    (hstep : s.modify dn mods = .ok s') :
    s'.lookup dn = some (mods.foldl Entry.project e) ∧ ∀ x, s'.Reaches x ↔ s.Reaches x := by
  obtain ⟨e', he', -, rfl⟩ := modify_ok hstep
  cases Option.some.inj (he.symm.trans he')
  exact ⟨(NameMap.get?_insert ..).trans (if_pos rfl),
    reaches_insert ((OrdMap.contains_iff ..).mpr ⟨e, he⟩) _⟩

end

end MemoryStore

section

variable {α : Type} {R : Entry → α → Prop} {C C' : Dn → α → Prop} {s s' : MemoryStore}

variable (R C s) in
/-- A cache, told by what it holds under each name, mirrors a store. -/
def Mirrors : Prop := ∀ x a, C x a ↔ s.Shows R x a

namespace Mirrors

theorem congr (h : Mirrors R C s) {x y : Dn} (hkey : x.key = y.key) (a : α) :
    C x a ↔ C y a := by
  rw [h, h, s.shows_congr hkey]

-- ── Changing one entry ───────────────────────────────────────────────────────────

/-- Where cache and store change under one name only, the cache mirrors the store
    afterwards if everything else is reached as before, and if it does so under that
    name. -/
theorem change_iff (h : Mirrors R C s) {op : Operation} (hstep : s.after op = .ok s')
    (hop : op.isRelocation = false)
    (hcache : ∀ x a, x.key ≠ op.target.key → (C' x a ↔ C x a))
    (hkey : ∀ x a, x.key = op.target.key → (C' x a ↔ C' op.target a)) :
    Mirrors R C' s' ↔ s.KeepsReach R s' (fun x => x.same op.target)
      ∧ ∀ a, C' op.target a ↔ s'.Shows R op.target a := by
  have hne : ∀ {x : Dn}, x.same op.target = false → x.key ≠ op.target.key := by
    intro x hx
    rwa [← Bool.not_eq_true, Dn.same_iff] at hx
  have hstore : ∀ {x : Dn}, x.key ≠ op.target.key → s'.lookup x = s.lookup x :=
    MemoryStore.lookup_after hstep hop
  constructor
  · intro hmirrors
    refine ⟨MemoryStore.keepsReach_of_shows fun x e hx he => ?_, hmirrors op.target⟩
    refine ⟨(hstore (hne hx)).trans he, fun a => ?_⟩
    rw [← hmirrors, hcache x a (hne hx), h x a]
  · rintro ⟨hkept, hself⟩ x a
    cases hx : x.same op.target with
    | true =>
        have hx := (Dn.same_iff x op.target).mp hx
        rw [hkey x a hx, hself, s'.shows_congr hx]
    | false =>
        rw [hcache x a (hne hx), h x a]
        exact (hkept.shows_iff hx (hstore (hne hx)) a).symm

variable {Q : α → Prop}

/-- After an addition, of which the cache takes in some things. -/
theorem add_iff (h : Mirrors R C s) {entry : Entry} (hstep : s.add entry = .ok s')
    (hcache : ∀ x a, C' x a ↔ (x.key = entry.dn.key ∧ Q a) ∨ C x a) :
    Mirrors R C' s' ↔ s.KeepsReach R s' (fun x => x.same entry.dn)
      ∧ ∀ a, Q a ↔ s'.Reaches entry.dn ∧ R entry a := by
  obtain ⟨hfree, -, hs'⟩ := MemoryStore.add_ok hstep
  have hfree : s.lookup entry.dn = none := (OrdMap.contains_eq_false_iff ..).mp hfree
  have hnone : ∀ a, ¬C entry.dn a :=
    fun a ha => MemoryStore.not_shows_of_lookup hfree a ((h entry.dn a).mp ha)
  have hself : s'.lookup entry.dn = some entry := by
    rw [hs']
    exact (NameMap.get?_insert ..).trans (if_pos rfl)
  have htarget : ∀ a, C' entry.dn a ↔ Q a := by
    intro a
    rw [hcache, or_iff_left (hnone a), and_iff_right rfl]
  have hchange := h.change_iff (show s.after (.add entry) = .ok s' from hstep) rfl
    (fun x a hx => (hcache x a).trans (or_iff_right fun hn => hx hn.1))
    fun x a hx => by rw [hcache, hcache, h.congr hx, hx]
  refine hchange.trans (and_congr_right' (forall_congr' fun a => iff_congr (htarget a) ?_))
  exact MemoryStore.shows_of_lookup hself a

/-- After a deletion, with which the cache forgets the entry. -/
theorem delete_iff (h : Mirrors R C s) {dn : Dn} (hstep : s.delete dn = .ok s')
    (hcache : ∀ x a, C' x a ↔ x.key ≠ dn.key ∧ C x a) :
    Mirrors R C' s' ↔ s.KeepsReach R s' fun x => x.same dn := by
  obtain ⟨-, -, hs'⟩ := MemoryStore.delete_ok hstep
  have hgone : s'.lookup dn = none := by
    rw [hs']
    exact (NameMap.get?_erase ..).trans (if_pos rfl)
  have hnone : ∀ a, ¬C' dn a := fun a ha => ((hcache dn a).mp ha).1 rfl
  have hchange := h.change_iff (show s.after (.delete dn) = .ok s' from hstep) rfl
    (fun x a hx => (hcache x a).trans (and_iff_right hx))
    fun x a hx => iff_of_false (fun ha => ((hcache x a).mp ha).1 hx) (hnone a)
  refine hchange.trans (and_iff_left fun a => ?_)
  exact iff_of_false (hnone a) (MemoryStore.not_shows_of_lookup hgone a)

/-- After modifications, of which the cache keeps some things about the entry. -/
theorem modify_iff (h : Mirrors R C s) {dn : Dn} {mods : List Modification} {e : Entry}
    (he : s.lookup dn = some e) (hstep : s.modify dn mods = .ok s')
    (hcache : ∀ x a, C' x a ↔ if x.key = dn.key then Q a else C x a) :
    Mirrors R C' s' ↔ ∀ a, Q a ↔ s.Reaches dn ∧ R (mods.foldl Entry.project e) a := by
  obtain ⟨hself, hreach⟩ := MemoryStore.modified he hstep
  have htarget : ∀ {x : Dn} a, x.key = dn.key → (C' x a ↔ Q a) := by
    intro x a hx
    rw [hcache, if_pos hx]
  have hchange := h.change_iff (show s.after (.modify dn mods) = .ok s' from hstep) rfl
    (fun x a hx => (hcache x a).trans (iff_of_eq (if_neg hx)))
    fun x a hx => (htarget a hx).trans (htarget a rfl).symm
  have hkept : s.KeepsReach R s' fun x => x.same dn := fun x _ _ _ _ _ => (hreach x).symm
  refine hchange.trans ((and_iff_right hkept).trans (forall_congr' fun a => ?_))
  rw [← hreach]
  exact iff_congr (htarget a rfl) (MemoryStore.shows_of_lookup hself a)

-- ── Relocating ───────────────────────────────────────────────────────────────────

section

variable {dn new : Dn} {adjust : Entry → Entry}

variable (C C' dn new) in
/-- A cache holds outside the old name what it has held there, and what it has held within
    the old name where that is carried. -/
def Carried : Prop :=
  ∀ x a, C' x a ↔ (x.isWithin dn = false ∧ C x a)
    ∨ ∃ k r, k.rebase? dn new = some r ∧ r.key = x.key ∧ C k a

/-- Where an entry has landed, the cache holds what it has held where it came from. -/
theorem carried_lands (h : Mirrors R C s) (hcache : Carried C C' dn new)
    (hclear : ClearWay dn new (s.entries.topFirst dn) s.entries) {k r : Dn} {e : Entry}
    (hk : s.lookup k = some e) (hr : k.rebase? dn new = some r) (a : α) : C' r a ↔ C k a := by
  rw [hcache]
  constructor
  · rintro (⟨hout, ha⟩ | ⟨k', r', hr', hkey, ha⟩)
    · obtain ⟨-, e', he', -⟩ := (h r a).mp ha
      exact absurd rfl (hclear.lands_apart hk hr he' hout)
    · exact (h.congr (Dn.key_of_rebase hr' hr hkey) a).mp ha
  · exact fun ha => Or.inr ⟨k, r, hr, rfl, ha⟩

/-- Where an entry has stayed, the cache holds what it has held. -/
theorem carried_stays (h : Mirrors R C s) (hcache : Carried C C' dn new)
    (hclear : ClearWay dn new (s.entries.topFirst dn) s.entries) {x : Dn} {e : Entry}
    (hx : s.lookup x = some e) (hout : x.isWithin dn = false) (a : α) : C' x a ↔ C x a := by
  rw [hcache, and_iff_right hout]
  refine or_iff_left ?_
  rintro ⟨k, r, hr, hkey, ha⟩
  obtain ⟨-, e', he', -⟩ := (h k a).mp ha
  exact hclear.lands_apart he' hr hx hout hkey

/-- Where cache and store are carried along a clear way, the cache mirrors the store
    afterwards if the relocation keeps what is shown. -/
theorem relocation_iff (h : Mirrors R C s) (hcache : Carried C C' dn new)
    (hclear : ClearWay dn new (s.entries.topFirst dn) s.entries)
    (hstep : s.relocate dn new adjust = .ok s') :
    Mirrors R C' s' ↔ s.KeepsShown R s' dn new adjust := by
  have hstays : ∀ {x e}, x.isWithin dn = false → s.lookup x = some e → s'.lookup x = some e :=
    fun hout he => (MemoryStore.lookup_relocate_iff hstep hclear).mpr (Or.inl ⟨hout, he⟩)
  have hlanded : ∀ k e r, (k, e) ∈ s.entries.entries → k.rebase? dn new = some r →
      s'.lookup r = some (MemoryStore.landed dn adjust k r e) := fun k e r hk hr =>
    (MemoryStore.lookup_relocate_iff hstep hclear).mpr (Or.inr ⟨k, e, r, hk, hr, rfl, rfl⟩)
  constructor
  · intro hmirrors
    constructor
    · refine MemoryStore.keepsReach_of_shows fun x e hx he => ?_
      refine ⟨hstays hx he, fun a => ?_⟩
      rw [← hmirrors, h.carried_stays hcache hclear he hx, h x a]
    · intro k e r hk hr a
      have he : s.lookup k = some e := OrdMap.get?_of_mem s.entries hk
      rw [← MemoryStore.shows_of_lookup he, ← MemoryStore.shows_of_lookup (hlanded k e r hk hr),
        ← h k a, ← hmirrors, h.carried_lands hcache hclear he hr]
  · rintro ⟨hkept, hshown⟩ x a
    by_cases hland : ∃ k e r, (k, e) ∈ s.entries.entries ∧ k.rebase? dn new = some r
        ∧ r.key = x.key
    · obtain ⟨k, e, r, hk, hr, hkey⟩ := hland
      have he : s.lookup k = some e := OrdMap.get?_of_mem s.entries hk
      have hsame : C' x a ↔ C' r a := by
        rw [hcache, hcache, Dn.isWithin_congr hkey, hkey, h.congr hkey]
      rw [hsame, h.carried_lands hcache hclear he hr, h k a, ← s'.shows_congr hkey,
        MemoryStore.shows_of_lookup he, MemoryStore.shows_of_lookup (hlanded k e r hk hr)]
      exact hshown k e r hk hr a
    · -- nothing has landed on the name, in the store or in the cache
      have hnone : ∀ {v}, s'.lookup x = some v → x.isWithin dn = false ∧ s.lookup x = some v := by
        intro v hv
        refine ((MemoryStore.lookup_relocate_iff hstep hclear).mp hv).resolve_right ?_
        rintro ⟨k, e, r, hk, hr, hkey, -⟩
        exact hland ⟨k, e, r, hk, hr, hkey⟩
      have hfrom : C' x a → x.isWithin dn = false ∧ C x a := by
        intro ha
        refine ((hcache x a).mp ha).resolve_right ?_
        rintro ⟨k, r, hr, hkey, ha⟩
        obtain ⟨-, e, he, -⟩ := (h k a).mp ha
        obtain ⟨k', hk', hkey'⟩ := NameMap.mem_of_get? s.entries he
        obtain ⟨r', hr', hrkey⟩ := Dn.rebase_congr hkey'.symm hr
        exact hland ⟨k', e, r', hk', hr', hrkey.trans hkey⟩
      have hkeeps : ∀ {e}, x.isWithin dn = false → s.lookup x = some e →
          (s'.Shows R x a ↔ s.Shows R x a) := fun hout he =>
        hkept.shows_iff hout ((hstays hout he).trans he.symm) a
      constructor
      · intro ha
        obtain ⟨hout, ha⟩ := hfrom ha
        obtain ⟨hreach, e, he, hread⟩ := (h x a).mp ha
        exact (hkeeps hout he).mpr ⟨hreach, e, he, hread⟩
      · rintro ⟨hreach, e, he, hread⟩
        obtain ⟨hout, hbefore⟩ := hnone he
        rw [h.carried_stays hcache hclear hbefore hout, h x a]
        exact (hkeeps hout hbefore).mp ⟨hreach, e, he, hread⟩

/-- Wherever cache and store are carried, the cache mirrors the store afterwards if names in
    the way lose alike. -/
theorem loses_iff {β : Type} {held : NameMap β} {before : Dn → Dn → Prop} (h : Mirrors R C s)
    (hcache : ∀ x a, C' x a ↔ held.Leaves dn new before C (fun k _ => C k) x a)
    (hstep : s.relocate dn new adjust = .ok s') :
    Mirrors R C' s' ↔ s.LosesAlike R s' held before dn new adjust := by
  have hshown : C = s.Shows R := funext fun x => funext fun a => propext (h x a)
  rw [hshown] at hcache
  refine forall_congr' fun x => forall_congr' fun a => iff_congr (hcache x a) ?_
  rw [MemoryStore.Shows, MemoryStore.ShowsLeft, MemoryStore.lookup,
    MemoryStore.relocate_topFirst hstep]
  exact and_congr_right' (NameMap.leaves_carryAll (Dn.turns_before dn)
    (fun _ => NameMap.mem_topFirst) (s.entries.topFirst_before dn) R x a)

end

end Mirrors

end

end DirectoryAccess
