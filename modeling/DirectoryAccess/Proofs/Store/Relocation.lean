import DirectoryAccess.Proofs.Name.Carry
import DirectoryAccess.Proofs.Store.Memory

/-! # Relocating in the memory store — the entry and all below it are carried

    A relocation takes the entry itself and then everything below it to the new
    name.  Put together that is one carrying of all that is stored within the old
    name, where the entry itself is rewritten on the way. -/

namespace DirectoryAccess

namespace MemoryStore

/-- An entry as it lands: renamed, and rewritten if it is the one that was asked to be
    relocated. -/
def landed (dn : Dn) (adjust : Entry → Entry) (d r : Dn) (e : Entry) : Entry :=
  if d.same dn then adjust (e.withDn r) else e.withDn r

/-- Carrying over entries that are all below the old name only renames them. -/
theorem carryOver_eq {dn new : Dn} {l : List (Dn × Entry)} (adjust : Entry → Entry)
    (hbelow : ∀ e ∈ l, e.1.isDescendantOf dn = true) {m m' : NameMap Entry}
    (h : carryOver dn new l m = .ok m') : m' = carryAll (landed dn adjust) dn new l m := by
  induction l generalizing m with
  | nil => exact (Except.ok.inj h).symm
  | cons d rest ih =>
      obtain ⟨hd, hrest⟩ := List.forall_mem_cons.mp hbelow
      obtain ⟨-, hne⟩ := (Dn.isDescendantOf_iff d.1 dn).mp hd
      have hnot : d.1.same dn = false := by
        rw [← Bool.not_eq_true, Dn.same_iff]
        exact Ne.symm hne
      rw [carryOver] at h
      cases hr : d.1.rebase? dn new with
      | none =>
          rw [hr] at h
          cases h
      | some r =>
          rw [hr] at h
          rw [ih hrest h, carryAll, carryAll, List.foldl_cons]
          congr 1
          rw [carry_of_rebase m hr, landed, hnot]
          rfl

/-- All that is stored within a name, in some order. -/
def Subtree (s : MemoryStore) (dn : Dn) (l : List (Dn × Entry)) : Prop :=
  (∀ e, e ∈ l ↔ e ∈ s.entries.entries ∧ e.1.isWithin dn = true)
    ∧ l.Pairwise fun d e => d.1.key ≠ e.1.key

/-- A relocation that succeeds carries the entry of the old name, and then those below
    it in their order. -/
theorem relocate_topFirst {s s' : MemoryStore} {dn new : Dn} {adjust : Entry → Entry}
    (h : s.relocate dn new adjust = .ok s') :
    s'.entries = carryAll (landed dn adjust) dn new (s.entries.topFirst dn) s.entries := by
  obtain ⟨-, -, -, top, htop, hcarry, -⟩ := relocate_ok h
  obtain ⟨k, hkey, hlist⟩ := NameMap.topFirst_of_some htop
  have hbelow : ∀ e ∈ s.below dn, e.1.isDescendantOf dn = true := by
    intro e he
    exact (List.mem_filter.mp he).2
  have hsame : k.same dn = true := (Dn.same_iff k dn).mpr hkey
  rw [carryOver_eq adjust hbelow hcarry, hlist, carryAll, carryAll, List.foldl_cons]
  congr 1
  rw [carry_of_rebase s.entries (e := (k, top)) (Dn.rebase_self hkey new), landed,
    if_pos hsame, NameMap.erase_congr s.entries hkey]

/-- A relocation that succeeds carries all that is stored within the old name. -/
theorem relocate_carries {s s' : MemoryStore} {dn new : Dn} {adjust : Entry → Entry}
    (h : s.relocate dn new adjust = .ok s') :
    ∃ l, s.Subtree dn l ∧ s'.entries = carryAll (landed dn adjust) dn new l s.entries :=
  ⟨s.entries.topFirst dn, ⟨fun _ => NameMap.mem_topFirst, s.entries.topFirst_distinct dn⟩,
    relocate_topFirst h⟩

/-- Under the new name a relocation that succeeds leaves the entry of the old one, renamed
    and rewritten: nothing that is carried after it lands there or is taken away from there. -/
theorem lookup_new {s s' : MemoryStore} {dn new : Dn} {adjust : Entry → Entry}
    (h : s.relocate dn new adjust = .ok s') :
    ∃ top, s.lookup dn = some top ∧ s'.lookup new = some (adjust (top.withDn new)) := by
  obtain ⟨hbelow, -, -, top, htop, -⟩ := relocate_ok h
  obtain ⟨k, hkey, hlist⟩ := NameMap.topFirst_of_some htop
  refine ⟨top, htop, ?_⟩
  have hdistinct := s.entries.topFirst_distinct dn
  have hmem : (k, top) ∈ s.entries.topFirst dn := by
    rw [hlist]
    exact List.mem_cons_self ..
  -- a name within the old one that is the new one is the old one itself, which goes first
  have hkept : (s.entries.topFirst dn).Pairwise
      fun d d' => d.1.key = k.key → d'.1.key ≠ new.key := by
    refine hdistinct.imp_of_mem fun {d d'} _ hd' hne hd hnew => hne ?_
    have hwithin : new.isWithin dn = true := by
      rw [← Dn.isWithin_congr hnew]
      exact (NameMap.mem_topFirst.mp hd').2
    rw [hd, hkey, hnew, (Dn.same_iff new dn).mp (hbelow hwithin)]
  have hlands : (carryAll (landed dn adjust) dn new (s.entries.topFirst dn) s.entries).get? new
      = some (landed dn adjust k new top) :=
    carryAll_lands s.entries hdistinct hmem (Dn.rebase_self hkey new) rfl hkept
  have hsame : k.same dn = true := (Dn.same_iff k dn).mpr hkey
  show OrdMap.get? s'.entries new = _
  rw [relocate_topFirst h, hlands, landed, if_pos hsame]

/-- Along a clear way a relocation leaves what is stored outside the old name where it is, and
    whatever is stored within it lands. -/
theorem lookup_relocate_iff {s s' : MemoryStore} {dn new : Dn} {adjust : Entry → Entry}
    (h : s.relocate dn new adjust = .ok s')
    (hclear : ClearWay dn new (s.entries.topFirst dn) s.entries) {x : Dn} {v : Entry} :
    s'.lookup x = some v ↔ (x.isWithin dn = false ∧ s.lookup x = some v)
      ∨ ∃ k e r, (k, e) ∈ s.entries.entries ∧ k.rebase? dn new = some r ∧ r.key = x.key
        ∧ v = landed dn adjust k r e := by
  show OrdMap.get? s'.entries x = some v ↔ _
  rw [relocate_topFirst h, get?_carryAll_of_clear (fun _ => NameMap.mem_topFirst)
    (s.entries.topFirst_distinct dn) hclear]
  refine or_congr_right ⟨?_, ?_⟩
  · rintro ⟨⟨k, e⟩, hk, r, hr, hkey, hv⟩
    exact ⟨k, e, r, (NameMap.mem_topFirst.mp hk).1, hr, hkey, hv⟩
  · rintro ⟨k, e, r, hk, hr, hkey, hv⟩
    exact ⟨(k, e), NameMap.mem_topFirst.mpr ⟨hk, Dn.isWithin_of_rebase hr⟩, r, hr, hkey, hv⟩

-- ── What an operation leaves alone ───────────────────────────────────────────────

/-- An operation that relocates nothing leaves every name alone but the one it acts on. -/
theorem lookup_after {s s' : MemoryStore} {op : Operation} (h : s.after op = .ok s')
    (hop : op.isRelocation = false) {x : Dn} (hx : x.key ≠ op.target.key) :
    s'.lookup x = s.lookup x := by
  cases op with
  | add entry =>
      obtain ⟨-, -, rfl⟩ := add_ok h
      exact (NameMap.get?_insert ..).trans (if_neg hx)
  | delete dn =>
      obtain ⟨-, -, rfl⟩ := delete_ok h
      exact (NameMap.get?_erase ..).trans (if_neg (Ne.symm hx))
  | modify dn mods =>
      obtain ⟨-, -, -, rfl⟩ := modify_ok h
      exact (NameMap.get?_insert ..).trans (if_neg hx)
  | rename _ _ _ | move _ _ | moveAndRename _ _ _ _ => cases hop
  | compare _ _ _ | lookup _ _ | hasEntry _ | search _ _ _ _ =>
      cases h
      rfl

/-- An addition under a stored name does not succeed. -/
theorem add_target {s s' : MemoryStore} {entry e : Entry} (h : s.add entry = .ok s') {x : Dn}
    (he : s.lookup x = some e) : x.key ≠ entry.dn.key := by
  intro hkey
  obtain ⟨hfree, -⟩ := add_ok h
  rw [OrdMap.contains_eq_false_iff, ← NameMap.get?_congr s.entries hkey] at hfree
  cases hfree.symm.trans he

-- ── Every entry under its own name ───────────────────────────────────────────────

/-- Every entry is stored under its own name. -/
def Named (s : MemoryStore) : Prop := ∀ x e, s.lookup x = some e → e.dn.key = x.key

/-- Replacing the component of an entry leaves its name. -/
theorem replaceRdn_dn (old : Option Rdn) (new : Rdn) (deleteOld : Bool) (e : Entry) :
    (replaceRdn old new deleteOld e).dn = e.dn := by
  cases deleteOld with
  | false => rfl
  | true => cases old <;> rfl

end MemoryStore

theorem Operation.rewrite_dn (op : Operation) (e : Entry) : (op.rewrite e).dn = e.dn := by
  cases op with
  | rename _ _ _ | moveAndRename _ _ _ _ => exact MemoryStore.replaceRdn_dn ..
  | add _ | delete _ | modify _ _ | move _ _ | compare _ _ _ | lookup _ _ | hasEntry _
  | search _ _ _ _ => rfl

namespace MemoryStore

/-- An entry that has landed is called as the place where it is. -/
theorem landed_dn {dn : Dn} {adjust : Entry → Entry} (hadjust : ∀ e, (adjust e).dn = e.dn)
    (d r : Dn) (e : Entry) : (landed dn adjust d r e).dn = r := by
  rw [landed]
  split
  · exact hadjust _
  · rfl

/-- Putting an entry under its own name leaves every entry under its own name. -/
theorem named_insert {s : MemoryStore} {k : Dn} {entry : Entry} (h : s.Named)
    (hkey : entry.dn.key = k.key) :
    Named { s with entries := s.entries.insert k entry } := by
  intro x e he
  have he : OrdMap.get? (s.entries.insert k entry) x = some e := he
  rw [NameMap.get?_insert] at he
  by_cases hx : x.key = k.key
  · rw [if_pos hx] at he
    cases he
    exact hkey.trans hx.symm
  · rw [if_neg hx] at he
    exact h x e he

/-- Every step leaves every entry under its own name. -/
theorem Named.after {s s' : MemoryStore} {op : Operation} (h : s.Named)
    (hstep : s.after op = .ok s') : s'.Named := by
  cases op with
  | add entry =>
      obtain ⟨-, -, rfl⟩ := add_ok hstep
      exact named_insert h rfl
  | delete dn =>
      obtain ⟨-, -, rfl⟩ := delete_ok hstep
      intro x e he
      have he : OrdMap.get? (OrdMap.erase s.entries dn) x = some e := he
      rw [NameMap.get?_erase] at he
      by_cases hx : dn.key = x.key
      · rw [if_pos hx] at he
        cases he
      · rw [if_neg hx] at he
        exact h x e he
  | modify dn mods =>
      obtain ⟨e, he, -, rfl⟩ := modify_ok hstep
      refine named_insert h ?_
      rw [Entry.foldl_project_dn]
      exact h dn e he
  | rename _ _ _ | move _ _ | moveAndRename _ _ _ _ =>
      obtain ⟨new, -, hrelocate⟩ := after_relocation rfl hstep
      obtain ⟨l, -, hcarried⟩ := relocate_carries hrelocate
      intro x e he
      have he : OrdMap.get? s'.entries x = some e := he
      rw [hcarried] at he
      rcases carryAll_origin he with ⟨hold, -⟩ | ⟨d, -, r, -, hkey, rfl⟩
      · exact h x e hold
      · rw [landed_dn (Operation.rewrite_dn _)]
        exact hkey
  | compare _ _ _ | lookup _ _ | hasEntry _ | search _ _ _ _ =>
      cases hstep
      exact h

/-- In every store that operations have built, entries are stored under their own
    names. -/
theorem Built.named {s : MemoryStore} (h : s.Built) : s.Named := by
  induction h with
  | empty suffixes => exact fun _ _ he => by cases he
  | after op _ hstep ih => exact ih.after hstep

end MemoryStore

end DirectoryAccess
