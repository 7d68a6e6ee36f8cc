import DirectoryAccess.Proofs.Store.Relocation

/-! # Rooted stores — nothing is stored without what is above it

    If every suffix stands directly below the root, an entry is only ever added where
    the name above it is stored, and nothing is taken away that has something below
    it.  So all names above a stored one are stored, and a relocation to a free name
    finds free ground below it. -/

namespace DirectoryAccess

namespace MemoryStore

/-- The name above is the root or is stored. -/
def Placed (s : MemoryStore) (x : Dn) : Prop :=
  ∀ p, x.parent? = some p → p.isRoot = true ∨ s.entries.contains p = true

/-- Every suffix is at most one component long, and every stored name has a place. -/
structure Rooted (s : MemoryStore) : Prop where
  shallow : ∀ x ∈ s.suffixes, x.depth ≤ 1
  placed : ∀ x, s.entries.contains x = true → s.Placed x

theorem Placed.congr {s : MemoryStore} {x y : Dn} (h : s.Placed x) (hkey : x.key = y.key) :
    s.Placed y := by
  intro p hp
  obtain ⟨q, hq, hqp⟩ := Dn.parent_congr hkey hp
  rw [← Dn.isRoot_congr hqp, ← NameMap.contains_congr s.entries hqp]
  exact h q hq

/-- All names above a stored one are stored, but for the root. -/
theorem Rooted.ancestor {s : MemoryStore} (h : s.Rooted) {x y : Dn}
    (hx : s.entries.contains x = true) (hw : x.isWithin y = true) (hy : y.isRoot = false) :
    s.entries.contains y = true := by
  have hy : y.key ≠ [] := by
    rw [Ne, ← Dn.isRoot_iff, hy]
    exact Bool.false_ne_true
  obtain ⟨rdns⟩ := x
  induction rdns with
  | nil => exact absurd (List.suffix_nil.mp ((Dn.isWithin_iff _ y).mp hw)) hy
  | cons r rest ih =>
      have hcons : y.key <:+ r.key :: (⟨rest⟩ : Dn).key := (Dn.isWithin_iff _ y).mp hw
      rcases List.suffix_cons_iff.mp hcons with hsame | hbelow
      · rw [NameMap.contains_congr s.entries (y := ⟨r :: rest⟩) hsame]
        exact hx
      · rcases h.placed _ hx ⟨rest⟩ rfl with hroot | hthere
        · rw [(Dn.isRoot_iff ⟨rest⟩).mp hroot, List.suffix_nil] at hbelow
          exact absurd hbelow hy
        · exact ih hthere ((Dn.isWithin_iff ⟨rest⟩ y).mpr hbelow)

/-- In a rooted store a relocation to another name, which must be free, finds free
    ground. -/
theorem Rooted.freeGround {s s' : MemoryStore} (h : s.Rooted) {dn new : Dn}
    {adjust : Entry → Entry} (hstep : s.relocate dn new adjust = .ok s')
    (hnew : new.isRoot = false) : FreeGround s.entries dn new := by
  obtain ⟨-, hfree, -⟩ := relocate_ok hstep
  rcases hfree with hsame | hfree
  · exact Or.inl ((Dn.same_iff new dn).mp hsame)
  · refine Or.inr fun e he => ?_
    rw [← Bool.not_eq_true]
    intro hw
    rw [h.ancestor (NameMap.contains_of_mem he) hw hnew] at hfree
    cases hfree

/-- A suffix of a rooted store has its place below the root. -/
theorem Rooted.placed_suffix {s : MemoryStore} (h : s.Rooted) {x : Dn}
    (hx : s.isSuffix x = true) : s.Placed x := by
  intro p hp
  obtain ⟨suffix, hin, hsame⟩ := List.any_eq_true.mp hx
  have hdepth := h.shallow suffix hin
  obtain ⟨r, rfl⟩ := Dn.eq_child_of_parent hp
  rw [← Dn.length_key, (Dn.same_iff suffix _).mp hsame, Dn.key_child, List.length_cons] at hdepth
  refine Or.inl ((Dn.isRoot_iff p).mpr (List.length_eq_zero_iff.mp ?_))
  omega

-- ── Every step keeps a store rooted ──────────────────────────────────────────────

/-- An entry that is put in its place leaves a rooted store. -/
theorem Rooted.insert {s : MemoryStore} (h : s.Rooted) {k : Dn} {e : Entry}
    (hplace : s.Placed k) : Rooted { s with entries := s.entries.insert k e } := by
  refine ⟨h.shallow, fun x hx p hp => ?_⟩
  have hold : s.Placed x := by
    rcases (NameMap.contains_insert ..).mp hx with hkey | hx
    · exact hplace.congr hkey.symm
    · exact h.placed x hx
  exact (hold p hp).imp_right fun hthere => (NameMap.contains_insert ..).mpr (Or.inr hthere)

/-- Without an entry that has nothing directly below it, a store is rooted still. -/
theorem Rooted.erase {s : MemoryStore} (h : s.Rooted) {dn : Dn}
    (hleaf : ∀ k ∈ s.entries.keys, k.isChildOf dn = false) :
    Rooted { s with entries := s.entries.erase dn } := by
  refine ⟨h.shallow, fun x hx p hp => ?_⟩
  obtain ⟨-, hx⟩ := (NameMap.contains_erase ..).mp hx
  refine (h.placed x hx p hp).imp_right fun hthere => (NameMap.contains_erase ..).mpr ⟨?_, hthere⟩
  intro hkey
  obtain ⟨e, he⟩ := (OrdMap.contains_iff ..).mp hx
  obtain ⟨k, hk, hkx⟩ := NameMap.mem_of_get? s.entries he
  obtain ⟨r, rfl⟩ := Dn.eq_child_of_parent hp
  have hchild : k.isChildOf dn = true := by
    refine (Dn.isChildOf_iff k dn).mpr ⟨r.key, ?_⟩
    rw [hkx, Dn.key_child, hkey]
  rw [hleaf k (List.mem_map.mpr ⟨(k, e), hk, rfl⟩)] at hchild
  cases hchild

/-- After a relocation to free ground a name is there if it was there outside the old
    name, or if one within the old name has been taken to it. -/
theorem contains_relocated {s s' : MemoryStore} {dn new : Dn} {adjust : Entry → Entry}
    (hstep : s.relocate dn new adjust = .ok s') (hfree : FreeGround s.entries dn new) (x : Dn) :
    s'.entries.contains x = true
      ↔ (x.isWithin dn = false ∧ s.entries.contains x = true)
        ∨ ∃ k r, s.entries.contains k = true ∧ k.rebase? dn new = some r ∧ r.key = x.key := by
  obtain ⟨l, ⟨hl, hdistinct⟩, hcarried⟩ := relocate_carries hstep
  rw [OrdMap.contains_iff, OrdMap.contains_iff, hcarried]
  simp only [get?_carryAll_of_free hl hdistinct hfree]
  constructor
  · rintro ⟨v, ⟨hout, hv⟩ | ⟨e, he, r, hr, hx, -⟩⟩
    · exact Or.inl ⟨hout, v, hv⟩
    · exact Or.inr ⟨e.1, r, NameMap.contains_of_mem ((hl e).mp he).1, hr, hx⟩
  · rintro (⟨hout, v, hv⟩ | ⟨k, r, hk, hr, hx⟩)
    · exact ⟨v, Or.inl ⟨hout, hv⟩⟩
    · obtain ⟨e, he⟩ := (OrdMap.contains_iff ..).mp hk
      obtain ⟨k', hk', hkey⟩ := NameMap.mem_of_get? s.entries he
      obtain ⟨r', hr', hrkey⟩ := Dn.rebase_congr hkey.symm hr
      exact ⟨_, Or.inr ⟨(k', e), (hl _).mpr ⟨hk', Dn.isWithin_of_rebase hr'⟩, r', hr',
        hrkey.trans hx, rfl⟩⟩

/-- A new name that is not lacking a place, outside of the old one, has it still after
    everything within the old name is gone. -/
theorem Rooted.placed_new {s s' : MemoryStore} (h : s.Rooted) {dn new p : Dn}
    {adjust : Entry → Entry} (hstep : s.relocate dn new adjust = .ok s')
    (hp : new.parent? = some p) :
    p.isRoot = true ∨ p.isWithin dn = false ∧ s.entries.contains p = true := by
  obtain ⟨hbelow, -, hplace, -⟩ := relocate_ok hstep
  obtain ⟨r, rfl⟩ := Dn.eq_child_of_parent hp
  have hout : p.isWithin dn = false := by
    rw [← Bool.not_eq_true]
    intro hw
    have hle := ((Dn.isWithin_iff p dn).mp hw).length_le
    have hin := (Dn.isWithin_iff p dn).mp hw |>.trans (List.suffix_cons r.key p.key)
    have hsame := (Dn.same_iff _ dn).mp (hbelow ((Dn.isWithin_iff _ dn).mpr hin))
    rw [← hsame, Dn.key_child, List.length_cons] at hle
    omega
  rcases place_of_not_lacksPlace hplace hp with hroot | hthere | hsuffix
  · exact Or.inl hroot
  · exact Or.inr ⟨hout, hthere⟩
  · exact (h.placed_suffix hsuffix p hp).imp_right fun hthere => ⟨hout, hthere⟩

/-- A relocation to a name that is not the root leaves a rooted store. -/
theorem Rooted.relocate {s s' : MemoryStore} (h : s.Rooted) {dn new : Dn}
    {adjust : Entry → Entry} (hstep : s.relocate dn new adjust = .ok s')
    (hnew : new.isRoot = false) : s'.Rooted := by
  have hthere := contains_relocated hstep (h.freeGround hstep hnew)
  obtain ⟨hbelow, -, -, -, -, -, hsuffixes⟩ := relocate_ok hstep
  have hdn : dn.key ≠ [] := by
    intro hnil
    have hw : new.isWithin dn = true := by
      rw [Dn.isWithin_iff, hnil]
      exact List.nil_suffix
    rw [(Dn.isRoot_iff new).mpr (((Dn.same_iff new dn).mp (hbelow hw)).trans hnil)] at hnew
    cases hnew
  refine ⟨hsuffixes ▸ h.shallow, fun x hx p hp => ?_⟩
  obtain ⟨c, rfl⟩ := Dn.eq_child_of_parent hp
  rcases (hthere _).mp hx with ⟨hout, hx⟩ | ⟨k, r, hk, hr, hkey⟩
  · -- what was outside the old name had its place there
    refine (h.placed _ hx p hp).imp_right fun hp => (hthere p).mpr (Or.inl ⟨?_, hp⟩)
    rw [← Bool.not_eq_true] at hout ⊢
    intro hw
    exact hout ((Dn.isWithin_iff _ dn).mpr
      (((Dn.isWithin_iff p dn).mp hw).trans (List.suffix_cons c.key p.key)))
  · obtain ⟨rel, hrel, hrkey⟩ := Dn.key_rebase hr
    rw [hkey] at hrkey
    cases rel with
    | nil =>
        -- the new name itself
        obtain ⟨q, hq, hqp⟩ := Dn.parent_congr hrkey.symm hp
        rw [← Dn.isRoot_congr hqp, ← NameMap.contains_congr s'.entries hqp]
        exact (h.placed_new hstep hq).imp_right fun hq => (hthere q).mpr (Or.inl hq)
    | cons a rel =>
        -- the name above has been taken along
        have hpkey : p.key = rel ++ new.key := (List.cons.inj hrkey).2
        obtain ⟨rdns⟩ := k
        cases rdns with
        | nil => cases hrel
        | cons b rest =>
            have hrest : (⟨rest⟩ : Dn).key = rel ++ dn.key := (List.cons.inj hrel).2
            rcases h.placed _ hk ⟨rest⟩ rfl with hroot | hrestthere
            · rw [(Dn.isRoot_iff _).mp hroot] at hrest
              exact absurd (List.append_eq_nil_iff.mp hrest.symm).2 hdn
            · obtain ⟨r', hr', hrkey'⟩ := Dn.rebase_of_within hrest new
              exact Or.inr ((hthere p).mpr
                (Or.inr ⟨⟨rest⟩, r', hrestthere, hr', hrkey'.trans hpkey.symm⟩))

end MemoryStore

/-- No relocation leads to the root. -/
theorem Operation.newDn_not_root {op : Operation} {new : Dn} (h : op.newDn? = some new) :
    new.isRoot = false := by
  cases op with
  | rename dn rdn deleteOld =>
      obtain ⟨p, -, rfl⟩ := Option.map_eq_some_iff.mp h
      rfl
  | move dn superior =>
      obtain ⟨r, -, rfl⟩ := Option.map_eq_some_iff.mp h
      rfl
  | moveAndRename dn superior rdn deleteOld =>
      cases h
      rfl
  | add _ | delete _ | modify _ _ | compare _ _ _ | lookup _ _ | hasEntry _
  | search _ _ _ _ => cases h

namespace MemoryStore

/-- Every step leaves a rooted store. -/
theorem Rooted.after {s s' : MemoryStore} {op : Operation} (h : s.Rooted)
    (hstep : s.after op = .ok s') : s'.Rooted := by
  cases op with
  | add entry =>
      obtain ⟨-, hplace, rfl⟩ := add_ok hstep
      refine h.insert fun p hp => ?_
      rcases hplace with hsuffix | ⟨q, hq, hthere⟩
      · exact h.placed_suffix hsuffix p hp
      · rw [hp] at hq
        cases hq
        exact Or.inr hthere
  | delete dn =>
      obtain ⟨-, hleaf, rfl⟩ := delete_ok hstep
      exact h.erase hleaf
  | modify dn mods =>
      obtain ⟨e, he, -, rfl⟩ := modify_ok hstep
      exact h.insert (h.placed dn ((OrdMap.contains_iff ..).mpr ⟨e, he⟩))
  | rename _ _ _ | move _ _ | moveAndRename _ _ _ _ =>
      obtain ⟨new, hnew, hrelocate⟩ := after_relocation rfl hstep
      exact h.relocate hrelocate (Operation.newDn_not_root hnew)
  | compare _ _ _ | lookup _ _ | hasEntry _ | search _ _ _ _ =>
      cases hstep
      exact h

/-- No operation changes the suffixes. -/
theorem after_suffixes {s s' : MemoryStore} {op : Operation} (hstep : s.after op = .ok s') :
    s'.suffixes = s.suffixes := by
  cases op with
  | add entry =>
      obtain ⟨-, -, rfl⟩ := add_ok hstep
      rfl
  | delete dn =>
      obtain ⟨-, -, rfl⟩ := delete_ok hstep
      rfl
  | modify dn mods =>
      obtain ⟨-, -, -, rfl⟩ := modify_ok hstep
      rfl
  | rename _ _ _ | move _ _ | moveAndRename _ _ _ _ =>
      obtain ⟨new, -, hrelocate⟩ := after_relocation rfl hstep
      obtain ⟨-, -, -, -, -, -, hsuffixes⟩ := relocate_ok hrelocate
      exact hsuffixes
  | compare _ _ _ | lookup _ _ | hasEntry _ | search _ _ _ _ =>
      cases hstep
      rfl

/-- Every store that operations have built is rooted if its suffixes stand directly below
    the root. -/
theorem Built.rooted {s : MemoryStore} (h : s.Built) (hs : ∀ x ∈ s.suffixes, x.depth ≤ 1) :
    s.Rooted := by
  induction h with
  | empty suffixes =>
      refine ⟨hs, ?_⟩
      intro _ hx
      cases hx
  | after op _ hstep ih =>
      rw [after_suffixes hstep] at hs
      exact (ih hs).after hstep

end MemoryStore

end DirectoryAccess
