import DirectoryAccess.Proofs.Name.Carry
import Mathlib.Data.List.Nodup

/-! # Rekeying — entries taken along one after the other, or all at once

    Asked to relocate, one means that all entries change their places at once: what
    is within the old name stands at the same place within the new one, everything
    else where it stood.  Storage and both caches take their entries along one after
    the other instead.  That comes to the same exactly if the way is clear: no entry
    lands on one that stays, nor on one whose turn has not come. -/

namespace DirectoryAccess

-- ── What a map holds, without the spelling of names ──────────────────────────────

/-- What a map holds, under the keys of its names. -/
def NameMap.content {β : Type} (m : NameMap β) : List (List (String × String) × β) :=
  m.entries.map fun e => (e.1.key, e.2)

/-- A map holds a value under a key exactly if it is found under every name with that key.
    -/
theorem NameMap.mem_content {β : Type} (m : NameMap β) (x : Dn) (v : β) :
    (x.key, v) ∈ m.content ↔ m.get? x = some v := by
  rw [content, List.mem_map]
  constructor
  · rintro ⟨e, he, heq⟩
    obtain ⟨hkey, rfl⟩ := Prod.mk.inj heq
    rw [← get?_congr m hkey]
    exact OrdMap.get?_of_mem m he
  · intro h
    obtain ⟨k, hk, hkey⟩ := mem_of_get? m h
    exact ⟨(k, v), hk, by rw [hkey]⟩

/-- Nothing is held twice under one name. -/
theorem NameMap.content_keys {β : Type} (m : NameMap β) : (m.content.map Prod.fst).Nodup := by
  rw [content, List.map_map]
  exact List.pairwise_map.mpr m.distinct

/-- Maps that hold the same under every name hold the same in the same order. -/
theorem NameMap.content_eq {β : Type} {m m' : NameMap β} (h : ∀ x, m.get? x = m'.get? x) :
    m.content = m'.content := by
  let lt : List (String × String) × β → List (String × String) × β → Prop :=
    fun p q => ∃ d e : Dn, d.key = p.1 ∧ e.key = q.1 ∧ compare d e = .lt
  have hlt : ∀ m : NameMap β, m.content.Pairwise lt := by
    intro m
    exact List.pairwise_map.mpr (m.ordered.imp fun {d e} hde => ⟨d.1, e.1, rfl, rfl, hde⟩)
  have hantisymm : ∀ p q, lt p q → lt q p → p = q := by
    rintro p q ⟨d, e, hd, he, hde⟩ ⟨e', d', he', hd', hed⟩
    rw [Std.TransCmp.congr_left ((Dn.compare_eq_iff e' e).mpr (he'.trans he.symm)),
      Std.TransCmp.congr_right ((Dn.compare_eq_iff d' d).mpr (hd'.trans hd.symm))] at hed
    rw [Std.OrientedCmp.gt_of_lt hde] at hed
    cases hed
  have hmem : ∀ p, p ∈ m.content ↔ p ∈ m'.content := by
    have hone : ∀ (m m' : NameMap β), (∀ x, m.get? x = m'.get? x) → ∀ p, p ∈ m.content →
        p ∈ m'.content := by
      intro m m' h p hp
      obtain ⟨e, he, rfl⟩ := List.mem_map.mp hp
      rw [NameMap.mem_content, ← h]
      exact OrdMap.get?_of_mem m he
    exact fun p => ⟨hone m m' h p, hone m' m (fun x => (h x).symm) p⟩
  have hperm : m.content.Perm m'.content :=
    (List.perm_ext_iff_of_nodup (List.Nodup.of_map Prod.fst (content_keys m))
      (List.Nodup.of_map Prod.fst (content_keys m'))).mpr hmem
  exact hperm.eq_of_pairwise (fun p q _ _ => hantisymm p q) (hlt m) (hlt m')

/-- What is held under a name is told by the content. -/
theorem NameMap.get?_of_content {β : Type} {m m' : NameMap β} (h : m.content = m'.content)
    (x : Dn) : m.get? x = m'.get? x :=
  Option.ext fun v => by rw [← mem_content, ← mem_content, h]

-- ── The image of a map ───────────────────────────────────────────────────────────

section

variable {β : Type} (adapt : Dn → Dn → β → β) (old new : Dn)

/-- An entry as a relocation is to leave it, under the key of its name. -/
def imageOf (e : Dn × β) : List (String × String) × β :=
  match e.1.rebase? old new with
  | some r => (r.key, adapt e.1 r e.2)
  | none => (e.1.key, e.2)

/-- A map holds every entry of another one exactly once, at its place after the
    relocation, and nothing else. -/
def Rekeyed (m m' : NameMap β) : Prop :=
  m'.content.Perm (m.entries.map (imageOf adapt old new))

variable {adapt old new}

/-- What is within the old name is to land within the new one. -/
theorem imageOf_of_rebase {e : Dn × β} {r : Dn} (h : e.1.rebase? old new = some r) :
    imageOf adapt old new e = (r.key, adapt e.1 r e.2) := by
  rw [imageOf, h]

/-- What is outside is to stay. -/
theorem imageOf_outside {e : Dn × β} (h : e.1.isWithin old = false) :
    imageOf adapt old new e = (e.1.key, e.2) := by
  rw [imageOf, Dn.rebase_of_not_within h]

/-- An entry is within the old name and is taken along, or it is outside and stays. -/
theorem rebase_or_outside (old new d : Dn) :
    (∃ r, d.rebase? old new = some r) ∨ d.isWithin old = false := by
  cases hw : d.isWithin old with
  | false => exact Or.inr rfl
  | true =>
      obtain ⟨rel, hrel⟩ := (Dn.isWithin_iff d old).mp hw
      obtain ⟨r, hr, -⟩ := Dn.rebase_of_within hrel.symm new
      exact Or.inl ⟨r, hr⟩

/-- Whatever is held after entries have been taken along is the image of an entry held
    before. -/
theorem carryAll_from {l : List (Dn × β)} {m : NameMap β}
    (hl : ∀ e, e ∈ l ↔ e ∈ m.entries ∧ e.1.isWithin old = true) {x : Dn} {v : β}
    (h : (carryAll adapt old new l m).get? x = some v) :
    (x.key, v) ∈ m.entries.map (imageOf adapt old new) := by
  rcases carryAll_origin h with ⟨hm, hleft⟩ | ⟨e, he, r, hr, hkey, rfl⟩
  · obtain ⟨k, hk, hkey⟩ := NameMap.mem_of_get? m hm
    have hout : k.isWithin old = false := by
      rw [← Bool.not_eq_true]
      exact fun hw => hleft (k, v) ((hl (k, v)).mpr ⟨hk, hw⟩) hkey
    refine List.mem_map.mpr ⟨(k, v), hk, ?_⟩
    rw [imageOf_outside (e := (k, v)) hout, hkey]
  · refine List.mem_map.mpr ⟨e, ((hl e).mp he).1, ?_⟩
    rw [imageOf_of_rebase hr, hkey]

section

variable {l : List (Dn × β)} {m : NameMap β}
  (hl : ∀ e, e ∈ l ↔ e ∈ m.entries ∧ e.1.isWithin old = true)
  (hdistinct : l.Pairwise fun d e => d.1.key ≠ e.1.key)

include hl

/-- Along a clear way no two entries come to one place. -/
theorem ClearWay.image_keys (h : ClearWay old new l m) :
    ((m.entries.map (imageOf adapt old new)).map Prod.fst).Nodup := by
  rw [List.map_map]
  refine List.pairwise_map.mpr (m.distinct.imp_of_mem fun {d e} hd he hne => ?_)
  show (imageOf adapt old new d).1 ≠ (imageOf adapt old new e).1
  rcases rebase_or_outside old new d.1 with ⟨r, hr⟩ | hdout
  · have hdl := (hl d).mpr ⟨hd, Dn.isWithin_of_rebase hr⟩
    rw [imageOf_of_rebase hr]
    rcases rebase_or_outside old new e.1 with ⟨s, hs⟩ | heout
    · rw [imageOf_of_rebase hs]
      exact fun hkey => hne (Dn.key_of_rebase hr hs hkey)
    · rw [imageOf_outside heout]
      exact h.outside d hdl r hr e he heout
  · rw [imageOf_outside hdout]
    rcases rebase_or_outside old new e.1 with ⟨s, hs⟩ | heout
    · have hel := (hl e).mpr ⟨he, Dn.isWithin_of_rebase hs⟩
      rw [imageOf_of_rebase hs]
      exact (h.outside e hel s hs d hd hdout).symm
    · rw [imageOf_outside heout]
      exact hne

include hdistinct

/-- What holds the image of the map before has found its way clear. -/
theorem Rekeyed.clearWay (h : Rekeyed adapt old new m (carryAll adapt old new l m)) :
    ClearWay old new l m := by
  have hheld : ∀ d ∈ l, ∀ r, d.1.rebase? old new = some r →
      (carryAll adapt old new l m).get? r = some (adapt d.1 r d.2) := by
    intro d hd r hr
    refine (NameMap.mem_content _ r _).mp (h.mem_iff.mpr (List.mem_map.mpr ⟨d, ?_⟩))
    exact ⟨((hl d).mp hd).1, imageOf_of_rebase hr⟩
  constructor
  · refine List.pairwise_iff_forall_sublist.mpr fun {d e} hde r hr hkey => ?_
    -- the later entry `e` clears the place where `d` has landed, for good
    have hland := hheld d (hde.mem List.mem_cons_self) r hr
    rw [carryAll_swept m hdistinct hde hr rfl hkey.symm] at hland
    cases hland
  · intro d hd r hr e he hout hkey
    have himage : ((m.entries.map (imageOf adapt old new)).map Prod.fst).Nodup :=
      (h.map Prod.fst).nodup_iff.mp (NameMap.content_keys _)
    rw [List.map_map] at himage
    have hsame : d = e := by
      refine List.inj_on_of_nodup_map himage ((hl d).mp hd).1 he ?_
      show (imageOf adapt old new d).1 = (imageOf adapt old new e).1
      rw [imageOf_of_rebase hr, imageOf_outside hout]
      exact hkey
    rw [← hsame, ((hl d).mp hd).2] at hout
    cases hout

/-- Taking entries along one after the other leaves the image of the map exactly if the
    way is clear. -/
theorem rekeyed_iff :
    Rekeyed adapt old new m (carryAll adapt old new l m) ↔ ClearWay old new l m := by
  refine ⟨Rekeyed.clearWay hl hdistinct, fun h => ?_⟩
  refine (List.perm_ext_iff_of_nodup (List.Nodup.of_map Prod.fst (NameMap.content_keys _))
    (List.Nodup.of_map Prod.fst (h.image_keys hl))).mpr fun c => ?_
  constructor
  · intro hc
    obtain ⟨e, he, rfl⟩ := List.mem_map.mp hc
    exact carryAll_from hl (OrdMap.get?_of_mem _ he)
  · intro hc
    obtain ⟨e, he, rfl⟩ := List.mem_map.mp hc
    have hget : ∀ (x : Dn) (v : β), (carryAll adapt old new l m).get? x = some v ↔ _ :=
      fun _ _ => get?_carryAll_of_clear hl hdistinct h
    rcases rebase_or_outside old new e.1 with ⟨r, hr⟩ | hout
    · rw [imageOf_of_rebase hr, NameMap.mem_content, hget]
      exact Or.inr ⟨e, (hl e).mpr ⟨he, Dn.isWithin_of_rebase hr⟩, r, hr, rfl, rfl⟩
    · rw [imageOf_outside hout, NameMap.mem_content, hget]
      exact Or.inl ⟨hout, OrdMap.get?_of_mem m he⟩

end

end

end DirectoryAccess
