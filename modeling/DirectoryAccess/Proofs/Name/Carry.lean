import DirectoryAccess.Proofs.Name.Key
import DirectoryAccess.Proofs.Ordered.Set

/-! # Carrying a subtree — what a map of names holds after entries have moved

    Storage and both caches follow a relocation in the same way: entry by entry,
    what is held under a name within the old one is taken away and put under the
    name at the same place within the new one.  What is held afterwards under any
    name is what was held there, if the name has not been left or landed on, or it
    is what came from the one name that is rebased to it. -/

namespace DirectoryAccess

theorem NameMap.get?_congr {β : Type} (m : NameMap β) {x y : Dn} (h : x.key = y.key) :
    m.get? x = m.get? y :=
  OrdMap.get?_congr m ((Dn.compare_eq_iff x y).mpr h)

/-- Under a name that has been put in, in whatever spelling, there is what was put. -/
theorem NameMap.get?_insert {β : Type} (m : NameMap β) (k x : Dn) (v : β) :
    OrdMap.get? (m.insert k v) x = if x.key = k.key then some v else m.get? x := by
  rw [OrdMap.get?_insert]
  simp only [Dn.compare_eq_iff]

/-- Under a name that has been taken out there is nothing, and elsewhere what there was. -/
theorem NameMap.get?_erase {β : Type} (m : NameMap β) (k x : Dn) :
    OrdMap.get? (m.erase k) x = if k.key = x.key then none else m.get? x := by
  rw [OrdMap.get?_erase]
  simp only [Dn.compare_eq_iff]

theorem NameMap.contains_congr {β : Type} (m : NameMap β) {x y : Dn} (h : x.key = y.key) :
    m.contains x = m.contains y := by
  rw [OrdMap.contains, OrdMap.contains, get?_congr m h]

/-- A name is held after an insertion if it is the one put in, or was held. -/
theorem NameMap.contains_insert {β : Type} (m : NameMap β) (k x : Dn) (v : β) :
    (m.insert k v).contains x = true ↔ x.key = k.key ∨ m.contains x = true := by
  rw [OrdMap.contains, OrdMap.contains, get?_insert]
  by_cases hx : x.key = k.key
  · rw [if_pos hx]
    exact iff_of_true rfl (Or.inl hx)
  · rw [if_neg hx, or_iff_right hx]

/-- A name is held after a removal if it is another one, and was held. -/
theorem NameMap.contains_erase {β : Type} (m : NameMap β) (k x : Dn) :
    (m.erase k).contains x = true ↔ x.key ≠ k.key ∧ m.contains x = true := by
  rw [OrdMap.contains, OrdMap.contains, get?_erase]
  by_cases hx : k.key = x.key
  · rw [if_pos hx]
    exact iff_of_false Bool.false_ne_true fun hn => hn.1 hx.symm
  · rw [if_neg hx, and_iff_right (Ne.symm hx)]

/-- A name may be taken out in any of its spellings. -/
theorem NameMap.erase_congr {β : Type} (m : NameMap β) {x y : Dn} (h : x.key = y.key) :
    OrdMap.erase m x = OrdMap.erase m y := by
  have hf : (fun (k : Dn) (_ : β) => !(compare x k).isEq)
      = fun (k : Dn) (_ : β) => !(compare y k).isEq := by
    funext k _
    rw [Std.TransCmp.congr_left ((Dn.compare_eq_iff x y).mpr h)]
  rw [OrdMap.erase, OrdMap.erase, hf]

/-- What is found under a name is an entry under some spelling of it. -/
theorem NameMap.mem_of_get? {β : Type} (m : NameMap β) {x : Dn} {v : β}
    (h : m.get? x = some v) : ∃ k, (k, v) ∈ m.entries ∧ k.key = x.key := by
  obtain ⟨k, hk, he⟩ := OrdMap.mem_of_get? m h
  exact ⟨k, hk, ((Dn.compare_eq_iff x k).mp he).symm⟩

/-- No two entries of a map have the same name. -/
theorem NameMap.distinct {β : Type} (m : NameMap β) :
    m.entries.Pairwise fun d e => d.1.key ≠ e.1.key := by
  refine m.ordered.imp fun {d e} hlt hk => ?_
  rw [(Dn.compare_eq_iff d.1 e.1).mpr hk] at hlt
  cases hlt

/-- Two entries of a map of names under the same name are one entry. -/
theorem NameMap.eq_of_key {β : Type} (m : NameMap β) {d e : Dn × β} (hd : d ∈ m.entries)
    (he : e ∈ m.entries) (h : d.1.key = e.1.key) : d = e := by
  have hpair : ∀ ⦃x⦄, x ∈ m.entries → ∀ ⦃y⦄, y ∈ m.entries → x.1.key = y.1.key → x = y := by
    let R : Dn × β → Dn × β → Prop := fun x y => x.1.key = y.1.key → x = y
    have hR : m.entries.Pairwise R := m.distinct.imp fun hne hk => absurd hk hne
    have hflip : m.entries.Pairwise (flip R) :=
      m.distinct.imp fun hne hk => absurd hk.symm hne
    exact List.Pairwise.forall_of_forall_of_flip (R := R) (fun _ _ _ => rfl) hR hflip
  exact hpair hd he h

/-- What a test of names does not select comes and goes without changing what it
    selects. -/
theorem NameMap.filter_insert {β : Type} {p : Dn → Bool}
    (hp : ∀ a b : Dn, a.key = b.key → p a = p b) (m : NameMap β) {k : Dn} (v : β)
    (hk : p k = false) :
    (m.insert k v).entries.filter (fun e => p e.1) = m.entries.filter fun e => p e.1 := by
  show (insertEntry k v m.entries).filter _ = _
  induction m.entries with
  | nil => rw [insertEntry, List.filter_cons_of_neg (by simp [hk])]
  | cons e rest ih =>
      rw [insertEntry]
      cases hc : compare k e.1 with
      | lt => rw [List.filter_cons_of_neg (by simp [hk])]
      | eq =>
          have he : p e.1 = false := (hp e.1 k ((Dn.compare_eq_iff k e.1).mp hc).symm).trans hk
          rw [List.filter_cons_of_neg (by simp [he]), List.filter_cons_of_neg (by simp [he])]
      | gt => rw [List.filter_cons, List.filter_cons, ih]

theorem NameMap.filter_erase {β : Type} {p : Dn → Bool}
    (hp : ∀ a b : Dn, a.key = b.key → p a = p b) (m : NameMap β) {k : Dn}
    (hk : p k = false) :
    (OrdMap.erase m k).entries.filter (fun e => p e.1) = m.entries.filter fun e => p e.1 := by
  show (m.entries.filter _).filter _ = _
  rw [List.filter_filter]
  refine List.filter_congr fun e _ => ?_
  cases he : p e.1 with
  | false => rfl
  | true =>
      have hne : compare k e.1 ≠ .eq := by
        intro hc
        rw [hp e.1 k ((Dn.compare_eq_iff k e.1).mp hc).symm, hk] at he
        cases he
      show (true && !(compare k e.1).isEq) = true
      rw [isEq_eq_false_iff.mpr hne]
      rfl

/-- What is held within a name, under the name itself first. -/
def NameMap.topFirst {β : Type} (m : NameMap β) (dn : Dn) : List (Dn × β) :=
  (m.entries.filter fun e => e.1.same dn) ++ m.entries.filter fun e => e.1.isDescendantOf dn

/-- The entries top first are all that is held within the name. -/
theorem NameMap.mem_topFirst {β : Type} {m : NameMap β} {dn : Dn} {e : Dn × β} :
    e ∈ m.topFirst dn ↔ e ∈ m.entries ∧ e.1.isWithin dn = true := by
  rw [topFirst, List.mem_append, List.mem_filter, List.mem_filter, Dn.same_iff,
    Dn.isDescendantOf_iff, Dn.isWithin_iff]
  constructor
  · rintro (⟨he, hkey⟩ | ⟨he, hin, -⟩)
    · exact ⟨he, hkey ▸ List.suffix_rfl⟩
    · exact ⟨he, hin⟩
  · rintro ⟨he, hin⟩
    by_cases hkey : e.1.key = dn.key
    · exact Or.inl ⟨he, hkey⟩
    · exact Or.inr ⟨he, hin, Ne.symm hkey⟩

/-- No name comes twice among the entries top first. -/
theorem NameMap.topFirst_distinct {β : Type} (m : NameMap β) (dn : Dn) :
    (m.topFirst dn).Pairwise fun d e => d.1.key ≠ e.1.key := by
  refine List.pairwise_append.mpr ⟨m.distinct.filter _, m.distinct.filter _, ?_⟩
  intro d hd e he
  rw [List.mem_filter, Dn.same_iff] at hd
  rw [List.mem_filter, Dn.isDescendantOf_iff] at he
  rw [hd.2]
  exact he.2.2

/-- Where the name itself is held, its entry comes first and those below it follow. -/
theorem NameMap.topFirst_of_some {β : Type} {m : NameMap β} {dn : Dn} {v : β}
    (h : m.get? dn = some v) :
    ∃ k, k.key = dn.key
      ∧ m.topFirst dn = (k, v) :: m.entries.filter fun e => e.1.isDescendantOf dn := by
  obtain ⟨k, hk, hkey⟩ := mem_of_get? m h
  refine ⟨k, hkey, ?_⟩
  have hmem : (k, v) ∈ m.entries.filter fun e => e.1.same dn :=
    List.mem_filter.mpr ⟨hk, (Dn.same_iff k dn).mpr hkey⟩
  have hone : (m.entries.filter fun e => e.1.same dn) = [(k, v)] := by
    refine (List.singleton_perm.mp ?_).symm
    refine (List.perm_ext_iff_of_nodup (List.pairwise_singleton _ _)
      ((m.distinct.filter _).imp fun hne he => hne (congrArg (fun e => e.1.key) he))).mpr ?_
    intro e
    rw [List.mem_singleton, List.mem_filter, Dn.same_iff]
    constructor
    · rintro rfl
      exact ⟨hk, hkey⟩
    · rintro ⟨he, hek⟩
      exact eq_of_key m he hk (hek.trans hkey.symm)
  rw [topFirst, hone, List.singleton_append]

/-- Where the name itself is not held, there are only the entries below it. -/
theorem NameMap.topFirst_of_none {β : Type} {m : NameMap β} {dn : Dn} (h : m.get? dn = none) :
    m.topFirst dn = m.entries.filter fun e => e.1.isDescendantOf dn := by
  have hnil : (m.entries.filter fun e => e.1.same dn) = [] := by
    refine List.filter_eq_nil_iff.mpr fun e he hsame => ?_
    rw [← get?_congr m ((Dn.same_iff e.1 dn).mp hsame), OrdMap.get?_of_mem m he] at h
    cases h
  rw [topFirst, hnil, List.nil_append]

/-- A name comes before another one if it is the given name itself, or the smaller of two
    others. -/
def Dn.Before (dn d e : Dn) : Prop := e.key ≠ dn.key ∧ (d.key = dn.key ∨ compare d e = .lt)

theorem Dn.Before.asymm {dn d e : Dn} (h : dn.Before d e) : ¬dn.Before e d := by
  obtain ⟨he, hde⟩ := h
  rintro ⟨hd, hed⟩
  have hlt := hde.resolve_left hd
  rw [Std.OrientedCmp.gt_of_lt (hed.resolve_left he)] at hlt
  cases hlt

/-- The order does not look at how names are written. -/
theorem Dn.Before.congr {dn d e d' e' : Dn} (h : dn.Before d e) (hd : d.key = d'.key)
    (he : e.key = e'.key) : dn.Before d' e' := by
  rw [Before, ← hd, ← he, ← Std.TransCmp.congr_left ((compare_eq_iff d d').mpr hd),
    ← Std.TransCmp.congr_right ((compare_eq_iff e e').mpr he)]
  exact h

/-- What is held within a name stands in this order, whatever is held. -/
theorem NameMap.topFirst_before {β : Type} (m : NameMap β) (dn : Dn) :
    (m.topFirst dn).Pairwise fun d e => dn.Before d.1 e.1 := by
  have hbelow : ∀ {e : Dn × β}, (e ∈ m.entries.filter fun e => e.1.isDescendantOf dn) →
      e.1.key ≠ dn.key := by
    intro e he
    rw [List.mem_filter, Dn.isDescendantOf_iff] at he
    exact Ne.symm he.2.2
  have hself : ∀ {e : Dn × β}, (e ∈ m.entries.filter fun e => e.1.same dn) →
      e.1.key = dn.key := by
    intro e he
    rw [List.mem_filter, Dn.same_iff] at he
    exact he.2
  refine List.pairwise_append.mpr ⟨?_, ?_, fun d hd e he => ⟨hbelow he, Or.inl (hself hd)⟩⟩
  · refine (m.distinct.filter _).imp_of_mem fun {d e} hd he hne => ?_
    exact absurd ((hself hd).trans (hself he).symm) hne
  · exact (m.ordered.filter _).imp_of_mem fun {d e} _ he hlt => ⟨hbelow he, Or.inr hlt⟩

/-- An order in which entries take their turns: no two of them come before each other,
    however their names are written. -/
structure Dn.Turns (before : Dn → Dn → Prop) : Prop where
  asymm : ∀ {d e}, before d e → ¬before e d
  congr : ∀ {d e d' e' : Dn}, before d e → d.key = d'.key → e.key = e'.key → before d' e'

/-- The order in which a subtree is taken along, its top first, gives turns. -/
theorem Dn.turns_before (dn : Dn) : Turns dn.Before := ⟨Before.asymm, Before.congr⟩

/-- The order of the names gives turns. -/
theorem Dn.turns_lt : Turns fun d e => compare d e = .lt := by
  refine ⟨fun hde hed => ?_, fun hde hd he => ?_⟩
  · rw [Std.OrientedCmp.gt_of_lt hde] at hed
    cases hed
  · rw [← Std.TransCmp.congr_left ((compare_eq_iff _ _).mpr hd),
      ← Std.TransCmp.congr_right ((compare_eq_iff _ _).mpr he)]
    exact hde

section

variable {β : Type} {before : Dn → Dn → Prop} (h : Dn.Turns before) {l : List (Dn × β)}
  (hl : l.Pairwise fun d e => before d.1 e.1)

include h hl

/-- What is true of all that stands in this order is true of any two that do. -/
theorem Dn.Turns.forall_pairwise {P : Dn × β → Dn × β → Prop} (hP : l.Pairwise P)
    {d e : Dn × β} (hd : d ∈ l) (he : e ∈ l) (hde : before d.1 e.1) : P d e := by
  let R : Dn × β → Dn × β → Prop := fun d e => before d.1 e.1 → P d e
  have hflip : l.Pairwise (flip R) :=
    hl.imp fun {d e} hbefore hafter => absurd hafter (h.asymm hbefore)
  have hR : l.Pairwise R := hP.imp fun {d e} (hP : P d e) (_ : before d.1 e.1) => hP
  refine List.Pairwise.forall_of_forall_of_flip (R := R) ?_ hR hflip hd he hde
  exact fun x _ hbefore => absurd hbefore (h.asymm hbefore)

/-- What stands in such an order has names that differ. -/
theorem Dn.Turns.distinct : l.Pairwise fun d e => d.1.key ≠ e.1.key :=
  hl.imp fun {_ _} hde hkey => h.asymm hde (h.congr hde hkey hkey.symm)

end

namespace Dn

theorem isWithin_of_rebase {d old new r : Dn} (h : d.rebase? old new = some r) :
    d.isWithin old = true := by
  cases hw : d.isWithin old with
  | true => rfl
  | false =>
      rw [rebase_of_not_within hw] at h
      cases h

/-- What stands before the old key in a name stands before the new one in the name it
    is rebased to. -/
theorem key_rebase {d old new r : Dn} (h : d.rebase? old new = some r) :
    ∃ rel, d.key = rel ++ old.key ∧ r.key = rel ++ new.key := by
  obtain ⟨rel, hrel⟩ := (isWithin_iff d old).mp (isWithin_of_rebase h)
  obtain ⟨r', hr', hkey⟩ := rebase_of_within hrel.symm new
  rw [h] at hr'
  cases hr'
  exact ⟨rel, hrel.symm, hkey⟩

/-- What is rebased is within the new name. -/
theorem isWithin_new_of_rebase {d old new r : Dn} (h : d.rebase? old new = some r) :
    r.isWithin new = true := by
  obtain ⟨rel, -, hkey⟩ := key_rebase h
  exact (isWithin_iff r new).mpr ⟨rel, hkey.symm⟩

theorem isWithin_congr {x y : Dn} (h : x.key = y.key) (base : Dn) :
    x.isWithin base = y.isWithin base := by
  rw [Bool.eq_iff_iff, isWithin_iff, isWithin_iff, h]

theorem isWithin_congr_base {a b : Dn} (h : a.key = b.key) (x : Dn) :
    x.isWithin a = x.isWithin b := by
  rw [Bool.eq_iff_iff, isWithin_iff, isWithin_iff, h]

/-- A name is strictly below another one in every spelling of both. -/
theorem isDescendantOf_congr {x y : Dn} (h : x.key = y.key) (base : Dn) :
    x.isDescendantOf base = y.isDescendantOf base := by
  rw [Bool.eq_iff_iff, isDescendantOf_iff, isDescendantOf_iff, h]

theorem isDescendantOf_congr_base {a b : Dn} (h : a.key = b.key) (x : Dn) :
    x.isDescendantOf a = x.isDescendantOf b := by
  rw [Bool.eq_iff_iff, isDescendantOf_iff, isDescendantOf_iff, h]

/-- Spellings of a name are rebased to spellings of one name. -/
theorem rebase_congr {a b old new r : Dn} (h : a.key = b.key)
    (hr : a.rebase? old new = some r) : ∃ s, b.rebase? old new = some s ∧ s.key = r.key := by
  obtain ⟨rel, hrel, hrkey⟩ := key_rebase hr
  obtain ⟨s, hs, hskey⟩ := rebase_of_within (h.symm.trans hrel) new
  exact ⟨s, hs, hskey.trans hrkey.symm⟩

/-- Names that are rebased to the same name are the same. -/
theorem key_of_rebase {a b old new r s : Dn} (ha : a.rebase? old new = some r)
    (hb : b.rebase? old new = some s) (h : r.key = s.key) : a.key = b.key := by
  obtain ⟨rel, hrel, hr⟩ := key_rebase ha
  obtain ⟨rel', hrel', hs⟩ := key_rebase hb
  rw [hr, hs] at h
  rw [hrel, hrel', List.append_cancel_right h]

/-- The old name itself is rebased to the new one. -/
theorem rebase_self {k dn : Dn} (h : k.key = dn.key) (new : Dn) :
    k.rebase? dn new = some new := by
  have hw : k.isWithin dn = true := isWithin_of_key h
  have hlen : k.depth - dn.depth = 0 := by
    rw [← length_key, ← length_key, h]
    omega
  rw [rebase?, relativeTo?, if_pos hw, hlen]
  rfl

end Dn

section

variable {β : Type} (adapt : Dn → Dn → β → β) (old new : Dn)

/-- Take one entry along to its place within `new`.  `adapt` is told both names. -/
def carry (m : NameMap β) (e : Dn × β) : NameMap β :=
  match e.1.rebase? old new with
  | some r => (m.erase e.1).insert r (adapt e.1 r e.2)
  | none => m.erase e.1

/-- Take entries along one after the other. -/
def carryAll (l : List (Dn × β)) (m : NameMap β) : NameMap β :=
  l.foldl (carry adapt old new) m

variable {adapt old new}

theorem carry_of_rebase (m : NameMap β) {e : Dn × β} {r : Dn}
    (hr : e.1.rebase? old new = some r) :
    carry adapt old new m e = (m.erase e.1).insert r (adapt e.1 r e.2) := by
  rw [carry, hr]

/-- What is held once one entry has been taken along: the entry where it lands, nothing
    where it stood, and what was held elsewhere. -/
theorem get?_carry_of_rebase (m : NameMap β) {e : Dn × β} {r : Dn}
    (hr : e.1.rebase? old new = some r) (x : Dn) :
    (carry adapt old new m e).get? x =
      if x.key = r.key then some (adapt e.1 r e.2)
      else if e.1.key = x.key then none else m.get? x := by
  rw [carry_of_rebase m hr]
  exact (NameMap.get?_insert ..).trans (by rw [NameMap.get?_erase])

/-- An entry without a place to land is taken away. -/
theorem get?_carry_of_none (m : NameMap β) {e : Dn × β}
    (hr : e.1.rebase? old new = none) (x : Dn) :
    (carry adapt old new m e).get? x = if e.1.key = x.key then none else m.get? x := by
  rw [carry, hr]
  exact NameMap.get?_erase ..

/-- Whatever is held afterwards was held there before and has not been left, or has
    come from a name that is rebased to this one. -/
theorem carryAll_origin {l : List (Dn × β)} {m : NameMap β} {x : Dn} {v : β}
    (h : (carryAll adapt old new l m).get? x = some v) :
    (m.get? x = some v ∧ ∀ e ∈ l, e.1.key ≠ x.key)
      ∨ ∃ e ∈ l, ∃ r, e.1.rebase? old new = some r ∧ r.key = x.key
        ∧ v = adapt e.1 r e.2 := by
  induction l generalizing m with
  | nil => exact Or.inl ⟨h, fun _ he => absurd he List.not_mem_nil⟩
  | cons d rest ih =>
      rcases ih h with ⟨hm, hrest⟩ | ⟨e, he, r, hr, hkey, hv⟩
      · have hold : (if d.1.key = x.key then none else m.get? x) = some v →
            (m.get? x = some v ∧ ∀ e ∈ d :: rest, e.1.key ≠ x.key) := by
          intro ho
          by_cases hd : d.1.key = x.key
          · rw [if_pos hd] at ho
            cases ho
          · rw [if_neg hd] at ho
            exact ⟨ho, List.forall_mem_cons.mpr ⟨hd, hrest⟩⟩
        cases hr : d.1.rebase? old new with
        | none =>
            rw [get?_carry_of_none m hr] at hm
            exact Or.inl (hold hm)
        | some r =>
            rw [get?_carry_of_rebase m hr] at hm
            by_cases hx : x.key = r.key
            · rw [if_pos hx] at hm
              exact Or.inr ⟨d, List.mem_cons_self .., r, hr, hx.symm, (Option.some.inj hm).symm⟩
            · rw [if_neg hx] at hm
              exact Or.inl (hold hm)
      · exact Or.inr ⟨e, List.mem_cons_of_mem _ he, r, hr, hkey, hv⟩

/-- A name that is neither left nor landed on holds what it held. -/
theorem carryAll_frame {l : List (Dn × β)} (m : NameMap β) {x : Dn}
    (hleft : ∀ e ∈ l, e.1.key ≠ x.key)
    (hlanded : ∀ e ∈ l, ∀ r, e.1.rebase? old new = some r → r.key ≠ x.key) :
    (carryAll adapt old new l m).get? x = m.get? x := by
  induction l generalizing m with
  | nil => rfl
  | cons d rest ih =>
      obtain ⟨hd, hleft⟩ := List.forall_mem_cons.mp hleft
      obtain ⟨hr, hlanded⟩ := List.forall_mem_cons.mp hlanded
      have hstep : (carry adapt old new m d).get? x = m.get? x := by
        cases hreb : d.1.rebase? old new with
        | none => rw [get?_carry_of_none m hreb, if_neg hd]
        | some r =>
            rw [get?_carry_of_rebase m hreb, if_neg (Ne.symm (hr r hreb)), if_neg hd]
      exact (ih (carry adapt old new m d) hleft hlanded).trans hstep

/-- Taking entries along to another spelling of the old name leaves what is held. -/
theorem carryAll_respelled {l : List (Dn × β)} {m : NameMap β} (hsame : new.key = old.key)
    (hl : ∀ e ∈ l, e.1.isWithin old = true ∧ m.get? e.1 = some e.2) (x : Dn) :
    (carryAll (fun _ _ v => v) old new l m).get? x = m.get? x := by
  induction l generalizing m with
  | nil => rfl
  | cons d rest ih =>
      obtain ⟨⟨hin, hd⟩, hrest⟩ := List.forall_mem_cons.mp hl
      obtain ⟨rel, hrel⟩ := (Dn.isWithin_iff d.1 old).mp hin
      obtain ⟨r, hr, hrkey⟩ := Dn.rebase_of_within hrel.symm new
      have hback : r.key = d.1.key := by rw [hrkey, hsame, hrel]
      have hstep : ∀ x, (carry (fun _ _ v => v) old new m d).get? x = m.get? x := by
        intro x
        rw [get?_carry_of_rebase m hr, hback]
        by_cases hx : x.key = d.1.key
        · rw [if_pos hx, NameMap.get?_congr m hx, hd]
        · rw [if_neg hx, if_neg (Ne.symm hx)]
      exact (ih fun e he => ⟨(hrest e he).1, (hstep e.1).trans (hrest e he).2⟩).trans (hstep x)

/-- What an entry is taken to is held there in the end, if nothing that follows it is taken
    away from there. -/
theorem carryAll_lands {l : List (Dn × β)} (m : NameMap β)
    (hdistinct : l.Pairwise fun d e => d.1.key ≠ e.1.key) {e : Dn × β} (he : e ∈ l)
    {r x : Dn} (hr : e.1.rebase? old new = some r) (hx : r.key = x.key)
    (hkept : l.Pairwise fun d d' => d.1.key = e.1.key → d'.1.key ≠ x.key) :
    (carryAll adapt old new l m).get? x = some (adapt e.1 r e.2) := by
  induction l generalizing m with
  | nil => cases he
  | cons d rest ih =>
      obtain ⟨hd, hrest⟩ := List.pairwise_cons.mp hdistinct
      obtain ⟨hfollowing, hkept'⟩ := List.pairwise_cons.mp hkept
      rcases List.mem_cons.mp he with rfl | he
      · have hframe : (carryAll adapt old new rest (carry adapt old new m e)).get? x
            = (carry adapt old new m e).get? x := by
          refine carryAll_frame _ (fun d hmem => hfollowing d hmem rfl) ?_
          intro d hmem r' hr' hk
          exact hd d hmem (Dn.key_of_rebase hr hr' (hx.trans hk.symm))
        refine hframe.trans ?_
        rw [get?_carry_of_rebase m hr, if_pos hx.symm]
      · exact ih _ hrest he hkept'

/-- Where something has landed, and something else is taken away from there afterwards,
    nothing is held in the end. -/
theorem carryAll_swept {l : List (Dn × β)} (m : NameMap β)
    (hdistinct : l.Pairwise fun d e => d.1.key ≠ e.1.key) {d e : Dn × β}
    (hde : [d, e].Sublist l) {r x : Dn} (hr : d.1.rebase? old new = some r)
    (hd : r.key = x.key) (he : e.1.key = x.key) : (carryAll adapt old new l m).get? x = none := by
  obtain ⟨done, todo, rfl, hmem, hlater⟩ := List.cons_sublist_iff.mp hde
  have hlater := List.singleton_sublist.mp hlater
  refine Option.eq_none_iff_forall_ne_some.mpr fun v hv => ?_
  rw [carryAll, List.foldl_append] at hv
  rcases carryAll_origin hv with ⟨-, hleft⟩ | ⟨e', he', r', hr', hkey', -⟩
  · exact hleft e hlater he
  · exact (List.pairwise_append.mp hdistinct).2.2 d hmem e' he'
      (Dn.key_of_rebase hr hr' (hd.trans hkey'.symm))

/-- Where everything within the old name is taken along, what is held afterwards has come
    from the old name and nothing that follows it is taken away from there, or it was held
    outside of the old name and nothing has landed on it. -/
theorem get?_carryAll {l : List (Dn × β)} {m : NameMap β}
    (hl : ∀ e, e ∈ l ↔ e ∈ m.entries ∧ e.1.isWithin old = true)
    (hdistinct : l.Pairwise fun d e => d.1.key ≠ e.1.key) {x : Dn} {v : β} :
    (carryAll adapt old new l m).get? x = some v
      ↔ (x.isWithin old = false ∧ m.get? x = some v
          ∧ ∀ e ∈ l, ∀ r, e.1.rebase? old new = some r → r.key ≠ x.key)
        ∨ ∃ e ∈ l, ∃ r, e.1.rebase? old new = some r ∧ r.key = x.key
          ∧ v = adapt e.1 r e.2
          ∧ l.Pairwise fun d d' => d.1.key = e.1.key → d'.1.key ≠ x.key := by
  constructor
  · intro h
    rcases carryAll_origin h with ⟨hm, hleft⟩ | ⟨e, he, r, hr, hx, rfl⟩
    · by_cases hland : ∃ e ∈ l, ∃ r, e.1.rebase? old new = some r ∧ r.key = x.key
      · obtain ⟨e, he, r, hr, hx⟩ := hland
        have hkept : l.Pairwise fun d d' => d.1.key = e.1.key → d'.1.key ≠ x.key :=
          hdistinct.imp_of_mem fun {_ d'} _ hd' _ _ => hleft d' hd'
        exact Or.inr ⟨e, he, r, hr, hx,
          Option.some.inj (h.symm.trans (carryAll_lands m hdistinct he hr hx hkept)), hkept⟩
      · refine Or.inl ⟨?_, hm, fun e he r hr hx => hland ⟨e, he, r, hr, hx⟩⟩
        obtain ⟨k, hk, hkey⟩ := NameMap.mem_of_get? m hm
        rw [← Bool.not_eq_true]
        intro hw
        rw [← Dn.isWithin_congr hkey] at hw
        exact hleft _ ((hl (k, v)).mpr ⟨hk, hw⟩) hkey
    · refine Or.inr ⟨e, he, r, hr, hx, rfl, ?_⟩
      refine List.pairwise_iff_forall_sublist.mpr fun {d d'} hdd hd hd' => ?_
      obtain ⟨s, hs, hskey⟩ := Dn.rebase_congr hd.symm hr
      rw [carryAll_swept m hdistinct hdd hs (hskey.trans hx) hd'] at h
      cases h
  · rintro (⟨hout, hm, hnone⟩ | ⟨e, he, r, hr, hx, rfl, hkept⟩)
    · refine (carryAll_frame m ?_ hnone).trans hm
      intro e he hkey
      rw [← Dn.isWithin_congr hkey, ((hl e).mp he).2] at hout
      cases hout
    · exact carryAll_lands m hdistinct he hr hx hkept

variable (old new) in
/-- No entry is taken to a name from which a later one is still to be taken. -/
def InTurn (l : List (Dn × β)) : Prop :=
  l.Pairwise fun d e => ∀ r, d.1.rebase? old new = some r → r.key ≠ e.1.key

/-- Where everything within the old name is taken along in turn, what is held afterwards
    has come from the old name, or it was held outside of it and nothing has landed on
    it. -/
theorem get?_carryAll_iff {l : List (Dn × β)} {m : NameMap β}
    (hl : ∀ e, e ∈ l ↔ e ∈ m.entries ∧ e.1.isWithin old = true)
    (hdistinct : l.Pairwise fun d e => d.1.key ≠ e.1.key)
    (hturn : InTurn old new l) {x : Dn} {v : β} :
    (carryAll adapt old new l m).get? x = some v
      ↔ (x.isWithin old = false ∧ m.get? x = some v
          ∧ ∀ e ∈ l, ∀ r, e.1.rebase? old new = some r → r.key ≠ x.key)
        ∨ ∃ e ∈ l, ∃ r, e.1.rebase? old new = some r ∧ r.key = x.key
          ∧ v = adapt e.1 r e.2 := by
  rw [get?_carryAll hl hdistinct]
  refine or_congr_right (exists_congr fun e => and_congr_right fun _ => exists_congr fun r => ?_)
  refine and_congr_right fun hr => and_congr_right fun hx => and_iff_left ?_
  refine hturn.imp fun {d d'} hland hde hk => ?_
  obtain ⟨r', hr', hrkey⟩ := Dn.rebase_congr hde.symm hr
  exact hland r' hr' (hrkey.trans (hx.trans hk.symm))

/-- Nothing that is held within the old name is within the new one as well, or both
    names are the same. -/
def Apart (m : NameMap β) (old new : Dn) : Prop :=
  new.key = old.key ∨ ∀ e ∈ m.entries, e.1.isWithin old = true → e.1.isWithin new = false

/-- From names that are apart entries are taken along in any turn. -/
theorem Apart.inTurn {l : List (Dn × β)} {m : NameMap β}
    (hl : ∀ e, e ∈ l ↔ e ∈ m.entries ∧ e.1.isWithin old = true)
    (hdistinct : l.Pairwise fun d e => d.1.key ≠ e.1.key) (h : Apart m old new) :
    InTurn old new l := by
  refine hdistinct.imp_of_mem fun {d e} _ he hne r hr hkey => ?_
  rcases h with hsame | hapart
  · obtain ⟨rel, hrel, hrkey⟩ := Dn.key_rebase hr
    rw [hkey, hsame, ← hrel] at hrkey
    exact hne hrkey.symm
  · obtain ⟨hmem, hold⟩ := (hl e).mp he
    have hnew := hapart e hmem hold
    rw [← Dn.isWithin_congr hkey, Dn.isWithin_new_of_rebase hr] at hnew
    cases hnew

/-- Nothing is in the way of entries that are taken along: neither one of them that is
    still to be taken, nor anything that is held outside the old name. -/
structure ClearWay (old new : Dn) (l : List (Dn × β)) (m : NameMap β) : Prop where
  inTurn : InTurn old new l
  outside : ∀ d ∈ l, ∀ r, d.1.rebase? old new = some r →
    ∀ e ∈ m.entries, e.1.isWithin old = false → r.key ≠ e.1.key

/-- Along a clear way nothing that is held lands on anything that is held outside the old
    name. -/
theorem ClearWay.lands_apart {m : NameMap β} (h : ClearWay old new (m.topFirst old) m)
    {k r x : Dn} {v w : β} (hk : m.get? k = some v) (hr : k.rebase? old new = some r)
    (hx : m.get? x = some w) (hout : x.isWithin old = false) : r.key ≠ x.key := by
  obtain ⟨d, hd, hdk⟩ := NameMap.mem_of_get? m hk
  obtain ⟨y, hy, hyx⟩ := NameMap.mem_of_get? m hx
  obtain ⟨r', hr', hrkey⟩ := Dn.rebase_congr hdk.symm hr
  rw [← Dn.isWithin_congr hyx] at hout
  rw [← hrkey, ← hyx]
  exact h.outside (d, v) (NameMap.mem_topFirst.mpr ⟨hd, Dn.isWithin_of_rebase hr'⟩) r' hr'
    (y, w) hy hout

/-- A way that is clear for some names is clear for fewer of them. -/
theorem ClearWay.restrict {γ : Type} {m : NameMap β} {m' : NameMap γ}
    (h : ClearWay old new (m.topFirst old) m)
    (hkeys : ∀ x, m'.contains x = true → m.contains x = true) :
    ClearWay old new (m'.topFirst old) m' := by
  have hheld : ∀ e ∈ m'.entries, ∃ d ∈ m.entries, d.1.key = e.1.key := by
    intro e he
    obtain ⟨v, hv⟩ := (OrdMap.contains_iff ..).mp
      (hkeys e.1 ((OrdMap.contains_iff ..).mpr ⟨e.2, OrdMap.get?_of_mem m' he⟩))
    obtain ⟨k, hk, hkey⟩ := NameMap.mem_of_get? m hv
    exact ⟨(k, v), hk, hkey⟩
  have htaken : ∀ e ∈ m'.topFirst old, ∃ d ∈ m.topFirst old, d.1.key = e.1.key := by
    intro e he
    obtain ⟨hmem, hin⟩ := NameMap.mem_topFirst.mp he
    obtain ⟨d, hd, hkey⟩ := hheld e hmem
    rw [← Dn.isWithin_congr hkey] at hin
    exact ⟨d, NameMap.mem_topFirst.mpr ⟨hd, hin⟩, hkey⟩
  constructor
  · refine (m'.topFirst_before old).imp_of_mem fun {d e} hd he hde r hr => ?_
    obtain ⟨d', hd', hdk⟩ := htaken d hd
    obtain ⟨e', he', hek⟩ := htaken e he
    obtain ⟨r', hr', hrkey⟩ := Dn.rebase_congr hdk.symm hr
    rw [← hrkey, ← hek]
    exact (Dn.turns_before old).forall_pairwise (m.topFirst_before old) h.inTurn hd' he'
      (hde.congr hdk.symm hek.symm) r' hr'
  · intro d hd r hr e he hout
    obtain ⟨d', hd', hdk⟩ := htaken d hd
    obtain ⟨e', he', hek⟩ := hheld e he
    obtain ⟨r', hr', hrkey⟩ := Dn.rebase_congr hdk.symm hr
    rw [← Dn.isWithin_congr hek] at hout
    rw [← hrkey, ← hek]
    exact h.outside d' hd' r' hr' e' he' hout

/-- Along a clear way everything within the old name arrives, and everything outside of
    it stays. -/
theorem get?_carryAll_of_clear {l : List (Dn × β)} {m : NameMap β}
    (hl : ∀ e, e ∈ l ↔ e ∈ m.entries ∧ e.1.isWithin old = true)
    (hdistinct : l.Pairwise fun d e => d.1.key ≠ e.1.key)
    (hclear : ClearWay old new l m) {x : Dn} {v : β} :
    (carryAll adapt old new l m).get? x = some v
      ↔ (x.isWithin old = false ∧ m.get? x = some v)
        ∨ ∃ e ∈ l, ∃ r, e.1.rebase? old new = some r ∧ r.key = x.key
          ∧ v = adapt e.1 r e.2 := by
  rw [get?_carryAll_iff hl hdistinct hclear.inTurn]
  refine or_congr_left ⟨fun h => ⟨h.1, h.2.1⟩, ?_⟩
  rintro ⟨hout, hm⟩
  refine ⟨hout, hm, ?_⟩
  intro e he r hr hkey
  obtain ⟨k, hk, hkx⟩ := NameMap.mem_of_get? m hm
  rw [← Dn.isWithin_congr hkx] at hout
  exact hclear.outside e he r hr (k, v) hk hout (hkey.trans hkx.symm)

/-- Nothing is in the way below a name: it is the old name itself, or nothing is held
    within it. -/
def FreeGround (m : NameMap β) (old new : Dn) : Prop :=
  new.key = old.key ∨ ∀ e ∈ m.entries, e.1.isWithin new = false

/-- The way to free ground is clear. -/
theorem FreeGround.clearWay {l : List (Dn × β)} {m : NameMap β}
    (hl : ∀ e, e ∈ l ↔ e ∈ m.entries ∧ e.1.isWithin old = true)
    (hdistinct : l.Pairwise fun d e => d.1.key ≠ e.1.key) (h : FreeGround m old new) :
    ClearWay old new l m := by
  have hapart : Apart m old new := h.imp_right fun hempty e he _ => hempty e he
  refine ⟨hapart.inTurn hl hdistinct, fun d _ r hr e he hout hkey => ?_⟩
  have hnew : e.1.isWithin new = true := by
    rw [← Dn.isWithin_congr hkey]
    exact Dn.isWithin_new_of_rebase hr
  rcases h with hsame | hempty
  · rw [Dn.isWithin_congr_base hsame, hout] at hnew
    cases hnew
  · rw [hempty e he] at hnew
    cases hnew

/-- What is taken to free ground lands on nothing that was held outside the old name. -/
theorem get?_carryAll_of_free {l : List (Dn × β)} {m : NameMap β}
    (hl : ∀ e, e ∈ l ↔ e ∈ m.entries ∧ e.1.isWithin old = true)
    (hdistinct : l.Pairwise fun d e => d.1.key ≠ e.1.key)
    (hfree : FreeGround m old new) {x : Dn} {v : β} :
    (carryAll adapt old new l m).get? x = some v
      ↔ (x.isWithin old = false ∧ m.get? x = some v)
        ∨ ∃ e ∈ l, ∃ r, e.1.rebase? old new = some r ∧ r.key = x.key
          ∧ v = adapt e.1 r e.2 :=
  get?_carryAll_of_clear hl hdistinct (hfree.clearWay hl hdistinct)

end

-- ── What is in the way ───────────────────────────────────────────────────────────

namespace NameMap

section

variable {α β : Type} (m : NameMap β) (old new : Dn) (before : Dn → Dn → Prop)

/-- Something lands on a name. -/
def LandsOn (x : Dn) : Prop :=
  ∃ k, m.contains k = true ∧ ∃ r, k.rebase? old new = some r ∧ r.key = x.key

/-- What comes from one name to another is SWEPT away: something is held there that is to
    be taken along later. -/
def Sweeps (k x : Dn) : Prop := m.contains x = true ∧ x.isWithin old = true ∧ before k x

/-- What is left to tell under a name when all within the old one has been taken along.  A
    name outside tells what it told `here`, and loses it if something lands on the name;
    what lands tells what it told `there`, and loses it if it is swept away. -/
def Leaves (here : Dn → α → Prop) (there : Dn → Dn → α → Prop) (x : Dn) (a : α) : Prop :=
  (x.isWithin old = false ∧ ¬m.LandsOn old new x ∧ here x a)
    ∨ ∃ k r, k.rebase? old new = some r ∧ r.key = x.key ∧ ¬m.Sweeps old before k x ∧ there k r a

variable {m old new before}

theorem contains_of_mem {k : Dn} {v : β} (h : (k, v) ∈ m.entries) : m.contains k = true :=
  (OrdMap.contains_iff ..).mpr ⟨v, OrdMap.get?_of_mem m h⟩

section

variable (hturns : Dn.Turns before) {l : List (Dn × β)}
  (hl : ∀ e, e ∈ l ↔ e ∈ m.entries ∧ e.1.isWithin old = true)
  (hbefore : l.Pairwise fun d e => before d.1 e.1)

include hl

/-- Nothing that is taken along lands on a name exactly if nothing that is held does. -/
theorem not_landsOn_iff (x : Dn) :
    (∀ e ∈ l, ∀ r, e.1.rebase? old new = some r → r.key ≠ x.key) ↔ ¬m.LandsOn old new x := by
  constructor
  · rintro hnone ⟨k, hk, r, hr, hx⟩
    obtain ⟨v, hv⟩ := (OrdMap.contains_iff ..).mp hk
    obtain ⟨k', hk', hkey⟩ := mem_of_get? m hv
    obtain ⟨r', hr', hrkey⟩ := Dn.rebase_congr hkey.symm hr
    exact hnone _ ((hl (k', v)).mpr ⟨hk', Dn.isWithin_of_rebase hr'⟩) r' hr' (hrkey.trans hx)
  · exact fun hnone e he r hr hx => hnone ⟨e.1, contains_of_mem ((hl e).mp he).1, r, hr, hx⟩

include hturns hbefore

/-- Nothing that is taken along after an entry is taken away from where the entry lands
    exactly if the entry is not swept away. -/
theorem not_sweeps_iff {e : Dn × β} (he : e ∈ l) (x : Dn) :
    (l.Pairwise fun d d' => d.1.key = e.1.key → d'.1.key ≠ x.key)
      ↔ ¬m.Sweeps old before e.1 x := by
  constructor
  · rintro hkept ⟨hx, hin, hbefore'⟩
    obtain ⟨v, hv⟩ := (OrdMap.contains_iff ..).mp hx
    obtain ⟨k, hk, hkey⟩ := mem_of_get? m hv
    rw [← Dn.isWithin_congr hkey] at hin
    exact hturns.forall_pairwise hbefore hkept he ((hl (k, v)).mpr ⟨hk, hin⟩)
      (hturns.congr hbefore' rfl hkey.symm) rfl hkey
  · intro hnot
    refine hbefore.imp_of_mem fun {d d'} _ hd' hdd hd hx => hnot ?_
    obtain ⟨hmem, hin⟩ := (hl d').mp hd'
    refine ⟨?_, ?_, hturns.congr hdd hd hx⟩
    · rw [← contains_congr m hx]
      exact contains_of_mem hmem
    · rw [← Dn.isWithin_congr hx]
      exact hin

/-- What is told of what is held after entries have been taken along in their turns. -/
theorem leaves_carryAll {adapt : Dn → Dn → β → β} (T : β → α → Prop) (x : Dn) (a : α) :
    (∃ v, (carryAll adapt old new l m).get? x = some v ∧ T v a)
      ↔ m.Leaves old new before (fun x a => ∃ v, m.get? x = some v ∧ T v a)
          (fun k r a => ∃ v, (k, v) ∈ m.entries ∧ T (adapt k r v) a) x a := by
  simp only [get?_carryAll hl (hturns.distinct hbefore), Leaves, ← not_landsOn_iff hl]
  constructor
  · rintro ⟨v, ⟨hout, hv, hnone⟩ | ⟨e, he, r, hr, hx, rfl, hkept⟩, ha⟩
    · exact Or.inl ⟨hout, hnone, v, hv, ha⟩
    · exact Or.inr ⟨e.1, r, hr, hx, (not_sweeps_iff hturns hl hbefore he x).mp hkept, e.2,
        ((hl e).mp he).1, ha⟩
  · rintro (⟨hout, hnone, v, hv, ha⟩ | ⟨k, r, hr, hx, hnot, v, hk, ha⟩)
    · exact ⟨v, Or.inl ⟨hout, hv, hnone⟩, ha⟩
    · have he : (k, v) ∈ l := (hl (k, v)).mpr ⟨hk, Dn.isWithin_of_rebase hr⟩
      exact ⟨_, Or.inr ⟨(k, v), he, r, hr, hx, rfl,
        (not_sweeps_iff hturns hl hbefore he x).mpr hnot⟩, ha⟩

/-- A map of which one can tell the same wherever it lands. -/
theorem leaves_carryAll_same {C : Dn → α → Prop} {T : β → α → Prop}
    (hC : ∀ x a, C x a ↔ ∃ v, m.get? x = some v ∧ T v a) (x : Dn) (a : α) :
    (∃ v, (carryAll (fun _ _ v => v) old new l m).get? x = some v ∧ T v a)
      ↔ m.Leaves old new before C (fun k _ => C k) x a := by
  rw [leaves_carryAll hturns hl hbefore]
  refine or_congr (and_congr_right' (and_congr_right' (hC x a).symm)) ?_
  constructor
  · rintro ⟨k, r, hr, hx, hnot, v, hk, ha⟩
    exact ⟨k, r, hr, hx, hnot, (hC k a).mpr ⟨v, OrdMap.get?_of_mem m hk, ha⟩⟩
  · rintro ⟨k, r, hr, hx, hnot, ha⟩
    obtain ⟨v, hv, ha⟩ := (hC k a).mp ha
    obtain ⟨k', hk', hkey⟩ := mem_of_get? m hv
    obtain ⟨r', hr', hrkey⟩ := Dn.rebase_congr hkey.symm hr
    refine ⟨k', r', hr', hrkey.trans hx, fun hsweeps => hnot ?_, v, hk', ha⟩
    exact ⟨hsweeps.1, hsweeps.2.1, hturns.congr hsweeps.2.2 hkey rfl⟩

end

end

end NameMap

end DirectoryAccess
