import DirectoryAccess.Ordered.Map

/-! # Ordered maps — what a change does to what is held

    Every operation on a map is known by what it does to `get?`.  Keys that compare
    equal hold one value, so `get?` does not see which of them is written in the
    map. -/

namespace DirectoryAccess

universe u v

variable {κ : Type u} {β : Type v} [Ord κ]

theorem isEq_eq_false_iff {o : Ordering} : o.isEq = false ↔ o ≠ .eq := by
  cases o <;> decide

-- ── Lists of entries ─────────────────────────────────────────────────────────────

/-- The value under a key in a list of entries. -/
def valueIn (l : List (κ × β)) (k : κ) : Option β :=
  (l.find? fun e => (compare k e.1).isEq).map (·.2)

/-- A list is searched from its front. -/
theorem valueIn_cons (e : κ × β) (l : List (κ × β)) (k : κ) :
    valueIn (e :: l) k = if compare k e.1 = .eq then some e.2 else valueIn l k := by
  rw [valueIn, List.find?_cons]
  by_cases h : compare k e.1 = .eq
  · rw [if_pos h, h]
    rfl
  · rw [if_neg h, isEq_eq_false_iff.mpr h]
    rfl

variable [Std.TransOrd κ]

/-- An insertion is seen under its own key and nowhere else. -/
theorem valueIn_insertEntry (k x : κ) (v : β) (l : List (κ × β)) :
    valueIn (insertEntry k v l) x = if compare x k = .eq then some v else valueIn l x := by
  induction l with
  | nil =>
      rw [insertEntry, valueIn_cons]
  | cons e rest ih =>
      rw [insertEntry]
      cases hk : compare k e.1 with
      | lt =>
          show valueIn ((k, v) :: e :: rest) x = _
          rw [valueIn_cons]
      | eq =>
          show valueIn ((e.1, v) :: rest) x = _
          rw [valueIn_cons, valueIn_cons, Std.TransCmp.congr_right hk]
          split <;> rfl
      | gt =>
          show valueIn (e :: insertEntry k v rest) x = _
          rw [valueIn_cons, valueIn_cons, ih]
          by_cases hx : compare x k = .eq
          · have hne : compare x e.1 ≠ .eq := by
              rw [Std.TransCmp.congr_left hx, hk]
              decide
            rw [if_neg hne, if_pos hx, if_pos hx]
          · rw [if_neg hx, if_neg hx]

/-- Taking a key out of a list of entries takes away what is under it. -/
theorem valueIn_filter_ne (k x : κ) (l : List (κ × β)) :
    valueIn (l.filter fun e => !(compare k e.1).isEq) x
      = if compare k x = .eq then none else valueIn l x := by
  induction l with
  | nil =>
      show none = _
      split <;> rfl
  | cons e rest ih =>
      rw [List.filter_cons]
      by_cases hk : compare k e.1 = .eq
      · rw [hk, valueIn_cons]
        show valueIn (rest.filter _) x = _
        rw [ih]
        by_cases hx : compare k x = .eq
        · rw [if_pos hx, if_pos hx]
        · have hne : compare x e.1 ≠ .eq := by
            intro he
            exact hx (Std.TransCmp.eq_trans hk (Std.OrientedCmp.eq_symm he))
          rw [if_neg hx, if_neg hx, if_neg hne]
      · rw [isEq_eq_false_iff.mpr hk]
        show valueIn (e :: rest.filter _) x = _
        rw [valueIn_cons, valueIn_cons, ih]
        by_cases hx : compare k x = .eq
        · have hne : compare x e.1 ≠ .eq := by
            intro he
            exact hk (Std.TransCmp.eq_trans hx he)
          rw [if_neg hne, if_pos hx, if_pos hx]
        · rw [if_neg hx, if_neg hx]

/-- In a list whose keys increase, every entry is the value under its key. -/
theorem valueIn_of_mem {l : List (κ × β)}
    (h : l.Pairwise (fun x y => compare x.1 y.1 = .lt)) {k : κ} {v : β}
    (hm : (k, v) ∈ l) : valueIn l k = some v := by
  induction l with
  | nil => cases hm
  | cons e rest ih =>
      rw [valueIn_cons]
      rcases List.mem_cons.mp hm with rfl | hr
      · rw [if_pos Std.ReflCmp.compare_self]
      · have hlt : compare e.1 k = .lt := (List.pairwise_cons.mp h).1 _ hr
        have hne : compare k e.1 ≠ .eq := by
          intro he
          rw [Std.OrientedCmp.eq_symm he] at hlt
          cases hlt
        rw [if_neg hne]
        exact ih (List.pairwise_cons.mp h).2 hr

omit [Std.TransOrd κ] in
/-- Under a key that comes before all others nothing is held. -/
theorem valueIn_eq_none_of_lt {l : List (κ × β)} {k : κ} (h : ∀ e ∈ l, compare k e.1 = .lt) :
    valueIn l k = none := by
  induction l with
  | nil => rfl
  | cons e rest ih =>
      obtain ⟨he, hrest⟩ := List.forall_mem_cons.mp h
      have hne : compare k e.1 ≠ .eq := by
        rw [he]
        decide
      rw [valueIn_cons, if_neg hne, ih hrest]

-- ── Maps ─────────────────────────────────────────────────────────────────────────

namespace OrdMap

theorem get?_congr (m : OrdMap κ β) {k x : κ} (h : compare k x = .eq) :
    m.get? k = m.get? x := by
  have hf : (fun e : κ × β => (compare k e.1).isEq) = fun e => (compare x e.1).isEq := by
    funext e
    rw [Std.TransCmp.congr_left h]
  rw [get?, get?, hf]

/-- Under the key of an insertion there is its value, elsewhere what there was. -/
theorem get?_insert (m : OrdMap κ β) (k x : κ) (v : β) :
    (m.insert k v).get? x = if compare x k = .eq then some v else m.get? x :=
  valueIn_insertEntry k x v m.entries

@[simp] theorem get?_insert_self (m : OrdMap κ β) (k : κ) (v : β) :
    (m.insert k v).get? k = some v := by
  rw [get?_insert, if_pos Std.ReflCmp.compare_self]

/-- Under the key of a removal there is nothing, elsewhere what there was. -/
theorem get?_erase (m : OrdMap κ β) (k x : κ) :
    (m.erase k).get? x = if compare k x = .eq then none else m.get? x :=
  valueIn_filter_ne k x m.entries

@[simp] theorem get?_erase_self (m : OrdMap κ β) (k : κ) : (m.erase k).get? k = none := by
  rw [get?_erase, if_pos Std.ReflCmp.compare_self]

/-- Entries that are put in one after the other, their keys increasing, are all held. -/
theorem get?_insertAll (m : OrdMap κ β) {es : List (κ × β)}
    (h : es.Pairwise (fun x y => compare x.1 y.1 = .lt)) (k : κ) :
    (m.insertAll es).get? k = (valueIn es k).or (m.get? k) := by
  induction es generalizing m with
  | nil => rfl
  | cons e rest ih =>
      obtain ⟨he, hrest⟩ := List.pairwise_cons.mp h
      have hstep : m.insertAll (e :: rest) = (m.insert e.1 e.2).insertAll rest := rfl
      rw [hstep, ih (m.insert e.1 e.2) hrest, get?_insert, valueIn_cons]
      by_cases hk : compare k e.1 = .eq
      · have hnone : valueIn rest k = none := by
          refine valueIn_eq_none_of_lt fun d hd => ?_
          rw [Std.TransCmp.congr_left hk]
          exact he d hd
        rw [if_pos hk, if_pos hk, hnone]
        rfl
      · rw [if_neg hk, if_neg hk]

/-- Every entry of a map is held under its key. -/
theorem get?_of_mem (m : OrdMap κ β) {k : κ} {v : β} (h : (k, v) ∈ m.entries) :
    m.get? k = some v :=
  valueIn_of_mem m.ordered h

omit [Std.TransOrd κ] in
/-- A value is held because of an entry, whose key may be written in another way. -/
theorem mem_of_get? (m : OrdMap κ β) {k : κ} {v : β} (h : m.get? k = some v) :
    ∃ x, (x, v) ∈ m.entries ∧ compare k x = .eq := by
  obtain ⟨e, he, rfl⟩ := Option.map_eq_some_iff.mp h
  have hk : compare k e.1 = .eq := by simpa using List.find?_some he
  exact ⟨e.1, List.mem_of_find?_eq_some he, hk⟩

omit [Std.TransOrd κ] in
theorem contains_iff (m : OrdMap κ β) (k : κ) :
    m.contains k = true ↔ ∃ v, m.get? k = some v :=
  Option.isSome_iff_exists

omit [Std.TransOrd κ] in
theorem contains_eq_false_iff (m : OrdMap κ β) (k : κ) :
    m.contains k = false ↔ m.get? k = none := by
  rw [contains, ← Bool.not_eq_true, Option.not_isSome_iff_eq_none]

/-- An insertion brings at most one more key that passes a test. -/
theorem length_filter_keys_insert_le (m : OrdMap κ β) (k : κ) (v : β)
    (p : κ → Bool) :
    ((m.insert k v).keys.filter p).length ≤ (m.keys.filter p).length + 1 := by
  show (((insertEntry k v m.entries).map _).filter p).length ≤ _
  rw [keys]
  induction m.entries with
  | nil => exact List.length_filter_le ..
  | cons e rest ih =>
      rw [insertEntry]
      split
      · rw [List.map_cons, List.filter_cons]
        split
        · exact Nat.le_refl _
        · exact Nat.le_succ _
      · exact Nat.le_succ _
      · rw [List.map_cons, List.map_cons, List.filter_cons, List.filter_cons]
        split
        · exact Nat.succ_le_succ ih
        · exact ih

-- ── Keys with one written form ───────────────────────────────────────────────────

variable [Std.LawfulEqOrd κ]

/-- Where only a key compares equal to itself, what is held under it is one of the
    entries. -/
theorem get?_eq_some_iff (m : OrdMap κ β) (k : κ) (v : β) :
    m.get? k = some v ↔ (k, v) ∈ m.entries := by
  refine ⟨fun h => ?_, m.get?_of_mem⟩
  obtain ⟨x, hx, hk⟩ := m.mem_of_get? h
  rw [Std.LawfulEqCmp.eq_of_compare hk]
  exact hx

/-- Maps that hold the same under every key are equal. -/
theorem eq_of_get? {m n : OrdMap κ β} (h : ∀ k, m.get? k = n.get? k) : m = n := by
  have hself : ∀ k : κ, compare k k = .eq := fun _ => Std.ReflCmp.compare_self
  have hne : ∀ m : OrdMap κ β, m.entries.Nodup := fun m => m.ordered.imp fun {d e} hlt hde => by
    rw [hde, hself] at hlt
    cases hlt
  refine ext (List.Perm.eq_of_pairwise (fun d e _ _ hde hed => ?_) m.ordered n.ordered
    ((List.perm_ext_iff_of_nodup (hne m) (hne n)).mpr fun e => ?_))
  · rw [Std.OrientedCmp.gt_of_lt hde] at hed
    cases hed
  · rw [← get?_eq_some_iff, ← get?_eq_some_iff, h]

/-- A map is made again from its own entries. -/
theorem insertAll_entries (m : OrdMap κ β) : (empty : OrdMap κ β).insertAll m.entries = m := by
  refine eq_of_get? fun k => ?_
  rw [get?_insertAll empty m.ordered]
  exact Option.or_none

/-- What is left of a value is what is made of it under its key. -/
theorem get?_filterMap (m : OrdMap κ β) (f : κ → β → Option β) (k : κ) :
    (m.filterMap f).get? k = (m.get? k).bind (f k) := by
  refine Option.ext fun v => ?_
  rw [get?_eq_some_iff, Option.bind_eq_some_iff]
  constructor
  · intro h
    obtain ⟨e, he, hv⟩ := List.mem_filterMap.mp h
    obtain ⟨v', hv', heq⟩ := Option.map_eq_some_iff.mp hv
    cases heq
    exact ⟨e.2, m.get?_of_mem he, hv'⟩
  · rintro ⟨v', hget, hv'⟩
    refine List.mem_filterMap.mpr ⟨(k, v'), (m.get?_eq_some_iff k v').mp hget, ?_⟩
    rw [hv']
    rfl

end OrdMap

end DirectoryAccess
