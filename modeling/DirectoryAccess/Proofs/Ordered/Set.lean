import DirectoryAccess.Ordered.Set
import DirectoryAccess.Proofs.Ordered.Map
import Mathlib.Data.List.Perm.Basic

/-! # Ordered sets — what a change does to what is contained

    Every operation on a set is known by what it does to `contains`.  As for maps,
    elements that compare equal are one element, however they are written. -/

namespace DirectoryAccess

universe u

variable {α : Type u} [Ord α]

namespace OrdSet

theorem contains_iff (s : OrdSet α) (a : α) :
    s.contains a = true ↔ ∃ x ∈ s.toList, compare a x = .eq := by
  simp only [contains, List.any_eq_true, Ordering.isEq_iff_eq_eq]

@[simp] theorem contains_empty (a : α) : (empty : OrdSet α).contains a = false := rfl

variable [Std.TransOrd α]

/-- What an insertion puts into a list, up to how it is written. -/
theorem exists_mem_insertInOrder (a x : α) (l : List α) :
    (∃ y ∈ insertInOrder a l, compare x y = .eq)
      ↔ compare x a = .eq ∨ ∃ y ∈ l, compare x y = .eq := by
  induction l with
  | nil => simp [insertInOrder]
  | cons b rest ih =>
      rw [insertInOrder]
      cases hb : compare a b with
      | lt => simp
      | eq =>
          simp only [List.mem_cons, exists_eq_or_imp, Std.TransCmp.congr_right hb]
          exact or_self_left.symm
      | gt =>
          simp only [List.mem_cons, exists_eq_or_imp, ih]
          exact or_left_comm

/-- After an insertion a set contains what was inserted, and what it contained. -/
theorem contains_insert (s : OrdSet α) (a x : α) :
    (s.insert a).contains x = true ↔ compare x a = .eq ∨ s.contains x = true := by
  rw [contains_iff, contains_iff]
  exact exists_mem_insertInOrder a x s.toList

theorem isEmpty_insert (s : OrdSet α) (a : α) : (s.insert a).isEmpty = false := by
  have hin : (s.insert a).contains a = true :=
    (contains_insert s a a).mpr (Or.inl Std.ReflCmp.compare_self)
  rw [isEmpty, ← Bool.not_eq_true, List.isEmpty_iff]
  intro hnone
  rw [contains, hnone] at hin
  cases hin

/-- After several insertions a set contains what any of them inserted, and what it
    contained. -/
theorem contains_insertAll (s : OrdSet α) (as : List α) (x : α) :
    (s.insertAll as).contains x = true
      ↔ (∃ a ∈ as, compare x a = .eq) ∨ s.contains x = true := by
  induction as generalizing s with
  | nil => simp [insertAll]
  | cons a rest ih =>
      have hstep : s.insertAll (a :: rest) = (s.insert a).insertAll rest := rfl
      rw [hstep, ih, contains_insert]
      simp only [List.mem_cons, exists_eq_or_imp, or_assoc]
      exact or_left_comm

/-- The set of a list contains what is equal to one of the list. -/
theorem contains_ofList (as : List α) (x : α) :
    (ofList as).contains x = true ↔ ∃ a ∈ as, compare x a = .eq := by
  rw [ofList, contains_insertAll]
  simp

/-- Only what is inserted gets into a set. -/
theorem mem_insertAll {s : OrdSet α} {as : List α} {x : α} (h : x ∈ (s.insertAll as).toList) :
    x ∈ as ∨ x ∈ s.toList := by
  induction as generalizing s with
  | nil => exact Or.inr h
  | cons a rest ih =>
      rcases ih h with h | h
      · exact Or.inl (List.mem_cons_of_mem _ h)
      · rcases mem_insertInOrder h with rfl | h
        · exact Or.inl (List.mem_cons_self ..)
        · exact Or.inr h

/-- A set of elements of a list has no others. -/
theorem mem_of_mem_ofList {as : List α} {x : α} (h : x ∈ (ofList as).toList) : x ∈ as :=
  (mem_insertAll h).resolve_right nofun

/-- Elements of a set that compare equal are written alike. -/
theorem eq_of_mem {s : OrdSet α} {a b : α} (ha : a ∈ s.toList) (hb : b ∈ s.toList)
    (h : compare a b = .eq) : a = b := by
  have hlist : ∀ l : List α, l.Pairwise (fun x y => compare x y = .lt) → a ∈ l → b ∈ l → a = b := by
    intro l hl ha hb
    induction l with
    | nil => cases ha
    | cons x rest ih =>
        obtain ⟨hx, hrest⟩ := List.pairwise_cons.mp hl
        rcases List.mem_cons.mp ha with rfl | hin
        · rcases List.mem_cons.mp hb with rfl | hb
          · rfl
          · rw [hx b hb] at h
            cases h
        · rcases List.mem_cons.mp hb with rfl | hb
          · rw [Std.OrientedCmp.gt_of_lt (hx a hin)] at h
            cases h
          · exact ih hrest hin hb
  exact hlist s.toList s.ordered ha hb

/-- Sets with the same elements, written alike, are equal. -/
theorem eq_of_mem_iff {s t : OrdSet α} (h : ∀ a, a ∈ s.toList ↔ a ∈ t.toList) : s = t := by
  have hself : ∀ a : α, compare a a = .eq := fun _ => Std.ReflCmp.compare_self
  have hne : ∀ s : OrdSet α, s.toList.Nodup := fun s => s.ordered.imp fun {a b} hlt hab => by
    rw [hab, hself] at hlt
    cases hlt
  refine ext (List.Perm.eq_of_pairwise (fun a b _ _ hab hba => ?_) s.ordered t.ordered
    ((List.perm_ext_iff_of_nodup (hne s) (hne t)).mpr h))
  rw [Std.OrientedCmp.gt_of_lt hab] at hba
  cases hba

/-- A set is made again from its own elements, in whatever order they come. -/
theorem ofList_eq {s : OrdSet α} {as : List α} (h : ∀ a, a ∈ as ↔ a ∈ s.toList) :
    ofList as = s := by
  refine eq_of_mem_iff fun a => ⟨fun ha => (h a).mp (mem_of_mem_ofList ha), fun ha => ?_⟩
  have hin : (ofList as).contains a = true :=
    (contains_ofList as a).mpr ⟨a, (h a).mpr ha, Std.ReflCmp.compare_self⟩
  obtain ⟨b, hb, heq⟩ := ((ofList as).contains_iff a).mp hin
  rw [eq_of_mem ha ((h b).mp (mem_of_mem_ofList hb)) heq]
  exact hb

/-- After a removal a set contains all but what was removed. -/
theorem contains_erase (s : OrdSet α) (a x : α) :
    (s.erase a).contains x = true ↔ compare a x ≠ .eq ∧ s.contains x = true := by
  have hf : ∀ y, y ∈ (s.erase a).toList ↔ y ∈ s.toList ∧ compare a y ≠ .eq := by
    intro y
    show y ∈ s.toList.filter _ ↔ _
    rw [List.mem_filter, Bool.not_eq_true', isEq_eq_false_iff]
  rw [contains_iff, contains_iff]
  constructor
  · rintro ⟨y, hy, hxy⟩
    obtain ⟨hm, hne⟩ := (hf y).mp hy
    refine ⟨?_, y, hm, hxy⟩
    intro he
    exact hne (Std.TransCmp.eq_trans he hxy)
  · rintro ⟨hne, y, hm, hxy⟩
    refine ⟨y, (hf y).mpr ⟨hm, ?_⟩, hxy⟩
    intro he
    exact hne (Std.TransCmp.eq_trans he (Std.OrientedCmp.eq_symm hxy))

/-- After several removals a set contains all but what any of them removed. -/
theorem contains_foldl_erase (s : OrdSet α) (as : List α) (x : α) :
    (as.foldl erase s).contains x = true
      ↔ (∀ a ∈ as, compare a x ≠ .eq) ∧ s.contains x = true := by
  induction as generalizing s with
  | nil => simp
  | cons a rest ih =>
      rw [List.foldl_cons, ih, contains_erase]
      simp only [List.forall_mem_cons, and_assoc]
      exact and_left_comm

-- ── Elements with one written form ───────────────────────────────────────────────

variable [Std.LawfulEqOrd α]

omit [Std.TransOrd α] in
/-- Where only an element compares equal to itself, it is contained if it is in the
    list. -/
theorem contains_iff_mem (s : OrdSet α) (a : α) : s.contains a = true ↔ a ∈ s.toList := by
  rw [contains_iff]
  constructor
  · rintro ⟨x, hx, he⟩
    rw [Std.LawfulEqCmp.eq_of_compare he]
    exact hx
  · intro h
    exact ⟨a, h, Std.ReflCmp.compare_self⟩

omit [Std.TransOrd α] in
/-- A filtered set contains what it contained before and what passes. -/
theorem contains_filter (s : OrdSet α) (p : α → Bool) (a : α) :
    (s.filter p).contains a = true ↔ s.contains a = true ∧ p a = true := by
  rw [contains_iff_mem, contains_iff_mem]
  exact List.mem_filter

omit [Std.TransOrd α] in
/-- The difference has the elements that the other set does not contain. -/
theorem mem_diff (s t : OrdSet α) (a : α) :
    a ∈ (s.diff t).toList ↔ s.contains a = true ∧ t.contains a = false := by
  rw [← contains_iff_mem, diff, contains_filter, Bool.not_eq_true']

/-- Sets that contain the same are equal. -/
theorem eq_of_contains {s t : OrdSet α} (h : ∀ a, s.contains a = t.contains a) : s = t := by
  refine eq_of_mem_iff fun a => ?_
  rw [← contains_iff_mem, ← contains_iff_mem, h]

omit [Std.TransOrd α] in
/-- No element is held twice. -/
theorem nodup (s : OrdSet α) : s.toList.Nodup := by
  refine s.ordered.imp fun {a b} hlt hsame => ?_
  have hself : compare b b = .eq := Std.ReflCmp.compare_self
  rw [hsame, hself] at hlt
  cases hlt

omit [Std.TransOrd α] in
/-- A set whose elements are all in another has no more of them. -/
theorem size_le_of_contains {s t : OrdSet α} (h : ∀ a, s.contains a = true → t.contains a = true) :
    s.size ≤ t.size := by
  refine (List.subperm_of_subset s.nodup fun a ha => ?_).length_le
  exact (contains_iff_mem t a).mp (h a ((contains_iff_mem s a).mpr ha))

end OrdSet

end DirectoryAccess
