/-! # Ordered sets — finite sets with one written form

    A set is the list of its elements in strictly increasing order.  Two sets with
    the same elements are therefore the same list, and every walk over a set meets
    its elements in order. -/

namespace DirectoryAccess

universe u

variable {α : Type u} [Ord α]

/-- Put an element in its place.  An element that compares equal stays as it is
    held. -/
def insertInOrder (a : α) : List α → List α
  | [] => [a]
  | b :: rest =>
      match compare a b with
      | .lt => a :: b :: rest
      | .eq => b :: rest
      | .gt => b :: insertInOrder a rest

/-- What is in the list after an insertion was there before or is the new
    element. -/
theorem mem_insertInOrder {a x : α} {l : List α} (h : x ∈ insertInOrder a l) :
    x = a ∨ x ∈ l := by
  induction l with
  | nil => exact Or.inl (List.mem_singleton.mp h)
  | cons b rest ih =>
      rw [insertInOrder] at h
      split at h
      · exact List.mem_cons.mp h
      · exact Or.inr h
      · rcases List.mem_cons.mp h with hb | hr
        · exact Or.inr (hb ▸ List.mem_cons_self ..)
        · rcases ih hr with ha | hm
          · exact Or.inl ha
          · exact Or.inr (List.mem_cons_of_mem _ hm)

/-- Insertion keeps a list in strictly increasing order. -/
theorem insertInOrder_ordered [Std.TransOrd α] (a : α) {l : List α}
    (h : l.Pairwise (fun x y => compare x y = .lt)) :
    (insertInOrder a l).Pairwise (fun x y => compare x y = .lt) := by
  induction l with
  | nil => exact List.pairwise_singleton _ _
  | cons b rest ih =>
      have hb := (List.pairwise_cons.mp h).1
      have hr := (List.pairwise_cons.mp h).2
      rw [insertInOrder]
      split
      · next hlt =>
        refine List.pairwise_cons.mpr ⟨?_, h⟩
        intro x hx
        rcases List.mem_cons.mp hx with rfl | hx
        · exact hlt
        · exact Std.TransCmp.lt_trans hlt (hb x hx)
      · exact h
      · next hgt =>
        refine List.pairwise_cons.mpr ⟨?_, ih hr⟩
        intro x hx
        rcases mem_insertInOrder hx with rfl | hx
        · exact Std.OrientedCmp.lt_of_gt hgt
        · exact hb x hx

/-- A finite set, held as its elements in strictly increasing order. -/
structure OrdSet (α : Type u) [Ord α] where
  toList : List α
  ordered : toList.Pairwise (fun x y => compare x y = .lt)

namespace OrdSet

/-- Sets are equal when their lists are. -/
theorem ext {s t : OrdSet α} (h : s.toList = t.toList) : s = t := by
  cases s; cases t; cases h; rfl

instance [DecidableEq α] : DecidableEq (OrdSet α) := fun s t =>
  if h : s.toList = t.toList then isTrue (ext h)
  else isFalse (fun e => h (e ▸ rfl))

/-- The set without elements. -/
def empty : OrdSet α := ⟨[], List.Pairwise.nil⟩

instance : Inhabited (OrdSet α) := ⟨empty⟩

/-- True if the set has no elements. -/
def isEmpty (s : OrdSet α) : Bool := s.toList.isEmpty

/-- The number of elements. -/
def size (s : OrdSet α) : Nat := s.toList.length

/-- True if some element compares equal to `a`. -/
def contains (s : OrdSet α) (a : α) : Bool :=
  s.toList.any fun x => (compare a x).isEq

/-- The elements that satisfy a test. -/
def filter (p : α → Bool) (s : OrdSet α) : OrdSet α :=
  ⟨s.toList.filter p, s.ordered.filter p⟩

/-- The set without the elements that compare equal to `a`. -/
def erase (s : OrdSet α) (a : α) : OrdSet α :=
  s.filter fun x => !(compare a x).isEq

/-- The elements of `s` that `t` does not contain. -/
def diff (s t : OrdSet α) : OrdSet α :=
  s.filter fun x => !t.contains x

/-- True if some element satisfies a test. -/
def any (s : OrdSet α) (p : α → Bool) : Bool := s.toList.any p

variable [Std.TransOrd α]

/-- The set with one more element. -/
def insert (s : OrdSet α) (a : α) : OrdSet α :=
  ⟨insertInOrder a s.toList, insertInOrder_ordered a s.ordered⟩

/-- The set with every element of a list. -/
def insertAll (s : OrdSet α) (as : List α) : OrdSet α :=
  as.foldl insert s

/-- The set of the elements of a list. -/
def ofList (as : List α) : OrdSet α := empty.insertAll as

end OrdSet

end DirectoryAccess
