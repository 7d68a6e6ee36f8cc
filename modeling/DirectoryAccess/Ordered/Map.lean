/-! # Ordered maps — finite maps with one written form

    A map is the list of its entries with their keys in strictly increasing order.
    A key that compares equal to one already held does not replace it: the map
    keeps the key as it was first written and takes the new value. -/

namespace DirectoryAccess

universe u v

variable {κ : Type u} {β : Type v} [Ord κ]

/-- Put a value under its key, in the key's place. -/
def insertEntry (k : κ) (v : β) : List (κ × β) → List (κ × β)
  | [] => [(k, v)]
  | e :: rest =>
      match compare k e.1 with
      | .lt => (k, v) :: e :: rest
      | .eq => (e.1, v) :: rest
      | .gt => e :: insertEntry k v rest

/-- The keys after an insertion are the new one and those held before. -/
theorem key_mem_insertEntry {k : κ} {v : β} {x : κ × β} {l : List (κ × β)}
    (h : x ∈ insertEntry k v l) : x.1 = k ∨ ∃ e ∈ l, x.1 = e.1 := by
  induction l with
  | nil =>
      rw [List.mem_singleton.mp h]
      exact Or.inl rfl
  | cons e rest ih =>
      rw [insertEntry] at h
      split at h
      · rcases List.mem_cons.mp h with rfl | hx
        · exact Or.inl rfl
        · exact Or.inr ⟨x, hx, rfl⟩
      · rcases List.mem_cons.mp h with rfl | hx
        · exact Or.inr ⟨e, List.mem_cons_self .., rfl⟩
        · exact Or.inr ⟨x, List.mem_cons_of_mem _ hx, rfl⟩
      · rcases List.mem_cons.mp h with rfl | hx
        · exact Or.inr ⟨x, List.mem_cons_self .., rfl⟩
        · rcases ih hx with hk | ⟨e', he', hk⟩
          · exact Or.inl hk
          · exact Or.inr ⟨e', List.mem_cons_of_mem _ he', hk⟩

/-- Insertion keeps the keys in strictly increasing order. -/
theorem insertEntry_ordered [Std.TransOrd κ] (k : κ) (v : β) {l : List (κ × β)}
    (h : l.Pairwise (fun x y => compare x.1 y.1 = .lt)) :
    (insertEntry k v l).Pairwise (fun x y => compare x.1 y.1 = .lt) := by
  induction l with
  | nil => exact List.pairwise_singleton _ _
  | cons e rest ih =>
      have he := (List.pairwise_cons.mp h).1
      have hr := (List.pairwise_cons.mp h).2
      rw [insertEntry]
      split
      · next hlt =>
        refine List.pairwise_cons.mpr ⟨?_, h⟩
        intro x hx
        rcases List.mem_cons.mp hx with rfl | hx
        · exact hlt
        · exact Std.TransCmp.lt_trans hlt (he x hx)
      · exact List.pairwise_cons.mpr ⟨he, hr⟩
      · next hgt =>
        refine List.pairwise_cons.mpr ⟨?_, ih hr⟩
        intro x hx
        rcases key_mem_insertEntry hx with hk | ⟨e', he', hk⟩
        · rw [hk]
          exact Std.OrientedCmp.lt_of_gt hgt
        · rw [hk]
          exact he e' he'

/-- A finite map, held as its entries with the keys in strictly increasing
    order. -/
structure OrdMap (κ : Type u) (β : Type v) [Ord κ] where
  entries : List (κ × β)
  ordered : entries.Pairwise (fun x y => compare x.1 y.1 = .lt)

namespace OrdMap

/-- Maps are equal when their entries are. -/
theorem ext {m n : OrdMap κ β} (h : m.entries = n.entries) : m = n := by
  cases m; cases n; cases h; rfl

instance [DecidableEq κ] [DecidableEq β] : DecidableEq (OrdMap κ β) := fun m n =>
  if h : m.entries = n.entries then isTrue (ext h)
  else isFalse (fun e => h (e ▸ rfl))

/-- The map without entries. -/
def empty : OrdMap κ β := ⟨[], List.Pairwise.nil⟩

instance : Inhabited (OrdMap κ β) := ⟨empty⟩

/-- The value held under a key. -/
def get? (m : OrdMap κ β) (k : κ) : Option β :=
  (m.entries.find? fun e => (compare k e.1).isEq).map (·.2)

/-- True if some value is held under a key. -/
def contains (m : OrdMap κ β) (k : κ) : Bool := (m.get? k).isSome

/-- The keys in increasing order. -/
def keys (m : OrdMap κ β) : List κ := m.entries.map (·.1)

/-- The values in the order of their keys. -/
def values (m : OrdMap κ β) : List β := m.entries.map (·.2)

/-- The entries that satisfy a test. -/
def filter (p : κ → β → Bool) (m : OrdMap κ β) : OrdMap κ β :=
  ⟨m.entries.filter (fun e => p e.1 e.2), m.ordered.filter _⟩

/-- The map without the entry under a key. -/
def erase (m : OrdMap κ β) (k : κ) : OrdMap κ β :=
  m.filter fun x _ => !(compare k x).isEq

/-- The map with every value replaced by what `f` makes of it, and without the
    entries of which `f` makes nothing. -/
def filterMap (f : κ → β → Option β) (m : OrdMap κ β) : OrdMap κ β where
  entries := m.entries.filterMap fun e => (f e.1 e.2).map fun v => (e.1, v)
  ordered := by
    refine m.ordered.filterMap _ ?_
    intro x y hxy x' hx' y' hy'
    rcases Option.map_eq_some_iff.mp hx' with ⟨v, -, rfl⟩
    rcases Option.map_eq_some_iff.mp hy' with ⟨w, -, rfl⟩
    exact hxy

variable [Std.TransOrd κ]

/-- The map with a value put under a key. -/
def insert (m : OrdMap κ β) (k : κ) (v : β) : OrdMap κ β :=
  ⟨insertEntry k v m.entries, insertEntry_ordered k v m.ordered⟩

/-- The map with the entries of a list put in one after the other. -/
def insertAll (m : OrdMap κ β) (es : List (κ × β)) : OrdMap κ β :=
  es.foldl (fun m e => m.insert e.1 e.2) m

end OrdMap

end DirectoryAccess
