import DirectoryAccess.Ordered.Set

/-! # Micro operations — what an access control item grants or denies

    A directory operation is authorized as one or more micro operations, and an
    access control item grants or denies them one by one. -/

namespace DirectoryAccess

/-- The smallest thing that can be granted or denied. -/
inductive MicroOperation where
  | add
  | discloseOnError
  | read
  | remove
  | browse
  | exportEntry
  | importEntry
  | modify
  | rename
  | returnDn
  | compare
  | filterMatch
  | invoke
  deriving DecidableEq, Inhabited

namespace MicroOperation

/-- All micro operations, in their order. -/
def all : List MicroOperation :=
  [add, discloseOnError, read, remove, browse, exportEntry, importEntry, modify, rename,
   returnDn, compare, filterMatch, invoke]

/-- The place of a micro operation in their order. -/
def rank : MicroOperation → Nat
  | add => 0
  | discloseOnError => 1
  | read => 2
  | remove => 3
  | browse => 4
  | exportEntry => 5
  | importEntry => 6
  | modify => 7
  | rename => 8
  | returnDn => 9
  | compare => 10
  | filterMatch => 11
  | invoke => 12

/-- The name that follows `grant` or `deny` in an item. -/
def name : MicroOperation → String
  | add => "Add"
  | discloseOnError => "DiscloseOnError"
  | read => "Read"
  | remove => "Remove"
  | browse => "Browse"
  | exportEntry => "Export"
  | importEntry => "Import"
  | modify => "Modify"
  | rename => "Rename"
  | returnDn => "ReturnDN"
  | compare => "Compare"
  | filterMatch => "FilterMatch"
  | invoke => "Invoke"

/-- The micro operation of a name. -/
def ofName? (s : String) : Option MicroOperation := all.find? fun op => op.name == s

instance : Ord MicroOperation := ⟨compareOn rank⟩

instance : Std.TransOrd MicroOperation := inferInstanceAs (Std.TransCmp (compareOn rank))

end MicroOperation

/-- A micro operation together with whether it is granted or denied. -/
structure GrantOrDenial where
  op : MicroOperation
  grants : Bool
  deriving DecidableEq, Inhabited

namespace GrantOrDenial

/-- The place in the order by micro operation, a denial in front of the grant. -/
def rank (g : GrantOrDenial) : Nat := 2 * g.op.rank + (if g.grants then 1 else 0)

instance : Ord GrantOrDenial := ⟨compareOn rank⟩

instance : Std.TransOrd GrantOrDenial := inferInstanceAs (Std.TransCmp (compareOn rank))

/-- The word for a grant or denial in an item. -/
def display (g : GrantOrDenial) : String :=
  (if g.grants then "grant" else "deny") ++ g.op.name

end GrantOrDenial

end DirectoryAccess
