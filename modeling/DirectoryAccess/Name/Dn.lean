import DirectoryAccess.Name.Rdn
import DirectoryAccess.Ordered.Map
import DirectoryAccess.Ordered.Set

/-! # Distinguished names — where an entry stands in the directory

    A name is the list of its components, the entry's own first and the topmost
    last, which is also the order in which it is written.  The name without
    components is the root.  Names are the same if their normalised texts are, so
    `CN=Alice,DC=Example` and `cn=alice,dc=example` name one entry. -/

namespace DirectoryAccess

/-- A distinguished name, leaf first. -/
structure Dn where
  rdns : List Rdn
  deriving DecidableEq

namespace Dn

/-- The empty name, above all others. -/
def root : Dn := ⟨[]⟩

instance : Inhabited Dn := ⟨root⟩

/-- The text by which names are compared and ordered. -/
def norm (d : Dn) : String := String.intercalate "," (d.rdns.map Rdn.norm)

/-- The text of a name as it was written. -/
def display (d : Dn) : String := String.intercalate "," (d.rdns.map Rdn.display)

/-- True if two names are the same name, however they are written. -/
def same (a b : Dn) : Bool := a.norm == b.norm

/-- Names are ordered by their normalised texts. -/
instance : Ord Dn := ⟨compareOn norm⟩

instance : Std.TransOrd Dn := inferInstanceAs (Std.TransCmp (compareOn norm))

/-- True for the name without components. -/
def isRoot (d : Dn) : Bool := d.rdns.isEmpty

/-- The number of components. -/
def depth (d : Dn) : Nat := d.rdns.length

/-- The component that names the entry within its parent. -/
def rdn? (d : Dn) : Option Rdn := d.rdns.head?

/-- The name one component above; the root has none. -/
def parent? (d : Dn) : Option Dn :=
  match d.rdns with
  | [] => none
  | _ :: rest => some ⟨rest⟩

/-- The name one component below. -/
def child (d : Dn) (r : Rdn) : Dn := ⟨r :: d.rdns⟩

/-- This name, taken as a relative one, below `base`. -/
def concat (d base : Dn) : Dn := ⟨d.rdns ++ base.rdns⟩

/-- True if two lists of components agree one by one. -/
def sameComponents : List Rdn → List Rdn → Bool
  | [], [] => true
  | r :: rs, s :: ss => r.same s && sameComponents rs ss
  | _, _ => false

/-- True if the topmost components are those of `base`, for a name with at least as
    many. -/
def endsWith (d base : Dn) : Bool :=
  sameComponents (d.rdns.drop (d.depth - base.depth)) base.rdns

/-- True if the name is `base` or below it. -/
def isWithin (d base : Dn) : Bool := base.depth ≤ d.depth && d.endsWith base

/-- True if the name is strictly below `base`. -/
def isDescendantOf (d base : Dn) : Bool := base.depth < d.depth && d.endsWith base

/-- True if the name one component above is `base`. -/
def isChildOf (d base : Dn) : Bool :=
  match d.parent? with
  | some p => p.same base
  | none => false

/-- The part of a name below `base`, if it is within `base`. -/
def relativeTo? (d base : Dn) : Option Dn :=
  if d.isWithin base then some ⟨d.rdns.take (d.depth - base.depth)⟩ else none

/-- The name at the same place below `new` as this one is below `old`, if it is
    within `old`. -/
def rebase? (d old new : Dn) : Option Dn :=
  (d.relativeTo? old).map fun rel => rel.concat new

/-- The names above this one, nearest first, down to the root. -/
def ancestors (d : Dn) : List Dn :=
  above d.rdns
where
  /-- The names whose components are a proper tail of the list. -/
  above : List Rdn → List Dn
    | [] => []
    | _ :: rest => ⟨rest⟩ :: above rest

/-- Read a name.  Blanks around it do not count, and nothing else is the root. -/
def parse (s : String) : Except OperationError Dn := do
  let text := Text.trim s
  if text.isEmpty then return root
  match Rdn.splitParts? text.toList with
  | some parts => return ⟨← parts.mapM Rdn.parseWritten⟩
  | none => throw (.invalidDn text)

end Dn

/-- A set of names. -/
abbrev NameSet := OrdSet Dn

/-- A map from names. -/
abbrev NameMap (β : Type) := OrdMap Dn β

end DirectoryAccess
