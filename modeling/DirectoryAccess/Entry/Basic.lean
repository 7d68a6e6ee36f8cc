import DirectoryAccess.Entry.Attributes
import DirectoryAccess.Name.Dn

/-! # Entries — the named objects of the directory

    An entry is a name and the attributes held under it.  The same type serves for
    the projection of an entry that a modify request is authorized against: each
    modification makes the next projection, and none of them is ever stored. -/

namespace DirectoryAccess

/-- An object of the directory. -/
structure Entry where
  dn : Dn
  attrs : Attributes
  deriving DecidableEq

namespace Entry

/-- An entry without attributes. -/
def named (dn : Dn) : Entry := ⟨dn, OrdMap.empty⟩

instance : Inhabited Entry := ⟨named Dn.root⟩

/-- The same entry under another name. -/
def withDn (e : Entry) (dn : Dn) : Entry := { e with dn := dn }

/-- Add a value to an attribute. -/
def addAva (e : Entry) (attr value : String) : Entry :=
  { e with attrs := e.attrs.addValues (Text.lowercase attr) [value] }

/-- True if adding a value changes the entry. -/
def lacksAva (e : Entry) (attr value : String) : Bool :=
  !e.attrs.holdsExactly (Text.lowercase attr) value

/-- Remove a value from an attribute, but for the case of ASCII letters. -/
def removeAva (e : Entry) (attr value : String) : Entry :=
  { e with attrs := (e.attrs.removeValue (Text.lowercase attr) value).1 }

/-- True if removing a value changes the entry. -/
def hasAva (e : Entry) (attr value : String) : Bool :=
  (e.attrs.removeValue (Text.lowercase attr) value).2

/-- Remove an attribute. -/
def purgeAva (e : Entry) (attr : String) : Entry :=
  { e with attrs := e.attrs.erase (Text.lowercase attr) }

/-- Let an attribute hold exactly the given values. -/
def setAva (e : Entry) (attr : String) (values : List String) : Entry :=
  { e with attrs := e.attrs.replaceValues (Text.lowercase attr) values }

/-- The values of an attribute. -/
def values? (e : Entry) (attr : String) : Option ValueSet := e.attrs.values? attr

/-- The first value of an attribute. -/
def value? (e : Entry) (attr : String) : Option String :=
  (e.values? attr).bind fun vs => vs.toList.head?

/-- The number of values of an attribute. -/
def valueCount (e : Entry) (attr : String) : Nat :=
  match e.values? attr with
  | some vs => vs.size
  | none => 0

/-- True if the entry has an attribute. -/
def has (e : Entry) (attr : String) : Bool := (e.values? attr).isSome

/-- True if an attribute of the entry holds a value. -/
def holds (e : Entry) (attr value : String) : Bool := e.attrs.holds attr value

/-- True if the entry is of an object class. -/
def hasClass (e : Entry) (name : String) : Bool := e.holds Attribute.objectClass name

/-- True for an access control subentry. -/
def isAccessControlSubentry (e : Entry) : Bool :=
  e.hasClass ObjectClass.accessControlSubentry

/-- True for a subentry of any kind. -/
def isSubentry (e : Entry) : Bool :=
  e.hasClass ObjectClass.subentry || e.isAccessControlSubentry

/-- The attribute that holds the members of the entry, if it is a group. -/
def memberAttr? (e : Entry) : Option String :=
  if e.hasClass ObjectClass.groupOfNames then some Attribute.member
  else if e.hasClass ObjectClass.groupOfUniqueNames then some Attribute.uniqueMember
  else none

/-- The entry after a modification that goes through in any case. -/
def project (e : Entry) (m : Modification) : Entry :=
  { e with attrs := e.attrs.project m }

/-- The entry after a modification that may be refused, and whether it was. -/
def modify (e : Entry) (m : Modification) : Entry × Except OperationError Unit :=
  let (attrs, result) := e.attrs.modify m
  ({ e with attrs := attrs }, result)

/-- The entry after a list of modifications, if none is refused. -/
def modifyAll (e : Entry) : List Modification → Except OperationError Entry
  | [] => .ok e
  | m :: ms =>
      match e.modify m with
      | (e', .ok ()) => e'.modifyAll ms
      | (_, .error err) => .error err

/-- A copy with only the attributes and values that a test allows. -/
def reduce (e : Entry) (allow : String → Option String → Bool) : Entry :=
  { e with attrs := e.attrs.reduce allow }

/-- A copy with only the named attributes; without a list of names, with all. -/
def select (e : Entry) : Option (List String) → Entry
  | none => e
  | some names => e.reduce fun attr _ => names.any fun n => Text.sameIgnoringAsciiCase n attr

end Entry

end DirectoryAccess
