import DirectoryAccess.Aci.MicroOperation
import DirectoryAccess.Aci.Subtree
import DirectoryAccess.Identity

/-! # Access control items — the policy as it is written

    An item says who may do what to which part of an entry.  It is written either
    with the protected parts first and then who may do what to them, or with the
    users first and then what they may do to which parts. -/

namespace DirectoryAccess

/-- A class of users that a requester may belong to. -/
inductive UserClass where
  | allUsers
  | thisEntry
  | parentOfEntry
  | name (names : NameSet)
  | userGroup (groups : NameSet)
  | subtree (specs : List SubtreeSpecification)

/-- An attribute type with a value. -/
structure AttributeValue where
  attr : String
  value : String
  deriving DecidableEq, Inhabited

namespace AttributeValue

/-- Pairs are ordered by type and then by value. -/
instance : Ord AttributeValue := ⟨compareLex (compareOn attr) (compareOn value)⟩

instance : Std.TransOrd AttributeValue :=
  inferInstanceAs (Std.TransCmp (compareLex (compareOn attr) (compareOn value)))

end AttributeValue

/-- How many values an attribute may come to hold. -/
structure MaxValueCount where
  attr : String
  max : Nat
  deriving DecidableEq, Inhabited

/-- An attribute whose values must also be held by another. -/
structure RestrictedValue where
  attr : String
  valuesIn : String
  deriving DecidableEq, Inhabited

/-- A part of an entry, or a limit on changes to it. -/
inductive ProtectedItem where
  | entry
  | allUserAttributeTypes
  | allUserAttributeTypesAndValues
  | attributeType (attrs : OrdSet String)
  | allAttributeValues (attrs : OrdSet String)
  | attributeValue (avas : OrdSet AttributeValue)
  | selfValue (attrs : OrdSet String)
  | maxValueCount (limits : List MaxValueCount)
  | maxImmSub (max : Nat)
  | restrictedBy (restrictions : List RestrictedValue)
  | classes (refinement : Refinement)

/-- What users already named may do, and to what. -/
structure UserPermission where
  precedence : Option Nat
  protectedItems : List ProtectedItem
  grantsAndDenials : OrdSet GrantOrDenial

/-- What may be done to parts already named, and by whom. -/
structure ItemPermission where
  precedence : Option Nat
  userClasses : List UserClass
  grantsAndDenials : OrdSet GrantOrDenial

/-- The two ways to write an item. -/
inductive AciItemBody where
  | itemFirst (protectedItems : List ProtectedItem) (itemPermissions : List ItemPermission)
  | userFirst (userClasses : List UserClass) (userPermissions : List UserPermission)

/-- An access control item. -/
structure AciItem where
  identificationTag : String
  precedence : Nat
  level : AuthenticationLevel
  body : AciItemBody

end DirectoryAccess
