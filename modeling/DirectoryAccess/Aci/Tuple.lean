import DirectoryAccess.Aci.Item

/-! # Access control tuples — the policy in the form that is evaluated

    An item is flattened into tuples: some users, at or above a level, are granted
    or denied some micro operations on some parts of an entry. -/

namespace DirectoryAccess

/-- One grant or denial of a set of micro operations. -/
structure AciTuple where
  userClasses : List UserClass
  level : AuthenticationLevel
  protectedItems : List ProtectedItem
  operations : OrdSet MicroOperation
  grants : Bool
  precedence : Nat

/-- The micro operations that a set grants, or those that it denies. -/
def operationsOf (grants : Bool) (set : OrdSet GrantOrDenial) : OrdSet MicroOperation :=
  OrdSet.ofList ((set.toList.filter fun g => g.grants == grants).map (·.op))

namespace AciItem

/-- The tuples of one permission: one for its grants and one for its denials, none
    for a side that is empty.  A permission without a precedence takes the
    item's. -/
def permissionTuples (item : AciItem) (userClasses : List UserClass)
    (protectedItems : List ProtectedItem) (set : OrdSet GrantOrDenial)
    (precedence : Option Nat) : List AciTuple :=
  [true, false].filterMap fun grants =>
    let operations := operationsOf grants set
    if operations.isEmpty then none
    else some {
      userClasses := userClasses
      level := item.level
      protectedItems := protectedItems
      operations := operations
      grants := grants
      precedence := precedence.getD item.precedence }

/-- The tuples of an item, permission by permission. -/
def tuples (item : AciItem) : List AciTuple :=
  match item.body with
  | .itemFirst protectedItems permissions =>
      permissions.flatMap fun p =>
        item.permissionTuples p.userClasses protectedItems p.grantsAndDenials p.precedence
  | .userFirst userClasses permissions =>
      permissions.flatMap fun p =>
        item.permissionTuples userClasses p.protectedItems p.grantsAndDenials p.precedence

end AciItem

end DirectoryAccess
