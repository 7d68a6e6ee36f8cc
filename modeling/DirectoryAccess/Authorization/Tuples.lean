import DirectoryAccess.Aci.Decision
import DirectoryAccess.Cache.Tuple

/-! # The tuples in force — which policy applies to an entry

    The tuples in force for an entry come from the areas that select it and from
    its own `entryACI`.  A subentry takes those of its administrative point: of the
    areas that select that point, and of its `subentryACI`. -/

namespace DirectoryAccess

/-- The tuples of the values that an entry holds under an access control
    attribute. -/
def heldTuples (entry : Entry) (attr : String) : List AciTuple :=
  match entry.values? attr with
  | some values => AciTuple.ofValues values.toList
  | none => []

/-- The tuples that come to an entry from outside. -/
def prescribedTuples {σ : Type} [Backend σ] (cache : TupleCache) (entry : Entry) :
    Action σ (List AciTuple) := do
  if entry.isSubentry then
    match entry.dn.parent? with
    | none => return []
    | some parentDn =>
        let parent ← Backend.lookup parentDn
        let own :=
          match parent with
          | some p => heldTuples p Attribute.subentryAci
          | none => []
        return cache.prescriptiveTuples parentDn parent ++ own
  else return cache.prescriptiveTuples entry.dn (some entry)

/-- The tuples in force for an entry.  The `entryACI` of an entry that is being added
    can not grant anything yet and is left out. -/
def collectTuples {σ : Type} [Backend σ] (cache : TupleCache) (entry : Entry)
    (includeEntryAci : Bool) : Action σ (List AciTuple) := do
  let prescribed ← prescribedTuples cache entry
  return prescribed
    ++ (if includeEntryAci then heldTuples entry Attribute.entryAci else [])

/-- Ask for operations on every value of an attribute. -/
def requireOnValues (check : AccessCheck) (attr : String) :
    List String → Except OperationError Unit
  | [] => .ok ()
  | v :: vs => do
      (check.onValue attr v).require
      requireOnValues check attr vs

/-- Ask for operations on every attribute of a list and on its values. -/
def requireOnAttributes (check : AccessCheck) :
    List (String × ValueSet) → Except OperationError Unit
  | [] => .ok ()
  | (attr, values) :: rest => do
      (check.onAttribute attr).require
      requireOnValues check attr values.toList
      requireOnAttributes check rest

/-- Ask for an addition on the entry itself, and then on every attribute and value it
    holds. -/
def requireAddition (requester : Requester) (entry : Entry) (tuples : List AciTuple)
    (immSubordinates : Option Nat) : Except OperationError Unit := do
  let check := AccessCheck.onEntry requester entry [.add] tuples
  (check.withImmSubordinates immSubordinates).require
  requireOnAttributes check entry.attrs.entries

/-- A copy of an entry with only what the requester may read. -/
def readable (requester : Requester) (entry : Entry) (tuples : List AciTuple) : Entry :=
  let check := AccessCheck.onEntry requester entry [.read] tuples
  entry.reduce fun attr value =>
    match value with
    | none => (check.onAttribute attr).hasPermission
    | some v => (check.onValue attr v).hasPermission

/-- True if some grant limits the number of entries below a parent. -/
def limitsImmSubordinates (tuples : List AciTuple) : Bool :=
  tuples.any fun t => t.grants && t.protectedItems.any fun
    | .maxImmSub _ => true
    | _ => false

end DirectoryAccess
