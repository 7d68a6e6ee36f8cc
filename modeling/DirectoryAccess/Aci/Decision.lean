import DirectoryAccess.Aci.Tuple

/-! # The access control decision — may this requester do that

    Every requested micro operation is decided on its own, and all of them must be
    granted.  Of the tuples that carry the operation, those count whose users take
    in the requester, whose protected items cover the target and whose limits hold.
    If none counts the operation is denied, and one denial outweighs every grant,
    whatever their precedences. -/

namespace DirectoryAccess

/-- What the decision needs to know of somebody. -/
structure Requester where
  dn : Dn
  groups : NameSet
  level : AuthenticationLevel

/-- What is to be done something to: the entry itself, an attribute of it, or one
    value. -/
inductive AccessTarget where
  | entry
  | attribute (attr : String)
  | value (attr value : String)
  deriving DecidableEq, Inhabited

/-- One question put to the decision. -/
structure AccessCheck where
  requester : Requester
  entry : Entry
  /-- The projection of the entry that value counts are taken from. -/
  view : Option Entry
  target : AccessTarget
  operations : List MicroOperation
  tuples : List AciTuple
  /-- The number of entries directly below the parent, where it is known. -/
  immSubordinates : Option Nat

namespace AccessCheck

/-- The question whether somebody may do something to an entry itself. -/
def onEntry (requester : Requester) (entry : Entry) (operations : List MicroOperation)
    (tuples : List AciTuple) : AccessCheck :=
  ⟨requester, entry, none, .entry, operations, tuples, none⟩

/-- The same question about an attribute of the entry. -/
def onAttribute (c : AccessCheck) (attr : String) : AccessCheck :=
  { c with target := .attribute attr }

/-- The same question about a value of the entry. -/
def onValue (c : AccessCheck) (attr value : String) : AccessCheck :=
  { c with target := .value attr value }

/-- The same question, with value counts taken from a projection. -/
def withView (c : AccessCheck) (view : Entry) : AccessCheck := { c with view := some view }

/-- The same question, with the number of entries below the parent known. -/
def withImmSubordinates (c : AccessCheck) (count : Option Nat) : AccessCheck :=
  { c with immSubordinates := count }

-- ── What a tuple speaks of ───────────────────────────────────────────────────────

/-- True if a class of users takes in the requester.  Subtrees of users are anchored
    at the root and see no entry. -/
def inUserClass (c : AccessCheck) : UserClass → Bool
  | .allUsers => true
  | .thisEntry => c.requester.dn.same c.entry.dn
  | .parentOfEntry => c.entry.dn.isChildOf c.requester.dn
  | .name names => names.contains c.requester.dn
  | .userGroup groups => groups.any fun g => c.requester.groups.contains g
  | .subtree specs => specs.any fun spec => spec.selects Dn.root c.requester.dn none

/-- True if a tuple is about the requester.  A grant asks for its level; a denial
    also strikes whoever is below its level. -/
def relatesTo (c : AccessCheck) (t : AciTuple) : Bool :=
  let related := t.userClasses.any c.inUserClass
  let strong := c.requester.level.atLeast t.level
  if t.grants then related && strong else related || !strong

/-- True if an attribute name is in a set, but for the case of ASCII letters. -/
def names (attrs : OrdSet String) (attr : String) : Bool :=
  attrs.any fun a => Text.sameIgnoringAsciiCase a attr

/-- True if the limits of a list name an attribute, but for the case of ASCII
    letters. -/
def limitsName {α : Type} (limited : α → String) (limits : List α) (attr : String) : Bool :=
  limits.any fun l => Text.sameIgnoringAsciiCase (limited l) attr

/-- True if a value is the requester's own name. -/
def isOwnName (c : AccessCheck) (value : String) : Bool :=
  match Dn.parse value with
  | .ok dn => dn.same c.requester.dn
  | .error _ => false

/-- True if a protected item covers the target. -/
def covers (c : AccessCheck) (item : ProtectedItem) : Bool :=
  match c.target with
  | .entry =>
      match item with
      | .entry | .maxImmSub _ => true
      | .classes refinement => refinement.isMetBy c.entry
      | _ => false
  | .attribute attr =>
      match item with
      | .allUserAttributeTypes | .allUserAttributeTypesAndValues => Attribute.isUser attr
      | .attributeType attrs => names attrs attr
      | _ => false
  | .value attr value =>
      match item with
      | .allUserAttributeTypesAndValues => Attribute.isUser attr
      | .attributeType attrs | .allAttributeValues attrs => names attrs attr
      | .attributeValue avas => avas.any fun ava =>
          Text.sameIgnoringAsciiCase ava.attr attr
            && Text.sameIgnoringAsciiCase ava.value value
      | .selfValue attrs => names attrs attr && c.isOwnName value
      | .maxValueCount limits => limitsName MaxValueCount.attr limits attr
      | .restrictedBy restrictions => limitsName RestrictedValue.attr restrictions attr
      | _ => false

-- ── Limits ───────────────────────────────────────────────────────────────────────

/-- The number of values an attribute has in the projection, or in the entry where
    there is none. -/
def valueCount (c : AccessCheck) (attr : String) : Nat :=
  (c.view.getD c.entry).valueCount attr

/-- A grant to add a value of a counted attribute holds while the attribute has no
    more values than the limit. -/
def maxValueCountHolds (c : AccessCheck) (t : AciTuple) (op : MicroOperation) : Bool :=
  match c.target with
  | .value attr _ =>
      !t.grants || op != .add || t.protectedItems.all fun
        | .maxValueCount limits =>
            (limits.filter fun l => Text.sameIgnoringAsciiCase l.attr attr).all
              fun l => c.valueCount attr ≤ l.max
        | _ => true
  | _ => true

/-- A grant to add an entry holds while fewer entries than the limit are directly
    below its parent.  A number that is not known keeps no limit. -/
def maxImmSubHolds (c : AccessCheck) (t : AciTuple) (op : MicroOperation) : Bool :=
  match c.target with
  | .entry =>
      !t.grants || op != .add || t.protectedItems.all fun
        | .maxImmSub max =>
            match c.immSubordinates with
            | some count => count < max
            | none => false
        | _ => true
  | _ => true

/-- A grant on a restricted attribute holds for the values that the other attribute
    of the entry holds too. -/
def restrictedByHolds (c : AccessCheck) (t : AciTuple) : Bool :=
  match c.target with
  | .value attr value =>
      !t.grants || t.protectedItems.all fun
        | .restrictedBy restrictions =>
            (restrictions.filter fun r => Text.sameIgnoringAsciiCase r.attr attr).all
              fun r => c.entry.holds r.valuesIn value
        | _ => true
  | _ => true

-- ── The decision ─────────────────────────────────────────────────────────────────

/-- True if a tuple counts for a micro operation. -/
def applies (c : AccessCheck) (op : MicroOperation) (t : AciTuple) : Bool :=
  t.operations.contains op && c.relatesTo t && t.protectedItems.any c.covers
    && c.maxValueCountHolds t op && c.maxImmSubHolds t op && c.restrictedByHolds t

/-- True if one micro operation is granted. -/
def grants (c : AccessCheck) (op : MicroOperation) : Bool :=
  let applicable := c.tuples.filter (c.applies op)
  !applicable.isEmpty && applicable.all (·.grants)

/-- True if everything asked for is granted. -/
def hasPermission (c : AccessCheck) : Bool := c.operations.all c.grants

/-- Refuse access unless everything asked for is granted. -/
def require (c : AccessCheck) : Except OperationError Unit :=
  if c.hasPermission then .ok () else .error .accessDenied

end AccessCheck

end DirectoryAccess
