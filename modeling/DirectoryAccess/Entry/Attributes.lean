import DirectoryAccess.Error.Basic
import DirectoryAccess.Modification.Basic
import DirectoryAccess.Ordered.Map
import DirectoryAccess.Ordered.Set
import DirectoryAccess.Text.Blank
import DirectoryAccess.Vocabulary

/-! # Attributes — what an entry holds

    Attributes are a map from names to sets of values.  Names are held in lower
    case, no attribute is held without a value, and object classes are held in
    lower case and without blanks around them.

    A modification can be applied in two ways.  Storage applies it strictly and
    refuses to remove what is not there or to add nothing.  The projection that
    authorization works on goes through in any case. -/

namespace DirectoryAccess

/-- A set of attribute values. -/
abbrev ValueSet := OrdSet String

/-- The attributes of an entry. -/
abbrev Attributes := OrdMap String ValueSet

namespace Attributes

/-- A value as an attribute of that name holds it. -/
def heldValue (attr value : String) : String :=
  if attr == Attribute.objectClass then Text.lowercase (Text.trim value) else value

/-- The values of an attribute.  A name is lower cased only if an ASCII capital
    stands in it. -/
def values? (attrs : Attributes) (attr : String) : Option ValueSet :=
  if Text.hasAsciiUpper attr then attrs.get? (Text.lowercase attr)
  else attrs.get? attr

/-- True if an attribute holds a value, but for the case of ASCII letters. -/
def holds (attrs : Attributes) (attr value : String) : Bool :=
  match attrs.values? attr with
  | some vs => vs.any fun v => Text.sameIgnoringAsciiCase v value
  | none => false

/-- True if the attribute held under exactly this name holds a value as it would
    hold it. -/
def holdsExactly (attrs : Attributes) (attr value : String) : Bool :=
  match attrs.get? attr with
  | some vs => vs.contains (heldValue attr value)
  | none => false

/-- Put a set of values under a name; an empty set takes the name away. -/
def put (attrs : Attributes) (attr : String) (vs : ValueSet) : Attributes :=
  if vs.isEmpty then attrs.erase attr else attrs.insert attr vs

/-- Add values to the attribute held under exactly this name. -/
def addValues (attrs : Attributes) (attr : String) (values : List String) : Attributes :=
  attrs.put attr
    (((attrs.get? attr).getD OrdSet.empty).insertAll (values.map (heldValue attr)))

/-- Replace the values of the attribute held under exactly this name. -/
def replaceValues (attrs : Attributes) (attr : String) (values : List String) :
    Attributes :=
  attrs.put attr (OrdSet.ofList (values.map (heldValue attr)))

/-- Remove a value, but for the case of ASCII letters, from the attribute held under
    exactly this name, and say whether it was there. -/
def removeValue (attrs : Attributes) (attr value : String) : Attributes × Bool :=
  match attrs.get? attr with
  | none => (attrs, false)
  | some vs =>
      let kept := vs.filter fun v => !Text.sameIgnoringAsciiCase v value
      (attrs.put attr kept, kept.size != vs.size)

/-- Remove values one after the other, and stop at the first that is not there. -/
def removeEach (attr : String) :
    List String → Attributes → Attributes × Except OperationError Unit
  | [], attrs => (attrs, .ok ())
  | v :: vs, attrs =>
      match attrs.removeValue attr v with
      | (rest, true) => removeEach attr vs rest
      | (rest, false) => (rest, .error (.schemaViolation (.noSuchAttribute attr)))

/-- The attributes after a modification that goes through in any case. -/
def project (attrs : Attributes) (m : Modification) : Attributes :=
  let attr := Text.lowercase m.attr
  match m with
  | .add _ vs => attrs.addValues attr vs
  | .remove _ [] => attrs.erase attr
  | .remove _ vs => vs.foldl (fun as v => (as.removeValue attr v).1) attrs
  | .replace _ vs => attrs.replaceValues attr vs

/-- The attributes after a modification that may be refused, and whether it was.
    What had been done before the refusal stays done. -/
def modify (attrs : Attributes) (m : Modification) :
    Attributes × Except OperationError Unit :=
  let attr := Text.lowercase m.attr
  match m with
  | .add _ [] => (attrs, .error (.schemaViolation (.invalidAttributeSyntax attr)))
  | .add _ vs => (attrs.addValues attr vs, .ok ())
  | .remove _ [] =>
      if attrs.contains attr then (attrs.erase attr, .ok ())
      else (attrs, .error (.schemaViolation (.noSuchAttribute attr)))
  | .remove _ vs => removeEach attr vs attrs
  | .replace _ vs => (attrs.replaceValues attr vs, .ok ())

/-- The attributes and values that a test allows.  An attribute is asked for first
    without a value, and goes away with its last value. -/
def reduce (allow : String → Option String → Bool) (attrs : Attributes) : Attributes :=
  attrs.filterMap fun attr vs =>
    if allow attr none then
      let kept := vs.filter fun v => allow attr (some v)
      if kept.isEmpty then none else some kept
    else none

end Attributes

end DirectoryAccess
