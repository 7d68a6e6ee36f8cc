import DirectoryAccess.Aci.Tuple
import DirectoryAccess.Grammar

/-! # The access control grammar — items and subtree specifications in text

    Items and subtree specifications are written with keywords, braces, commas and
    quoted strings.  Keywords are matched exactly, attribute and class names are
    held in lower case, numbers are below 2^64 and precedences at most 255. -/

namespace DirectoryAccess

namespace Aci

open Grammar

-- ── Words, names and numbers ─────────────────────────────────────────────────────

/-- A keyword, and blanks behind it. -/
def keyword (word : String) : Rule Unit := do
  literal word.toList
  spacing

/-- A keyword and what it stands for. -/
def meaning {α : Type} (word : String) (value : α) : Rule α := do
  literal word.toList
  return value

/-- What is written between double quotes, which nothing can escape. -/
def quoted : Rule String := do
  literal ['"']
  let cs ← upTo fun c => c == '"'
  literal ['"']
  return String.ofList cs

/-- A name between double quotes. -/
def name : Rule Dn :=
  checked quoted fun s => (Dn.parse s).toOption

/-- The number that decimal digits spell. -/
def decimal (digits : List Char) : Nat :=
  digits.foldl (fun n c => 10 * n + (c.toNat - 0x30)) 0

/-- A number of at most `max`. -/
def numberUpTo (max : Nat) : Rule Nat :=
  checked (run1 isDigit) fun digits =>
    let n := decimal digits
    if n ≤ max then some n else none

/-- A number of 64 bits. -/
def number : Rule Nat := numberUpTo 18446744073709551615

/-- A precedence. -/
def precedence : Rule Nat := numberUpTo 255

/-- A character that an attribute name may go on with. -/
def isAttributeChar (c : Char) : Bool := isLetter c || isDigit c || c == '-' || c == ';'

/-- A character of a class name or dotted number. -/
def isClassChar (c : Char) : Bool := isLetter c || isDigit c || c == '-' || c == '.'

/-- An attribute name, taken in lower case. -/
def attributeName : Rule String := do
  let c ← oneOf isLetter
  let cs ← run isAttributeChar
  return Text.lowercase (String.ofList (c :: cs))

/-- A class name, taken in lower case. -/
def className : Rule String := do
  let cs ← run1 isClassChar
  return Text.lowercase (String.ofList cs)

-- ── Sets, and values with their attribute ────────────────────────────────────────

/-- A braced set of attribute names. -/
def attributeSet : Rule (OrdSet String) := do
  return OrdSet.ofList (← braced (commaSeparated attributeName))

/-- A braced set of names. -/
def nameSet : Rule NameSet := do
  return OrdSet.ofList (← braced (commaSeparated name))

/-- A character that ends an attribute value without quotes. -/
def endsBareValue (c : Char) : Bool :=
  c == '"' || c == ',' || c == '{' || c == '}' || isSpacing c

/-- An attribute value, quoted or bare. -/
def bareOrQuoted : Rule String :=
  quoted <|> do return String.ofList (← upTo1 endsBareValue)

/-- An attribute name and a value. -/
def attributeValue : Rule AttributeValue := do
  let attr ← attributeName
  spacing
  literal ['=']
  spacing
  let value ← bareOrQuoted
  return ⟨attr, value⟩

/-- A limit on the number of values. -/
def maxValueCount : Rule MaxValueCount :=
  braced do
    keyword "type"
    let attr ← attributeName
    comma
    keyword "maxCount"
    let max ← number
    return ⟨attr, max⟩

/-- A restriction to the values of another attribute. -/
def restrictedValue : Rule RestrictedValue :=
  braced do
    keyword "type"
    let attr ← attributeName
    comma
    keyword "valuesIn"
    let valuesIn ← attributeName
    return ⟨attr, valuesIn⟩

-- ── Refinements and subtrees ─────────────────────────────────────────────────────

/-- A colon with blanks around it. -/
def colon : Rule Unit := do
  spacing
  literal [':']
  spacing

/-- A refinement nested at most `depth` deep. -/
def refinementUpTo : Nat → Rule Refinement
  | 0 => fun place => .refused place.before
  | depth + 1 =>
      (do
        literal "item".toList
        colon
        return Refinement.item (← className))
      <|> (do
        literal "and".toList
        colon
        return Refinement.conjunction (← braced (commaSeparated (refinementUpTo depth))))
      <|> (do
        literal "or".toList
        colon
        return Refinement.disjunction (← braced (commaSeparated (refinementUpTo depth))))
      <|> (do
        literal "not".toList
        colon
        return Refinement.negation (← refinementUpTo depth))

/-- A refinement.  Every level of nesting starts with a keyword, so none is deeper
    than there are characters. -/
def refinement : Rule Refinement := fun place =>
  refinementUpTo (place.rest.length + 1) place

/-- A name below the base that is left out. -/
def exclusion : Rule Exclusion :=
  (do
    literal "chopBefore".toList
    colon
    return Exclusion.chopBefore (← name))
  <|> (do
    literal "chopAfter".toList
    colon
    return Exclusion.chopAfter (← name))

/-- One component of a subtree specification. -/
def subtreeComponent : Rule SubtreeComponent :=
  (do
    keyword "base"
    return SubtreeComponent.base (← name))
  <|> (do
    keyword "specificExclusions"
    return SubtreeComponent.exclusions (← braced (commaSeparated exclusion)))
  <|> (do
    keyword "minimum"
    return SubtreeComponent.minimum (← number))
  <|> (do
    keyword "maximum"
    return SubtreeComponent.maximum (← number))
  <|> (do
    keyword "specificationFilter"
    return SubtreeComponent.filter (← refinement))

/-- A subtree specification. -/
def subtreeSpecification : Rule SubtreeSpecification :=
  checked (braced (commaSeparated subtreeComponent)) SubtreeSpecification.ofComponents?

-- ── Users and what is protected ──────────────────────────────────────────────────

/-- One class of users. -/
def userClass : Rule UserClass :=
  meaning "allUsers" UserClass.allUsers
  <|> meaning "thisEntry" UserClass.thisEntry
  <|> meaning "parentOfEntry" UserClass.parentOfEntry
  <|> (do
    keyword "name"
    return UserClass.name (← nameSet))
  <|> (do
    keyword "userGroup"
    return UserClass.userGroup (← nameSet))
  <|> (do
    keyword "subtree"
    return UserClass.subtree (← braced (commaSeparated subtreeSpecification)))

/-- A braced list of classes of users. -/
def userClasses : Rule (List UserClass) := braced (commaSeparated userClass)

/-- One protected item.  Where one keyword starts like another, the longer is tried
    first. -/
def protectedItem : Rule ProtectedItem :=
  meaning "entry" ProtectedItem.entry
  <|> meaning "allUserAttributeTypesAndValues" ProtectedItem.allUserAttributeTypesAndValues
  <|> meaning "allUserAttributeTypes" ProtectedItem.allUserAttributeTypes
  <|> (do
    keyword "attributeType"
    return ProtectedItem.attributeType (← attributeSet))
  <|> (do
    keyword "allAttributeValues"
    return ProtectedItem.allAttributeValues (← attributeSet))
  <|> (do
    keyword "attributeValue"
    return ProtectedItem.attributeValue
      (OrdSet.ofList (← braced (commaSeparated attributeValue))))
  <|> (do
    keyword "selfValue"
    return ProtectedItem.selfValue (← attributeSet))
  <|> (do
    keyword "maxValueCount"
    return ProtectedItem.maxValueCount (← braced (commaSeparated maxValueCount)))
  <|> (do
    keyword "maxImmSub"
    return ProtectedItem.maxImmSub (← number))
  <|> (do
    keyword "restrictedBy"
    return ProtectedItem.restrictedBy (← braced (commaSeparated restrictedValue)))
  <|> (do
    keyword "classes"
    return ProtectedItem.classes (← refinement))

/-- A braced list of protected items. -/
def protectedItems : Rule (List ProtectedItem) := braced (commaSeparated protectedItem)

-- ── Permissions ──────────────────────────────────────────────────────────────────

/-- The first of a list of micro operations whose name stands in the text. -/
def firstNamed : List MicroOperation → Rule MicroOperation
  | [] => fun place => .refused place.before
  | op :: ops => meaning op.name op <|> firstNamed ops

/-- The name of a micro operation. -/
def microOperation : Rule MicroOperation := firstNamed MicroOperation.all

/-- A grant or a denial of a micro operation. -/
def grantOrDenial : Rule GrantOrDenial :=
  (do
    literal "grant".toList
    return ⟨← microOperation, true⟩)
  <|> (do
    literal "deny".toList
    return ⟨← microOperation, false⟩)

/-- A braced set of grants and denials. -/
def grantsAndDenials : Rule (OrdSet GrantOrDenial) := do
  return OrdSet.ofList (← braced (commaSeparated grantOrDenial))

/-- The precedence of a permission, which may be left out. -/
def permissionPrecedence : Rule (Option Nat) :=
  optional do
    keyword "precedence"
    let n ← precedence
    comma
    return n

/-- A permission for users already named. -/
def userPermission : Rule UserPermission :=
  braced do
    let precedence ← permissionPrecedence
    keyword "protectedItems"
    let items ← protectedItems
    comma
    keyword "grantsAndDenials"
    let set ← grantsAndDenials
    return ⟨precedence, items, set⟩

/-- A permission on items already named. -/
def itemPermission : Rule ItemPermission :=
  braced do
    let precedence ← permissionPrecedence
    keyword "userClasses"
    let classes ← userClasses
    comma
    keyword "grantsAndDenials"
    let set ← grantsAndDenials
    return ⟨precedence, classes, set⟩

-- ── Items, and whole texts ───────────────────────────────────────────────────────

/-- The part of an item that is written items first or users first. -/
def itemBody : Rule AciItemBody :=
  (do
    literal "itemFirst".toList
    colon
    braced do
      keyword "protectedItems"
      let items ← protectedItems
      comma
      keyword "itemPermissions"
      let permissions ← braced (commaSeparated itemPermission)
      return AciItemBody.itemFirst items permissions)
  <|> (do
    literal "userFirst".toList
    colon
    braced do
      keyword "userClasses"
      let classes ← userClasses
      comma
      keyword "userPermissions"
      let permissions ← braced (commaSeparated userPermission)
      return AciItemBody.userFirst classes permissions)

/-- The word for an authentication level. -/
def level : Rule AuthenticationLevel :=
  meaning "none" AuthenticationLevel.none
  <|> meaning "simple" AuthenticationLevel.simple
  <|> meaning "strong" AuthenticationLevel.strong

/-- An access control item. -/
def item : Rule AciItem :=
  braced do
    keyword "identificationTag"
    let tag ← quoted
    comma
    keyword "precedence"
    let precedence ← precedence
    comma
    keyword "authenticationLevel"
    let level ← level
    comma
    keyword "itemOrUserFirst"
    let body ← itemBody
    return ⟨tag, precedence, level, body⟩

/-- The value of a text without the blanks around it, or an error that says where the
    text is wrong. -/
def read {α : Type} (rule : Rule α) (s : String) : Except OperationError α :=
  let text := Text.trimChars s.toList
  match whole rule text with
  | .ok a => .ok a
  | .error far =>
      let (line, column) := lineAndColumn (text.take far)
      .error (.aciParseError ("error at " ++ toString line ++ ":" ++ toString column))

end Aci

/-- Read an access control item. -/
def AciItem.parse (s : String) : Except OperationError AciItem := Aci.read Aci.item s

/-- Read a subtree specification. -/
def SubtreeSpecification.parse (s : String) : Except OperationError SubtreeSpecification :=
  Aci.read Aci.subtreeSpecification s

/-- The tuples of the values of an access control attribute, value by value.  A value
    that is no item is passed over. -/
def AciTuple.ofValues (values : List String) : List AciTuple :=
  values.flatMap fun v =>
    match AciItem.parse v with
    | .ok item => item.tuples
    | .error _ => []

end DirectoryAccess
