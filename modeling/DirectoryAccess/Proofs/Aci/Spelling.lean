import DirectoryAccess.Aci.Grammar
import DirectoryAccess.Proofs.Aci.Components
import DirectoryAccess.Proofs.Grammar.Taking

/-! # Spellings — every way to write an item

    The SPELLINGS of an item are the texts that the grammar has for it.  Keywords are
    written as they are, blanks run as far as they like wherever the grammar has them,
    sets come in any order, names of attributes and classes in any case, numbers with
    any number of zeros in front, texts and attribute values in double quotes, and
    names as they are displayed.  The components of a subtree come in any order as
    well, and those that say no more than the default may be left out. -/

namespace DirectoryAccess

open Grammar

namespace Aci.Spelling

-- ── Words, names and numbers ─────────────────────────────────────────────────────

/-- A keyword, and blanks behind it. -/
def keyword (w : String) : Language Char := word w.toList * blanks

/-- A colon with blanks around it. -/
def colon : Language Char := blanks * word [':'] * blanks

/-- A text between double quotes. -/
def quoted (s : String) : Language Char := word ('"' :: s.toList ++ ['"'])

/-- A name as it is displayed, between double quotes. -/
def name (d : Dn) : Language Char := quoted d.display

/-- The digits of a number, zeros in front or not. -/
def number (n : Nat) : Language Char :=
  {digits | digits ≠ [] ∧ (∀ c ∈ digits, isDigit c = true) ∧ decimal digits = n}

/-- A word in any case. -/
def anyCase (s : String) : Language Char := {cs | cs.map Text.asciiLowerChar = s.toList}

-- ── Lists and sets ───────────────────────────────────────────────────────────────

/-- A braced list, its elements in their order. -/
def list {α : Type} (spell : α → Language Char) (as : List α) : Language Char :=
  inBraces (separated (as.map spell))

/-- A braced set, its elements in any order. -/
def set {α : Type} [Ord α] (spell : α → Language Char) (s : OrdSet α) : Language Char :=
  {t | ∃ as, (∀ a, a ∈ as ↔ a ∈ s.toList) ∧ t ∈ list spell as}

-- ── Refinements and subtrees ─────────────────────────────────────────────────────

mutual

/-- A refinement. -/
def refinement : Refinement → Language Char
  | .item name => word "item".toList * colon * anyCase name
  | .conjunction rs => word "and".toList * colon * inBraces (separated (refinements rs))
  | .disjunction rs => word "or".toList * colon * inBraces (separated (refinements rs))
  | .negation r => word "not".toList * colon * refinement r

/-- The refinements of a list, each by itself. -/
def refinements : List Refinement → List (Language Char)
  | [] => []
  | r :: rs => refinement r :: refinements rs

end

theorem refinements_eq_map (rs : List Refinement) : refinements rs = rs.map refinement := by
  induction rs with
  | nil => rfl
  | cons r rs ih => rw [refinements, ih, List.map_cons]

/-- A name that is left out. -/
def exclusion : Exclusion → Language Char
  | .chopBefore d => word "chopBefore".toList * colon * name d
  | .chopAfter d => word "chopAfter".toList * colon * name d

/-- One component of a subtree specification. -/
def component : SubtreeComponent → Language Char
  | .base d => keyword "base" * name d
  | .exclusions es => keyword "specificExclusions" * list exclusion es
  | .minimum n => keyword "minimum" * number n
  | .maximum n => keyword "maximum" * number n
  | .filter r => keyword "specificationFilter" * refinement r

/-- A subtree specification, by any components that describe it. -/
def subtree (spec : SubtreeSpecification) : Language Char :=
  {t | ∃ components, spec.DescribedBy components ∧ t ∈ list component components}

-- ── Users and what is protected ──────────────────────────────────────────────────

/-- One class of users. -/
def userClass : UserClass → Language Char
  | .allUsers => word "allUsers".toList
  | .thisEntry => word "thisEntry".toList
  | .parentOfEntry => word "parentOfEntry".toList
  | .name names => keyword "name" * set name names
  | .userGroup groups => keyword "userGroup" * set name groups
  | .subtree specs => keyword "subtree" * list subtree specs

/-- An attribute name and a value in double quotes. -/
def attributeValue (v : AttributeValue) : Language Char :=
  anyCase v.attr * blanks * word ['='] * blanks * quoted v.value

/-- A limit on the number of values. -/
def maxValueCount (m : MaxValueCount) : Language Char :=
  inBraces (keyword "type" * anyCase m.attr * aComma * keyword "maxCount" * number m.max)

/-- A restriction to the values of another attribute. -/
def restrictedValue (r : RestrictedValue) : Language Char :=
  inBraces (keyword "type" * anyCase r.attr * aComma * keyword "valuesIn" * anyCase r.valuesIn)

/-- One protected item. -/
def protectedItem : ProtectedItem → Language Char
  | .entry => word "entry".toList
  | .allUserAttributeTypes => word "allUserAttributeTypes".toList
  | .allUserAttributeTypesAndValues => word "allUserAttributeTypesAndValues".toList
  | .attributeType attrs => keyword "attributeType" * set anyCase attrs
  | .allAttributeValues attrs => keyword "allAttributeValues" * set anyCase attrs
  | .attributeValue avas => keyword "attributeValue" * set attributeValue avas
  | .selfValue attrs => keyword "selfValue" * set anyCase attrs
  | .maxValueCount limits => keyword "maxValueCount" * list maxValueCount limits
  | .maxImmSub max => keyword "maxImmSub" * number max
  | .restrictedBy restrictions => keyword "restrictedBy" * list restrictedValue restrictions
  | .classes r => keyword "classes" * refinement r

-- ── Permissions ──────────────────────────────────────────────────────────────────

/-- A grant or a denial. -/
def grantOrDenial : GrantOrDenial → Language Char
  | ⟨op, true⟩ => word "grant".toList * word op.name.toList
  | ⟨op, false⟩ => word "deny".toList * word op.name.toList

/-- The precedence of a permission, if it has one. -/
def permissionPrecedence : Option Nat → Language Char
  | none => 1
  | some n => keyword "precedence" * number n * aComma

/-- A permission for users already named. -/
def userPermission (p : UserPermission) : Language Char :=
  inBraces (permissionPrecedence p.precedence * keyword "protectedItems"
    * list protectedItem p.protectedItems * aComma * keyword "grantsAndDenials"
    * set grantOrDenial p.grantsAndDenials)

/-- A permission on items already named. -/
def itemPermission (p : ItemPermission) : Language Char :=
  inBraces (permissionPrecedence p.precedence * keyword "userClasses"
    * list userClass p.userClasses * aComma * keyword "grantsAndDenials"
    * set grantOrDenial p.grantsAndDenials)

-- ── Items ────────────────────────────────────────────────────────────────────────

/-- The part of an item that is written items first or users first. -/
def itemBody : AciItemBody → Language Char
  | .itemFirst items permissions =>
      word "itemFirst".toList * colon
        * inBraces (keyword "protectedItems" * list protectedItem items * aComma
            * keyword "itemPermissions" * list itemPermission permissions)
  | .userFirst classes permissions =>
      word "userFirst".toList * colon
        * inBraces (keyword "userClasses" * list userClass classes * aComma
            * keyword "userPermissions" * list userPermission permissions)

/-- The word for an authentication level. -/
def level : AuthenticationLevel → Language Char
  | .none => word "none".toList
  | .simple => word "simple".toList
  | .strong => word "strong".toList

/-- An access control item. -/
def item (i : AciItem) : Language Char :=
  inBraces (keyword "identificationTag" * quoted i.identificationTag * aComma
    * keyword "precedence" * number i.precedence * aComma
    * keyword "authenticationLevel" * level i.level * aComma
    * keyword "itemOrUserFirst" * itemBody i.body)

end Aci.Spelling

/-- The texts that spell an item, with blanks around them or not. -/
def AciItem.spellings (i : AciItem) : Language Char := blanks * Aci.Spelling.item i * blanks

/-- The texts that spell a subtree specification, with blanks around them or not. -/
def SubtreeSpecification.spellings (spec : SubtreeSpecification) : Language Char :=
  blanks * Aci.Spelling.subtree spec * blanks

end DirectoryAccess
