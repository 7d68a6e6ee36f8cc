import DirectoryAccess.Aci.Grammar
import DirectoryAccess.Proofs.Aci.Components
import DirectoryAccess.Proofs.Grammar.Taking
import DirectoryAccess.Proofs.Grammar.Yielding
import DirectoryAccess.Proofs.Name.Display
import DirectoryAccess.Proofs.Ordered.Set

/-! # Expressible items — what an accepted text can come to hold

    An item is EXPRESSIBLE if its parts are such as the grammar writes them: no
    precedence is above 255 and no number has more than 64 bits, names of attributes
    and classes are made of their own characters and in lower case, no text has a
    double quote, and no subtree ends above where it begins.  Whatever text is
    accepted, the item it is read as is expressible. -/

namespace DirectoryAccess

-- ── Words, names and numbers ─────────────────────────────────────────────────────

namespace Aci

/-- A text that can stand between double quotes. -/
def Quotable (s : String) : Prop := '"' ∉ s.toList

/-- An attribute name in lower case. -/
def IsAttributeName (s : String) : Prop :=
  (∃ c cs, s.toList = c :: cs ∧ isLetter c = true ∧ ∀ d ∈ cs, isAttributeChar d = true)
    ∧ Text.hasAsciiUpper s = false

/-- A class name or dotted number in lower case. -/
def IsClassName (s : String) : Prop :=
  (s.toList ≠ [] ∧ ∀ c ∈ s.toList, isClassChar c = true) ∧ Text.hasAsciiUpper s = false

/-- A number of 64 bits. -/
def IsNumber (n : Nat) : Prop := n < 2 ^ 64

/-- A number that can be a precedence. -/
def IsPrecedence (n : Nat) : Prop := n ≤ 255

end Aci

open Aci

/-- A name whose displayed text can stand between double quotes. -/
def Dn.Expressible (d : Dn) : Prop := Quotable d.display

-- ── Refinements and subtrees ─────────────────────────────────────────────────────

/-- A refinement all of whose class names are expressible. -/
inductive Refinement.Expressible : Refinement → Prop where
  | item {name : String} : IsClassName name → Expressible (.item name)
  | conjunction {rs : List Refinement} : (∀ r ∈ rs, Expressible r) → Expressible (.conjunction rs)
  | disjunction {rs : List Refinement} : (∀ r ∈ rs, Expressible r) → Expressible (.disjunction rs)
  | negation {r : Refinement} : Expressible r → Expressible (.negation r)

namespace SubtreeSpecification

/-- A specification each of whose parts is expressible by itself. -/
structure PartsExpressible (spec : SubtreeSpecification) : Prop where
  base : spec.base.Expressible
  chopBefore : ∀ d ∈ spec.chopBefore, d.Expressible
  chopAfter : ∀ d ∈ spec.chopAfter, d.Expressible
  minimum : IsNumber spec.minimum
  maximum : ∀ max ∈ spec.maximum, IsNumber max
  refinement : ∀ r ∈ spec.refinement, r.Expressible

/-- A specification with expressible parts whose maximum is not below its minimum. -/
structure Expressible (spec : SubtreeSpecification) : Prop extends PartsExpressible spec where
  ordered : ∀ max ∈ spec.maximum, spec.minimum ≤ max

end SubtreeSpecification

/-- An exclusion of an expressible name. -/
def Exclusion.Expressible : Exclusion → Prop
  | chopBefore d => d.Expressible
  | chopAfter d => d.Expressible

/-- A component of a specification that is expressible by itself. -/
def SubtreeComponent.Expressible : SubtreeComponent → Prop
  | base d => d.Expressible
  | exclusions list => ∀ e ∈ list, e.Expressible
  | minimum n => IsNumber n
  | maximum n => IsNumber n
  | filter r => r.Expressible

-- ── Items ────────────────────────────────────────────────────────────────────────

/-- A class of users whose names and subtrees are expressible. -/
def UserClass.Expressible : UserClass → Prop
  | allUsers => True
  | thisEntry => True
  | parentOfEntry => True
  | name names => ∀ d ∈ names.toList, d.Expressible
  | userGroup groups => ∀ d ∈ groups.toList, d.Expressible
  | subtree specs => ∀ spec ∈ specs, spec.Expressible

/-- A value that can be quoted, of an expressible attribute. -/
def AttributeValue.Expressible (v : AttributeValue) : Prop :=
  IsAttributeName v.attr ∧ Quotable v.value

/-- A limit that is a number, on an expressible attribute. -/
def MaxValueCount.Expressible (m : MaxValueCount) : Prop := IsAttributeName m.attr ∧ IsNumber m.max

/-- A restriction between expressible attributes. -/
def RestrictedValue.Expressible (r : RestrictedValue) : Prop :=
  IsAttributeName r.attr ∧ IsAttributeName r.valuesIn

/-- A protected item all of whose parts are expressible. -/
def ProtectedItem.Expressible : ProtectedItem → Prop
  | entry => True
  | allUserAttributeTypes => True
  | allUserAttributeTypesAndValues => True
  | attributeType attrs => ∀ a ∈ attrs.toList, IsAttributeName a
  | allAttributeValues attrs => ∀ a ∈ attrs.toList, IsAttributeName a
  | attributeValue avas => ∀ v ∈ avas.toList, v.Expressible
  | selfValue attrs => ∀ a ∈ attrs.toList, IsAttributeName a
  | maxValueCount limits => ∀ m ∈ limits, m.Expressible
  | maxImmSub max => IsNumber max
  | restrictedBy restrictions => ∀ r ∈ restrictions, r.Expressible
  | classes refinement => refinement.Expressible

/-- A permission with an expressible precedence on expressible protected items. -/
structure UserPermission.Expressible (p : UserPermission) : Prop where
  precedence : ∀ n ∈ p.precedence, IsPrecedence n
  protectedItems : ∀ i ∈ p.protectedItems, i.Expressible

/-- A permission with an expressible precedence for expressible classes of users. -/
structure ItemPermission.Expressible (p : ItemPermission) : Prop where
  precedence : ∀ n ∈ p.precedence, IsPrecedence n
  userClasses : ∀ c ∈ p.userClasses, c.Expressible

/-- A body all of whose parts are expressible. -/
def AciItemBody.Expressible : AciItemBody → Prop
  | itemFirst items permissions =>
      (∀ i ∈ items, i.Expressible) ∧ ∀ p ∈ permissions, p.Expressible
  | userFirst classes permissions =>
      (∀ c ∈ classes, c.Expressible) ∧ ∀ p ∈ permissions, p.Expressible

/-- An item all of whose parts are expressible. -/
structure AciItem.Expressible (i : AciItem) : Prop where
  identificationTag : Quotable i.identificationTag
  precedence : IsPrecedence i.precedence
  body : i.body.Expressible

-- ── What the rules yield ─────────────────────────────────────────────────────────

namespace Aci

open Grammar Rule

/-- Words are made of ASCII characters. -/
theorem isWordChar_ascii {c : Char} (h : isWordChar c = true) : c.toNat < 0x80 := by
  simp only [isWordChar, isLetter, isDigit, Bool.or_eq_true, Bool.and_eq_true, decide_eq_true_eq,
    beq_iff_eq] at h
  rcases h with (((h | h) | rfl) | rfl) | rfl
  · omega
  · omega
  · decide
  · decide
  · decide

theorem isWordChar_of_isAttributeChar {c : Char} (h : isAttributeChar c = true) :
    isWordChar c = true := by
  rw [isWordChar, Bool.or_eq_true]
  exact Or.inl h

theorem isWordChar_of_isClassChar {c : Char} (h : isClassChar c = true) : isWordChar c = true := by
  simp only [isClassChar, isWordChar, Bool.or_eq_true] at h ⊢
  tauto

/-- The lower case of a word is that of its letters. -/
theorem lowercase_word {cs : List Char} (h : ∀ c ∈ cs, isWordChar c = true) :
    Text.lowercase (String.ofList cs) = String.ofList (cs.map Text.asciiLowerChar) := by
  rw [Text.lowercase, String.toList_ofList,
    lowerFrom_ascii fun c hc => isWordChar_ascii (h c hc)]

theorem isAttributeChar_lower (c : Char) :
    isAttributeChar (Text.asciiLowerChar c) = isAttributeChar c := by
  simp only [isAttributeChar, asciiLowerChar_class, Text.asciiLowerChar_beq (d := ';') (by decide)]

theorem isClassChar_lower (c : Char) : isClassChar (Text.asciiLowerChar c) = isClassChar c := by
  simp only [isClassChar, asciiLowerChar_class]

theorem yields_attributeName : attributeName.Yields IsAttributeName := by
  refine .bind .oneOf fun c hc => .bind .run fun cs hcs => .pure ⟨?_, Text.lowercase_hasNoUpper _⟩
  have hfirst : isAttributeChar c = true := by
    rw [isAttributeChar, hc]
    rfl
  have hword : ∀ d ∈ c :: cs, isWordChar d = true := by
    intro d hd
    rcases List.mem_cons.mp hd with rfl | hd
    · exact isWordChar_of_isAttributeChar hfirst
    · exact isWordChar_of_isAttributeChar (hcs d hd)
  refine ⟨Text.asciiLowerChar c, cs.map Text.asciiLowerChar, ?_, ?_, ?_⟩
  · rw [lowercase_word hword, String.toList_ofList]
    rfl
  · rw [(asciiLowerChar_class c).1]
    exact hc
  · intro d hd
    obtain ⟨e, he, rfl⟩ := List.mem_map.mp hd
    rw [isAttributeChar_lower]
    exact hcs e he

theorem yields_className : className.Yields IsClassName := by
  refine .bind .run1 fun cs hcs => .pure ⟨?_, Text.lowercase_hasNoUpper _⟩
  rw [lowercase_word fun c hc => isWordChar_of_isClassChar (hcs.2 c hc), String.toList_ofList]
  constructor
  · rw [ne_eq, List.map_eq_nil_iff]
    exact hcs.1
  · intro d hd
    obtain ⟨e, he, rfl⟩ := List.mem_map.mp hd
    rw [isClassChar_lower]
    exact hcs.2 e he

theorem yields_quoted : quoted.Yields Quotable := by
  refine .after fun _ => .bind .upTo fun cs hcs => .after fun _ => .pure ?_
  intro hquote
  rw [String.toList_ofList] at hquote
  exact absurd (hcs _ hquote) (by decide)

theorem yields_name : name.Yields Dn.Expressible := by
  refine .checked yields_quoted fun s d hs hd => ?_
  cases hparse : Dn.parse s with
  | error e =>
      rw [hparse] at hd
      cases hd
  | ok d' =>
      rw [hparse] at hd
      cases hd
      exact Dn.no_quote_of_parse hs hparse

theorem yields_numberUpTo (max : Nat) : (numberUpTo max).Yields fun n => n ≤ max := by
  refine .checked .run1 fun digits n _ hn => ?_
  dsimp only at hn
  split at hn
  · next hle =>
    cases hn
    exact hle
  · cases hn

theorem yields_number : number.Yields IsNumber :=
  .mono (yields_numberUpTo _) fun _ h => Nat.lt_of_le_of_lt h (by decide)

theorem yields_precedence : precedence.Yields IsPrecedence := yields_numberUpTo _

/-- What is true of all that is read is true of all of the set made of it. -/
theorem yields_ofList {α : Type} [Ord α] [Std.TransOrd α] {r : Rule (List α)} {P : α → Prop}
    (hr : r.Yields fun as => ∀ a ∈ as, P a) :
    (do return OrdSet.ofList (← r)).Yields fun s => ∀ a ∈ s.toList, P a :=
  .bind hr fun _ has => .pure fun a ha => has a (OrdSet.mem_of_mem_ofList ha)

theorem yields_attributeSet : attributeSet.Yields fun s => ∀ a ∈ s.toList, IsAttributeName a :=
  yields_ofList (.list yields_attributeName)

theorem yields_nameSet : nameSet.Yields fun s => ∀ d ∈ s.toList, d.Expressible :=
  yields_ofList (.list yields_name)

theorem yields_bareOrQuoted : bareOrQuoted.Yields Quotable := by
  refine .orElse yields_quoted (.bind .upTo1 fun cs hcs => .pure ?_)
  intro hquote
  rw [String.toList_ofList] at hquote
  exact absurd (hcs _ hquote) (by decide)

theorem yields_attributeValue : attributeValue.Yields AttributeValue.Expressible :=
  .bind yields_attributeName fun _ hattr => .after fun _ => .after fun _ => .after fun _ =>
    .bind yields_bareOrQuoted fun _ hvalue => .pure ⟨hattr, hvalue⟩

theorem yields_maxValueCount : maxValueCount.Yields MaxValueCount.Expressible :=
  .braced <| .after fun _ => .bind yields_attributeName fun _ hattr => .after fun _ =>
    .after fun _ => .bind yields_number fun _ hmax => .pure ⟨hattr, hmax⟩

theorem yields_restrictedValue : restrictedValue.Yields RestrictedValue.Expressible :=
  .braced <| .after fun _ => .bind yields_attributeName fun _ hattr => .after fun _ =>
    .after fun _ => .bind yields_attributeName fun _ hvalues => .pure ⟨hattr, hvalues⟩

theorem yields_refinementUpTo (depth : Nat) :
    (refinementUpTo depth).Yields Refinement.Expressible := by
  induction depth with
  | zero => exact fun _ _ _ _ htaken => nomatch htaken
  | succ depth ih =>
      refine .orElse ?item (.orElse ?conjunction (.orElse ?disjunction ?negation))
      case item =>
        exact .after fun _ => .after fun _ => .bind yields_className fun _ h => .pure (.item h)
      case conjunction =>
        exact .after fun _ => .after fun _ => .bind (.list ih) fun _ h => .pure (.conjunction h)
      case disjunction =>
        exact .after fun _ => .after fun _ => .bind (.list ih) fun _ h => .pure (.disjunction h)
      case negation =>
        exact .after fun _ => .after fun _ => .bind ih fun _ h => .pure (.negation h)

theorem yields_refinement : refinement.Yields Refinement.Expressible :=
  fun place => yields_refinementUpTo (place.rest.length + 1) place

theorem yields_exclusion : exclusion.Yields Exclusion.Expressible := by
  refine .orElse ?chopBefore ?chopAfter
  case chopBefore =>
    exact .after fun _ => .after fun _ => .bind yields_name fun _ h => .pure h
  case chopAfter =>
    exact .after fun _ => .after fun _ => .bind yields_name fun _ h => .pure h

theorem yields_subtreeComponent : subtreeComponent.Yields SubtreeComponent.Expressible := by
  refine .orElse ?base (.orElse ?exclusions (.orElse ?minimum (.orElse ?maximum ?filter)))
  case base => exact .after fun _ => .bind yields_name fun _ h => .pure h
  case exclusions => exact .after fun _ => .bind (.list yields_exclusion) fun _ h => .pure h
  case minimum => exact .after fun _ => .bind yields_number fun _ h => .pure h
  case maximum => exact .after fun _ => .bind yields_number fun _ h => .pure h
  case filter => exact .after fun _ => .bind yields_refinement fun _ h => .pure h

end Aci

-- ── Subtrees made of their components ────────────────────────────────────────────

namespace SubtreeSpecification

theorem partsExpressible_everything : everything.PartsExpressible where
  base := nofun
  chopBefore := nofun
  chopAfter := nofun
  minimum := Nat.two_pow_pos 64
  maximum := nofun
  refinement := nofun

/-- A name that is left out before comes from an exclusion that says so. -/
theorem mem_chopsBefore {list : List Exclusion} {d : Dn}
    (h : d ∈ SubtreeComponent.chopsBefore list) : .chopBefore d ∈ list := by
  obtain ⟨e, he, hd⟩ := List.mem_filterMap.mp h
  cases e with
  | chopBefore x =>
      cases hd
      exact he
  | chopAfter x => cases hd

theorem mem_chopsAfter {list : List Exclusion} {d : Dn}
    (h : d ∈ SubtreeComponent.chopsAfter list) : .chopAfter d ∈ list := by
  obtain ⟨e, he, hd⟩ := List.mem_filterMap.mp h
  cases e with
  | chopBefore x => cases hd
  | chopAfter x =>
      cases hd
      exact he

/-- Writing an expressible component into a specification keeps its parts
    expressible. -/
theorem PartsExpressible.writeInto {spec : SubtreeSpecification} (hs : spec.PartsExpressible)
    {c : SubtreeComponent} (hc : c.Expressible) :
    (SubtreeComponent.writeInto spec c).PartsExpressible := by
  cases c with
  | base d => exact { hs with base := hc }
  | exclusions list =>
      refine { hs with chopBefore := ?_, chopAfter := ?_ }
      · exact List.forall_mem_append.mpr ⟨hs.chopBefore, fun d hd => hc _ (mem_chopsBefore hd)⟩
      · exact List.forall_mem_append.mpr ⟨hs.chopAfter, fun d hd => hc _ (mem_chopsAfter hd)⟩
  | minimum n => exact { hs with minimum := hc }
  | maximum n => exact { hs with maximum := fun max hmax => Option.some.inj hmax ▸ hc }
  | filter r => exact { hs with refinement := fun r' hr => Option.some.inj hr ▸ hc }

/-- A specification made of expressible components is expressible. -/
theorem expressible_of_components {cs : List SubtreeComponent} (hcs : ∀ c ∈ cs, c.Expressible)
    {spec : SubtreeSpecification} (h : ofComponents? cs = some spec) : spec.Expressible := by
  obtain ⟨hdescribed, hordered⟩ := ofComponents?_eq_some_iff.mp h
  have hparts : spec.PartsExpressible :=
    hdescribed.induction partsExpressible_everything fun _ c hc hs => hs.writeInto (hcs c hc)
  exact { hparts with ordered := hordered }

end SubtreeSpecification

-- ── Whole items ──────────────────────────────────────────────────────────────────

namespace Aci

open Grammar Rule

theorem yields_subtreeSpecification :
    subtreeSpecification.Yields SubtreeSpecification.Expressible :=
  .checked (.list yields_subtreeComponent) fun _ _ hcs hspec =>
    SubtreeSpecification.expressible_of_components hcs hspec

theorem yields_userClass : userClass.Yields UserClass.Expressible := by
  refine .orElse ?allUsers (.orElse ?thisEntry (.orElse ?parentOfEntry (.orElse ?name
    (.orElse ?userGroup ?subtree))))
  case allUsers => exact .after fun _ => .pure trivial
  case thisEntry => exact .after fun _ => .pure trivial
  case parentOfEntry => exact .after fun _ => .pure trivial
  case name => exact .after fun _ => .bind yields_nameSet fun _ h => .pure h
  case userGroup => exact .after fun _ => .bind yields_nameSet fun _ h => .pure h
  case subtree =>
    exact .after fun _ => .bind (.list yields_subtreeSpecification) fun _ h => .pure h

theorem yields_protectedItem : protectedItem.Yields ProtectedItem.Expressible := by
  refine .orElse ?entry (.orElse ?allTypesAndValues (.orElse ?allTypes (.orElse ?attributeType
    (.orElse ?allAttributeValues (.orElse ?attributeValue (.orElse ?selfValue
    (.orElse ?maxValueCount (.orElse ?maxImmSub (.orElse ?restrictedBy ?classes)))))))))
  case entry => exact .after fun _ => .pure trivial
  case allTypesAndValues => exact .after fun _ => .pure trivial
  case allTypes => exact .after fun _ => .pure trivial
  case attributeType => exact .after fun _ => .bind yields_attributeSet fun _ h => .pure h
  case allAttributeValues => exact .after fun _ => .bind yields_attributeSet fun _ h => .pure h
  case attributeValue =>
    exact .after fun _ => .bind (.list yields_attributeValue) fun _ h =>
      .pure fun v hv => h v (OrdSet.mem_of_mem_ofList hv)
  case selfValue => exact .after fun _ => .bind yields_attributeSet fun _ h => .pure h
  case maxValueCount =>
    exact .after fun _ => .bind (.list yields_maxValueCount) fun _ h => .pure h
  case maxImmSub => exact .after fun _ => .bind yields_number fun _ h => .pure h
  case restrictedBy =>
    exact .after fun _ => .bind (.list yields_restrictedValue) fun _ h => .pure h
  case classes => exact .after fun _ => .bind yields_refinement fun _ h => .pure h

theorem yields_permissionPrecedence :
    permissionPrecedence.Yields fun o => ∀ n ∈ o, IsPrecedence n :=
  .optional <| .after fun _ => .bind yields_precedence fun _ hn => .after fun _ => .pure hn

theorem yields_userPermission : userPermission.Yields UserPermission.Expressible :=
  .braced <| .bind yields_permissionPrecedence fun _ hprecedence => .after fun _ =>
    .bind (.list yields_protectedItem) fun _ hitems => .after fun _ => .after fun _ =>
    .after fun _ => .pure ⟨hprecedence, hitems⟩

theorem yields_itemPermission : itemPermission.Yields ItemPermission.Expressible :=
  .braced <| .bind yields_permissionPrecedence fun _ hprecedence => .after fun _ =>
    .bind (.list yields_userClass) fun _ hclasses => .after fun _ => .after fun _ =>
    .after fun _ => .pure ⟨hprecedence, hclasses⟩

theorem yields_itemBody : itemBody.Yields AciItemBody.Expressible := by
  refine .orElse ?itemFirst ?userFirst
  case itemFirst =>
    exact .after fun _ => .after fun _ => .braced <| .after fun _ =>
      .bind (.list yields_protectedItem) fun _ hitems => .after fun _ => .after fun _ =>
      .bind (.list yields_itemPermission) fun _ hpermissions => .pure ⟨hitems, hpermissions⟩
  case userFirst =>
    exact .after fun _ => .after fun _ => .braced <| .after fun _ =>
      .bind (.list yields_userClass) fun _ hclasses => .after fun _ => .after fun _ =>
      .bind (.list yields_userPermission) fun _ hpermissions => .pure ⟨hclasses, hpermissions⟩

theorem yields_item : item.Yields AciItem.Expressible :=
  .braced <| .after fun _ => .bind yields_quoted fun _ htag => .after fun _ => .after fun _ =>
    .bind yields_precedence fun _ hprecedence => .after fun _ => .after fun _ =>
    .after fun _ => .after fun _ => .after fun _ => .bind yields_itemBody fun _ hbody =>
    .pure ⟨htag, hprecedence, hbody⟩

/-- What a rule yields is true of every value that is read with it. -/
theorem of_read {α : Type} {r : Rule α} {P : α → Prop} (hr : r.Yields P) {s : String} {a : α}
    (h : read r s = .ok a) : P a := by
  rw [read] at h
  dsimp only at h
  split at h
  · next b hwhole =>
    cases h
    exact hr.whole hwhole
  · cases h

end Aci

/-- Whatever text is accepted, the item it is read as is expressible. -/
theorem AciItem.expressible_of_parse {s : String} {i : AciItem} (h : parse s = .ok i) :
    i.Expressible :=
  of_read yields_item h

/-- Whatever text is accepted, the specification it is read as is expressible. -/
theorem SubtreeSpecification.expressible_of_parse {s : String} {spec : SubtreeSpecification}
    (h : parse s = .ok spec) : spec.Expressible :=
  of_read yields_subtreeSpecification h

end DirectoryAccess
