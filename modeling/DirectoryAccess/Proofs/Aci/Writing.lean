import DirectoryAccess.Proofs.Aci.SubtreeSpelling

/-! # Writing — whatever is expressible can be spelled

    A statement on all spellings of an item says little if it has none.  Here every
    part of the grammar is seen to have a text for each expressible value, so that
    every expressible item and every expressible subtree specification can be
    written. -/

namespace DirectoryAccess

open Grammar

namespace Grammar

-- ── Writing without blanks ───────────────────────────────────────────────────────

theorem nil_mem_blanks : [] ∈ blanks := nofun

theorem mem_aComma : [','] ∈ aComma :=
  ⟨[','], ⟨[], nil_mem_blanks, [','], rfl, rfl⟩, [], nil_mem_blanks, rfl⟩

theorem mem_blanks_around {L : Language Char} {t : List Char} (ht : t ∈ L) :
    t ∈ blanks * L * blanks :=
  ⟨t, ⟨[], nil_mem_blanks, t, ht, rfl⟩, [], nil_mem_blanks, List.append_nil t⟩

theorem mem_inBraces {L : Language Char} {t : List Char} (ht : t ∈ L) :
    '{' :: (t ++ ['}']) ∈ inBraces L := by
  have hopen : '{' :: t ∈ word ['{'] * blanks * L :=
    ⟨['{'], ⟨['{'], rfl, [], nil_mem_blanks, rfl⟩, t, ht, rfl⟩
  have hclose : '{' :: t ∈ word ['{'] * blanks * L * blanks :=
    ⟨'{' :: t, hopen, [], nil_mem_blanks, List.append_nil _⟩
  exact ⟨'{' :: t, hclose, ['}'], rfl, rfl⟩

/-- A language that has a text. -/
def HasText (L : Language Char) : Prop := ∃ t, t ∈ L

end Grammar

namespace Grammar.HasText

variable {L M : Language Char}

theorem word (cs : List Char) : HasText (word cs) := ⟨cs, rfl⟩

theorem blanks : HasText blanks := ⟨[], nil_mem_blanks⟩

theorem mul : HasText L → HasText M → HasText (L * M) := by
  rintro ⟨t, ht⟩ ⟨u, hu⟩
  exact ⟨t ++ u, Language.append_mem_mul ht hu⟩

theorem aComma : HasText aComma := ⟨[','], mem_aComma⟩

theorem inBraces : HasText L → HasText (inBraces L) := by
  rintro ⟨t, ht⟩
  exact ⟨_, mem_inBraces ht⟩

theorem afterCommas {Ls : List (Language Char)} (h : ∀ L ∈ Ls, HasText L) :
    HasText (afterCommas Ls) := by
  induction Ls with
  | nil => exact ⟨[], rfl⟩
  | cons L Ls ih =>
      obtain ⟨hL, hLs⟩ := List.forall_mem_cons.mp h
      exact (aComma.mul hL).mul (ih hLs)

theorem separated {Ls : List (Language Char)} (h : ∀ L ∈ Ls, HasText L) :
    HasText (separated Ls) := by
  cases Ls with
  | nil => exact ⟨[], rfl⟩
  | cons L Ls =>
      obtain ⟨hL, hLs⟩ := List.forall_mem_cons.mp h
      exact hL.mul (afterCommas hLs)

end Grammar.HasText

namespace Aci.Spelling

-- ── Words, numbers, lists and sets ───────────────────────────────────────────────

theorem mem_keyword (w : String) : w.toList ∈ keyword w :=
  ⟨w.toList, rfl, [], nil_mem_blanks, List.append_nil _⟩

theorem mem_colon : [':'] ∈ colon :=
  ⟨[':'], ⟨[], nil_mem_blanks, [':'], rfl, rfl⟩, [], nil_mem_blanks, rfl⟩

theorem hasText_keyword (w : String) : HasText (keyword w) := ⟨_, mem_keyword w⟩

theorem hasText_colon : HasText colon := ⟨_, mem_colon⟩

theorem hasText_quoted (s : String) : HasText (quoted s) := .word _

/-- A text without capitals spells itself. -/
theorem hasText_anyCase {s : String} (h : Text.hasAsciiUpper s = false) : HasText (anyCase s) := by
  refine ⟨s.toList, ?_⟩
  have hlower := congrArg String.toList (Text.asciiLower_of_noUpper h)
  rwa [Text.asciiLower, String.toList_ofList] at hlower

/-- Every number is written with its digits. -/
theorem hasText_number (n : Nat) : HasText (number n) := by
  induction n using Nat.strongRecOn with
  | ind n ih =>
      have hdigit : ∀ d < 10, isDigit (Char.ofNat (0x30 + d)) = true
          ∧ (Char.ofNat (0x30 + d)).toNat - 0x30 = d := by
        decide
      obtain ⟨hlast, hvalue⟩ := hdigit (n % 10) (Nat.mod_lt _ (by decide))
      by_cases hn : n < 10
      · rw [Nat.mod_eq_of_lt hn] at hlast hvalue
        refine ⟨[Char.ofNat (0x30 + n)], nofun, ?_, ?_⟩
        · simpa using hlast
        · simpa [decimal] using hvalue
      · obtain ⟨digits, hne, hdigits, hfront⟩ := ih (n / 10) (by omega)
        refine ⟨digits ++ [Char.ofNat (0x30 + n % 10)], by simp, ?_, ?_⟩
        · rw [List.forall_mem_append]
          exact ⟨hdigits, by simpa using hlast⟩
        · rw [decimal, List.foldl_append, ← decimal, hfront]
          simp only [List.foldl_cons, List.foldl_nil]
          omega

/-- A list is spelled if each of its elements is. -/
theorem hasText_list {α : Type} {spell : α → Language Char} {as : List α}
    (h : ∀ a ∈ as, HasText (spell a)) : HasText (list spell as) :=
  .inBraces (.separated (List.forall_mem_map.mpr h))

/-- Two elements are spelled with a comma between them. -/
theorem mem_list_two {α : Type} {spell : α → Language Char} {a b : α} {t u : List Char}
    (ht : t ∈ spell a) (hu : u ∈ spell b) :
    '{' :: (t ++ ',' :: u ++ ['}']) ∈ list spell [a, b] := by
  have hbehind : ',' :: u ∈ afterCommas [spell b] :=
    ⟨',' :: u, Language.append_mem_mul mem_aComma hu, [], rfl, List.append_nil _⟩
  exact mem_inBraces ⟨t, ht, ',' :: u, hbehind, rfl⟩

/-- A set is spelled if each of its elements is. -/
theorem hasText_set {α : Type} [Ord α] {spell : α → Language Char} {s : OrdSet α}
    (h : ∀ a ∈ s.toList, HasText (spell a)) : HasText (set spell s) := by
  obtain ⟨t, ht⟩ := hasText_list h
  exact ⟨t, s.toList, fun _ => Iff.rfl, ht⟩

-- ── Refinements and subtrees ─────────────────────────────────────────────────────

theorem hasText_refinement {r : Refinement} (h : r.Expressible) : HasText (refinement r) := by
  induction h with
  | item hname => exact ((HasText.word _).mul hasText_colon).mul (hasText_anyCase hname.2)
  | conjunction _ ih =>
      rw [refinement, refinements_eq_map]
      exact ((HasText.word _).mul hasText_colon).mul (hasText_list ih)
  | disjunction _ ih =>
      rw [refinement, refinements_eq_map]
      exact ((HasText.word _).mul hasText_colon).mul (hasText_list ih)
  | negation _ ih => exact ((HasText.word _).mul hasText_colon).mul ih

theorem hasText_exclusion (e : Exclusion) : HasText (exclusion e) := by
  cases e with
  | chopBefore d => exact ((HasText.word _).mul hasText_colon).mul (hasText_quoted _)
  | chopAfter d => exact ((HasText.word _).mul hasText_colon).mul (hasText_quoted _)

theorem hasText_component {c : SubtreeComponent} (h : c.Expressible) : HasText (component c) := by
  cases c with
  | base d => exact (hasText_keyword _).mul (hasText_quoted _)
  | exclusions es => exact (hasText_keyword _).mul (hasText_list fun e _ => hasText_exclusion e)
  | minimum n => exact (hasText_keyword _).mul (hasText_number n)
  | maximum n => exact (hasText_keyword _).mul (hasText_number n)
  | filter r => exact (hasText_keyword _).mul (hasText_refinement h)

/-- Components that describe a specification in full. -/
def componentsOf (spec : SubtreeSpecification) : List SubtreeComponent :=
  [.base spec.base,
    .exclusions (spec.chopBefore.map .chopBefore ++ spec.chopAfter.map .chopAfter),
    .minimum spec.minimum]
    ++ (spec.maximum.map SubtreeComponent.maximum).toList
    ++ (spec.refinement.map SubtreeComponent.filter).toList

/-- The exclusions of two lists of names leave out the first list before. -/
theorem chopsBefore_all (before after : List Dn) :
    SubtreeComponent.chopsBefore (before.map .chopBefore ++ after.map .chopAfter) = before := by
  rw [SubtreeComponent.chopsBefore, List.filterMap_append, List.filterMap_map, List.filterMap_map]
  simp

theorem chopsAfter_all (before after : List Dn) :
    SubtreeComponent.chopsAfter (before.map .chopBefore ++ after.map .chopAfter) = after := by
  rw [SubtreeComponent.chopsAfter, List.filterMap_append, List.filterMap_map, List.filterMap_map]
  simp

theorem describedBy_componentsOf (spec : SubtreeSpecification) :
    spec.DescribedBy (componentsOf spec) := by
  obtain ⟨base, before, after, minimum, maximum, filter⟩ := spec
  constructor
  case distinct => cases maximum <;> cases filter <;> simp [componentsOf, SubtreeComponent.kind]
  case said =>
    intro c hc
    simp only [componentsOf, List.mem_append, List.mem_cons, List.not_mem_nil, or_false,
      Option.mem_toList, Option.map_eq_some_iff] at hc
    rcases hc with ((rfl | rfl | rfl) | ⟨n, hn, rfl⟩) | ⟨r, hr, rfl⟩
    · exact rfl
    · exact ⟨(chopsBefore_all before after).symm, (chopsAfter_all before after).symm⟩
    · exact rfl
    · exact hn
    · exact hr
  case unsaid =>
    intro k hk
    cases k with
    | base => exact absurd (by simp [componentsOf, SubtreeComponent.kind]) hk
    | exclusions => exact absurd (by simp [componentsOf, SubtreeComponent.kind]) hk
    | minimum => exact absurd (by simp [componentsOf, SubtreeComponent.kind]) hk
    | maximum =>
        cases maximum with
        | none => exact rfl
        | some n => exact absurd (by simp [componentsOf, SubtreeComponent.kind]) hk
    | filter =>
        cases filter with
        | none => exact rfl
        | some r => exact absurd (by simp [componentsOf, SubtreeComponent.kind]) hk

theorem hasText_subtree {spec : SubtreeSpecification} (h : spec.Expressible) :
    HasText (subtree spec) := by
  have hdescribed := describedBy_componentsOf spec
  obtain ⟨t, ht⟩ := hasText_list fun c hc => hasText_component (h.component (hdescribed.said c hc))
  exact ⟨t, componentsOf spec, hdescribed, ht⟩

-- ── Users and what is protected ──────────────────────────────────────────────────

theorem hasText_userClass {c : UserClass} (h : c.Expressible) : HasText (userClass c) := by
  cases c with
  | allUsers => exact .word _
  | thisEntry => exact .word _
  | parentOfEntry => exact .word _
  | name names => exact (hasText_keyword _).mul (hasText_set fun d _ => hasText_quoted _)
  | userGroup groups => exact (hasText_keyword _).mul (hasText_set fun d _ => hasText_quoted _)
  | subtree specs =>
      exact (hasText_keyword _).mul (hasText_list fun spec hspec => hasText_subtree (h spec hspec))

theorem hasText_attributeSet {s : OrdSet String} (h : ∀ a ∈ s.toList, IsAttributeName a) :
    HasText (set anyCase s) :=
  hasText_set fun a ha => hasText_anyCase (h a ha).2

theorem hasText_attributeValue {v : AttributeValue} (h : v.Expressible) :
    HasText (attributeValue v) :=
  ((((hasText_anyCase h.1.2).mul .blanks).mul (.word _)).mul .blanks).mul (hasText_quoted _)

theorem hasText_maxValueCount {m : MaxValueCount} (h : m.Expressible) :
    HasText (maxValueCount m) :=
  .inBraces <| ((((hasText_keyword _).mul (hasText_anyCase h.1.2)).mul .aComma).mul
    (hasText_keyword _)).mul (hasText_number _)

theorem hasText_restrictedValue {r : RestrictedValue} (h : r.Expressible) :
    HasText (restrictedValue r) :=
  .inBraces <| ((((hasText_keyword _).mul (hasText_anyCase h.1.2)).mul .aComma).mul
    (hasText_keyword _)).mul (hasText_anyCase h.2.2)

theorem hasText_protectedItem {i : ProtectedItem} (h : i.Expressible) :
    HasText (protectedItem i) := by
  cases i with
  | entry => exact .word _
  | allUserAttributeTypes => exact .word _
  | allUserAttributeTypesAndValues => exact .word _
  | attributeType attrs => exact (hasText_keyword _).mul (hasText_attributeSet h)
  | allAttributeValues attrs => exact (hasText_keyword _).mul (hasText_attributeSet h)
  | attributeValue avas =>
      exact (hasText_keyword _).mul (hasText_set fun v hv => hasText_attributeValue (h v hv))
  | selfValue attrs => exact (hasText_keyword _).mul (hasText_attributeSet h)
  | maxValueCount limits =>
      exact (hasText_keyword _).mul (hasText_list fun m hm => hasText_maxValueCount (h m hm))
  | maxImmSub max => exact (hasText_keyword _).mul (hasText_number max)
  | restrictedBy restrictions =>
      exact (hasText_keyword _).mul (hasText_list fun r hr => hasText_restrictedValue (h r hr))
  | classes r => exact (hasText_keyword _).mul (hasText_refinement h)

-- ── Permissions and items ────────────────────────────────────────────────────────

theorem hasText_grantsAndDenials (s : OrdSet GrantOrDenial) : HasText (set grantOrDenial s) := by
  refine hasText_set fun g _ => ?_
  obtain ⟨op, grants⟩ := g
  cases grants with
  | true => exact (HasText.word _).mul (.word _)
  | false => exact (HasText.word _).mul (.word _)

theorem hasText_permissionPrecedence (o : Option Nat) : HasText (permissionPrecedence o) := by
  cases o with
  | none => exact ⟨[], rfl⟩
  | some n => exact ((hasText_keyword _).mul (hasText_number n)).mul .aComma

theorem hasText_userPermission {p : UserPermission} (h : p.Expressible) :
    HasText (userPermission p) :=
  .inBraces <| (((((hasText_permissionPrecedence _).mul (hasText_keyword _)).mul
    (hasText_list fun i hi => hasText_protectedItem (h.protectedItems i hi))).mul .aComma).mul
    (hasText_keyword _)).mul (hasText_grantsAndDenials _)

theorem hasText_itemPermission {p : ItemPermission} (h : p.Expressible) :
    HasText (itemPermission p) :=
  .inBraces <| (((((hasText_permissionPrecedence _).mul (hasText_keyword _)).mul
    (hasText_list fun c hc => hasText_userClass (h.userClasses c hc))).mul .aComma).mul
    (hasText_keyword _)).mul (hasText_grantsAndDenials _)

theorem hasText_itemBody {b : AciItemBody} (h : b.Expressible) : HasText (itemBody b) := by
  cases b with
  | itemFirst items permissions =>
      have hitems := hasText_list fun i hi => hasText_protectedItem (h.1 i hi)
      have hpermissions := hasText_list fun p hp => hasText_itemPermission (h.2 p hp)
      exact ((HasText.word _).mul hasText_colon).mul (.inBraces
        (((((hasText_keyword _).mul hitems).mul .aComma).mul
          (hasText_keyword _)).mul hpermissions))
  | userFirst classes permissions =>
      have hclasses := hasText_list fun c hc => hasText_userClass (h.1 c hc)
      have hpermissions := hasText_list fun p hp => hasText_userPermission (h.2 p hp)
      exact ((HasText.word _).mul hasText_colon).mul (.inBraces
        (((((hasText_keyword _).mul hclasses).mul .aComma).mul
          (hasText_keyword _)).mul hpermissions))

theorem hasText_level (l : AuthenticationLevel) : HasText (level l) := by
  cases l with
  | none => exact .word _
  | simple => exact .word _
  | strong => exact .word _

theorem hasText_item {i : AciItem} (h : i.Expressible) : HasText (item i) := by
  simp only [item, mul_assoc]
  refine .inBraces ((hasText_keyword _).mul ((hasText_quoted _).mul (HasText.aComma.mul ?_)))
  refine (hasText_keyword _).mul ((hasText_number _).mul (HasText.aComma.mul ?_))
  refine (hasText_keyword _).mul ((hasText_level _).mul (HasText.aComma.mul ?_))
  exact (hasText_keyword _).mul (hasText_itemBody h.body)

end Aci.Spelling

/-- Every expressible item has a spelling. -/
theorem AciItem.Expressible.exists_spelling {i : AciItem} (h : i.Expressible) :
    ∃ s : String, s.toList ∈ i.spellings := by
  obtain ⟨t, ht⟩ := Aci.Spelling.hasText_item h
  refine ⟨String.ofList t, ?_⟩
  rw [String.toList_ofList]
  exact mem_blanks_around ht

/-- Every expressible subtree specification has a spelling. -/
theorem SubtreeSpecification.Expressible.exists_spelling {spec : SubtreeSpecification}
    (h : spec.Expressible) : ∃ s : String, s.toList ∈ spec.spellings := by
  obtain ⟨t, ht⟩ := Aci.Spelling.hasText_subtree h
  refine ⟨String.ofList t, ?_⟩
  rw [String.toList_ofList]
  exact mem_blanks_around ht

end DirectoryAccess
