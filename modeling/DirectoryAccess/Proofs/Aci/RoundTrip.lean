import DirectoryAccess.Proofs.Aci.SubtreeSpelling
import DirectoryAccess.Proofs.Aci.Writing

/-! # Round trips — every spelling is read as what it spells

    Each rule of the grammar takes the spellings of every expressible value as that
    value, so whatever was accepted can be written in any of its spellings and is read
    as the very same item.  Where one keyword starts like another, the ordered choice
    still finds the right one: either the words differ somewhere, or the longer one is
    tried first and the shorter one stands alone. -/

namespace DirectoryAccess

namespace Aci

open Grammar Rule

-- ── Users and what is protected ──────────────────────────────────────────────────

theorem solid_userClass (c : UserClass) : Solid (Spelling.userClass c) := by
  cases c with
  | allUsers => exact .word rfl
  | thisEntry => exact .word rfl
  | parentOfEntry => exact .word rfl
  | name names => exact (Spelling.solid_keyword rfl).mul
  | userGroup groups => exact (Spelling.solid_keyword rfl).mul
  | subtree specs => exact (Spelling.solid_keyword rfl).mul

/-- A word that stands for a value by itself. -/
theorem takes_word {α : Type} (w : List Char) (a : α) :
    (literal w >>= fun _ => Pure.pure a).Takes (word w) a := by
  rintro t rfl rest -
  exact (reads_literal _ rest).map fun _ => a

theorem takes_userClass {c : UserClass} (h : c.Expressible) :
    userClass.Takes (Spelling.userClass c) c := by
  simp only [userClass, meaning, keyword, bind_assoc]
  cases c with
  | allUsers => exact .first (takes_word _ _)
  | thisEntry => exact .skip_word (by decide) (.first (takes_word _ _))
  | parentOfEntry =>
      exact .skip_word (by decide) (.skip_word (by decide) (.first (takes_word _ _)))
  | name names =>
      simp only [Spelling.userClass, Spelling.keyword, mul_assoc]
      repeat refine .skip (by decide) ?_
      refine .first (.literal (.spacing (Spelling.starts_set rfl _ _) ?_))
      exact .map UserClass.name (takes_nameSet h)
  | userGroup groups =>
      simp only [Spelling.userClass, Spelling.keyword, mul_assoc]
      repeat refine .skip (by decide) ?_
      refine .first (.literal (.spacing (Spelling.starts_set rfl _ _) ?_))
      exact .map UserClass.userGroup (takes_nameSet h)
  | subtree specs =>
      simp only [Spelling.userClass, Spelling.keyword, mul_assoc]
      repeat refine .skip (by decide) ?_
      refine .literal (.spacing (Spelling.starts_list rfl _ _) ?_)
      refine .map UserClass.subtree (takes_list (fun _ _ => ⟨_, rfl⟩) ?_ ?_)
      · exact fun spec _ => starts_subtree rfl spec
      · exact fun spec hspec => takes_subtree (h spec hspec)

theorem solid_protectedItem (i : ProtectedItem) : Solid (Spelling.protectedItem i) := by
  cases i with
  | entry => exact .word rfl
  | allUserAttributeTypes => exact .word rfl
  | allUserAttributeTypesAndValues => exact .word rfl
  | attributeType attrs => exact (Spelling.solid_keyword rfl).mul
  | allAttributeValues attrs => exact (Spelling.solid_keyword rfl).mul
  | attributeValue avas => exact (Spelling.solid_keyword rfl).mul
  | selfValue attrs => exact (Spelling.solid_keyword rfl).mul
  | maxValueCount limits => exact (Spelling.solid_keyword rfl).mul
  | maxImmSub max => exact (Spelling.solid_keyword rfl).mul
  | restrictedBy restrictions => exact (Spelling.solid_keyword rfl).mul
  | classes r => exact (Spelling.solid_keyword rfl).mul

/-- A protected item is taken as what it covers. -/
theorem takes_protectedItem {i : ProtectedItem} (h : i.Expressible) :
    protectedItem.Takes (Spelling.protectedItem i) i := by
  simp only [protectedItem, meaning, keyword, bind_assoc]
  cases i with
  | entry => exact .first (takes_word _ _)
  | allUserAttributeTypesAndValues => exact .skip_word (by decide) (.first (takes_word _ _))
  | allUserAttributeTypes =>
      -- the longer keyword is refused, as no word goes on behind the shorter one
      exact .skip_word (by decide) (.skip_word (by decide) (.first (takes_word _ _)))
  | attributeType attrs =>
      simp only [Spelling.protectedItem, Spelling.keyword, mul_assoc]
      repeat refine .skip (by decide) ?_
      refine .first (.literal (.spacing (Spelling.starts_set rfl _ _) ?_))
      exact .map ProtectedItem.attributeType (takes_attributeSet h)
  | allAttributeValues attrs =>
      simp only [Spelling.protectedItem, Spelling.keyword, mul_assoc]
      repeat refine .skip (by decide) ?_
      refine .first (.literal (.spacing (Spelling.starts_set rfl _ _) ?_))
      exact .map ProtectedItem.allAttributeValues (takes_attributeSet h)
  | attributeValue avas =>
      simp only [Spelling.protectedItem, Spelling.keyword, mul_assoc]
      repeat refine .skip (by decide) ?_
      refine .first (.literal (.spacing (Spelling.starts_set rfl _ _) ?_))
      refine takes_set ProtectedItem.attributeValue (fun _ _ => ⟨_, rfl⟩) ?_ ?_
      · exact fun v hv => solid_attributeValue (h v hv)
      · exact fun v hv => takes_attributeValue (h v hv)
  | selfValue attrs =>
      simp only [Spelling.protectedItem, Spelling.keyword, mul_assoc]
      repeat refine .skip (by decide) ?_
      refine .first (.literal (.spacing (Spelling.starts_set rfl _ _) ?_))
      exact .map ProtectedItem.selfValue (takes_attributeSet h)
  | maxValueCount limits =>
      simp only [Spelling.protectedItem, Spelling.keyword, mul_assoc]
      repeat refine .skip (by decide) ?_
      refine .first (.literal (.spacing (Spelling.starts_list rfl _ _) ?_))
      refine .map ProtectedItem.maxValueCount (takes_list (fun _ _ => ⟨_, rfl⟩) ?_ ?_)
      · exact fun m _ => .inBraces rfl _
      · exact fun m hm => takes_maxValueCount (h m hm)
  | maxImmSub max =>
      simp only [Spelling.protectedItem, Spelling.keyword, mul_assoc]
      repeat refine .skip (by decide) ?_
      refine .first (.literal (.spacing (Spelling.solid_number _) ?_))
      exact .map ProtectedItem.maxImmSub (takes_number h)
  | restrictedBy restrictions =>
      simp only [Spelling.protectedItem, Spelling.keyword, mul_assoc]
      repeat refine .skip (by decide) ?_
      refine .first (.literal (.spacing (Spelling.starts_list rfl _ _) ?_))
      refine .map ProtectedItem.restrictedBy (takes_list (fun _ _ => ⟨_, rfl⟩) ?_ ?_)
      · exact fun r _ => .inBraces rfl _
      · exact fun r hr => takes_restrictedValue (h r hr)
  | classes r =>
      simp only [Spelling.protectedItem, Spelling.keyword, mul_assoc]
      repeat refine .skip (by decide) ?_
      refine .literal (.spacing (solid_refinement r) ?_)
      exact .map ProtectedItem.classes (takes_refinement h)

-- ── Permissions ──────────────────────────────────────────────────────────────────

/-- The names of two micro operations differ somewhere. -/
theorem misses_name {op op' : MicroOperation} (h : op' ≠ op) :
    misses true op'.name.toList op.name.toList = true := by
  cases op <;> cases op' <;> first | exact absurd rfl h | rfl

/-- The name of a micro operation is found wherever it stands in the list of names. -/
theorem takes_firstNamed {op : MicroOperation} {ops : List MicroOperation} (h : op ∈ ops) :
    (firstNamed ops).Takes (word op.name.toList) op := by
  induction ops with
  | nil => cases h
  | cons op' ops ih =>
      rw [firstNamed, meaning]
      by_cases he : op' = op
      · rw [he]
        exact .first (takes_word _ _)
      · exact .skip_word (misses_name he) (ih ((List.mem_cons.mp h).resolve_left (Ne.symm he)))

theorem mem_all (op : MicroOperation) : op ∈ MicroOperation.all := by
  cases op <;> decide

theorem takes_grantOrDenial (g : GrantOrDenial) :
    grantOrDenial.Takes (Spelling.grantOrDenial g) g := by
  obtain ⟨op, grants⟩ := g
  have hop : microOperation.Takes (word op.name.toList) op := takes_firstNamed (mem_all op)
  cases grants with
  | true => exact .first (.literal (.map (fun op => (⟨op, true⟩ : GrantOrDenial)) hop))
  | false =>
      exact .skip (by decide) (.literal (.map (fun op => (⟨op, false⟩ : GrantOrDenial)) hop))

theorem solid_grantOrDenial (g : GrantOrDenial) : Solid (Spelling.grantOrDenial g) := by
  obtain ⟨op, grants⟩ := g
  cases grants with
  | true => exact (StartsOff.word rfl).mul
  | false => exact (StartsOff.word rfl).mul

/-- Grants and denials are taken in any order. -/
theorem takes_grantsAndDenials (s : OrdSet GrantOrDenial) :
    grantsAndDenials.Takes (Spelling.set Spelling.grantOrDenial s) s :=
  takes_set (fun s => s) (fun _ _ => ⟨_, rfl⟩) (fun g _ => solid_grantOrDenial g)
    fun g _ => takes_grantOrDenial g

/-- A permission starts with its precedence or, where it has none, with the keyword
    behind that. -/
theorem solid_permissionPrecedence (o : Option Nat) {M : Language Char} (hM : Solid M) :
    Solid (Spelling.permissionPrecedence o * M) := by
  cases o with
  | none =>
      rw [Spelling.permissionPrecedence, one_mul]
      exact hM
  | some n => exact (Spelling.solid_keyword rfl).mul.mul.mul

/-- A precedence is taken in front of what follows it, and left out where the keyword does
    not stand. -/
theorem takes_permissionPrecedence {α : Type} {o : Option Nat} (ho : ∀ n ∈ o, IsPrecedence n)
    {f : Option Nat → Rule α} {w : String} {M : Language Char} {a : α}
    (hw : misses false "precedence".toList w.toList = true) (hsolid : Solid (Spelling.keyword w))
    (hf : (f o).Takes (Spelling.keyword w * M) a) :
    (permissionPrecedence >>= f).Takes
      (Spelling.permissionPrecedence o * (Spelling.keyword w * M)) a := by
  cases o with
  | none =>
      rw [Spelling.keyword, mul_assoc] at hf ⊢
      rw [Spelling.permissionPrecedence, one_mul, permissionPrecedence, keyword, bind_assoc]
      exact .optional_none hw hf
  | some n =>
      have hn : IsPrecedence n := ho n rfl
      rw [Spelling.permissionPrecedence, permissionPrecedence, mul_assoc, mul_assoc]
      refine .optional_some ?_
      simp only [bind_assoc, Rule.pure_bind]
      refine takes_keyword (Spelling.solid_number n).mul ?_
      exact .bind (takes_precedence hn) parting_aComma.mul (.comma hsolid.mul hf)

/-- Protected items are taken one by one. -/
theorem takes_protectedItems {items : List ProtectedItem} (h : ∀ i ∈ items, i.Expressible) :
    protectedItems.Takes (Spelling.list Spelling.protectedItem items) items :=
  takes_list (fun _ _ => ⟨_, rfl⟩) (fun i _ => solid_protectedItem i)
    fun i hi => takes_protectedItem (h i hi)

/-- User classes are taken one by one. -/
theorem takes_userClasses {classes : List UserClass} (h : ∀ c ∈ classes, c.Expressible) :
    userClasses.Takes (Spelling.list Spelling.userClass classes) classes :=
  takes_list (fun _ _ => ⟨_, rfl⟩) (fun c _ => solid_userClass c)
    fun c hc => takes_userClass (h c hc)

/-- A permission of users is taken with the items that it is about. -/
theorem takes_userPermission {p : UserPermission} (h : p.Expressible) :
    userPermission.Takes (Spelling.userPermission p) p := by
  simp only [userPermission, Spelling.userPermission, mul_assoc]
  refine .braced (solid_permissionPrecedence _ (Spelling.solid_keyword rfl).mul) ?_
  refine takes_permissionPrecedence h.precedence (by decide) (Spelling.solid_keyword rfl) ?_
  refine takes_keyword (Spelling.starts_list rfl _ _).mul ?_
  refine .bind (takes_protectedItems h.protectedItems) parting_aComma.mul ?_
  refine .comma (Spelling.solid_keyword rfl).mul
    (takes_keyword (Spelling.starts_set rfl _ _) ?_)
  exact .map (fun set => (⟨p.precedence, p.protectedItems, set⟩ : UserPermission))
    (takes_grantsAndDenials _)

/-- A permission of an item is taken with the users that it is about. -/
theorem takes_itemPermission {p : ItemPermission} (h : p.Expressible) :
    itemPermission.Takes (Spelling.itemPermission p) p := by
  simp only [itemPermission, Spelling.itemPermission, mul_assoc]
  refine .braced (solid_permissionPrecedence _ (Spelling.solid_keyword rfl).mul) ?_
  refine takes_permissionPrecedence h.precedence (by decide) (Spelling.solid_keyword rfl) ?_
  refine takes_keyword (Spelling.starts_list rfl _ _).mul ?_
  refine .bind (takes_userClasses h.userClasses) parting_aComma.mul ?_
  refine .comma (Spelling.solid_keyword rfl).mul
    (takes_keyword (Spelling.starts_set rfl _ _) ?_)
  exact .map (fun set => (⟨p.precedence, p.userClasses, set⟩ : ItemPermission))
    (takes_grantsAndDenials _)

-- ── Items ────────────────────────────────────────────────────────────────────────

theorem takes_itemBody {b : AciItemBody} (h : b.Expressible) :
    itemBody.Takes (Spelling.itemBody b) b := by
  cases b with
  | itemFirst items permissions =>
      have hpermissions : (braced (commaSeparated itemPermission)).Takes
          (Spelling.list Spelling.itemPermission permissions) permissions :=
        takes_list (fun _ _ => ⟨_, rfl⟩) (fun _ _ => .inBraces rfl _)
          fun p hp => takes_itemPermission (h.2 p hp)
      simp only [itemBody, Spelling.itemBody, mul_assoc]
      refine .first (.literal (takes_colon (.inBraces rfl _) ?_))
      refine .braced (Spelling.solid_keyword rfl).mul ?_
      refine takes_keyword (Spelling.starts_list rfl _ _).mul ?_
      refine .bind (takes_protectedItems h.1) parting_aComma.mul ?_
      refine .comma (Spelling.solid_keyword rfl).mul
        (takes_keyword (Spelling.starts_list rfl _ _) ?_)
      exact .map (fun permissions => AciItemBody.itemFirst items permissions) hpermissions
  | userFirst classes permissions =>
      have hpermissions : (braced (commaSeparated userPermission)).Takes
          (Spelling.list Spelling.userPermission permissions) permissions :=
        takes_list (fun _ _ => ⟨_, rfl⟩) (fun _ _ => .inBraces rfl _)
          fun p hp => takes_userPermission (h.2 p hp)
      simp only [itemBody, Spelling.itemBody, mul_assoc]
      refine .skip (by decide) (.literal (takes_colon (.inBraces rfl _) ?_))
      refine .braced (Spelling.solid_keyword rfl).mul ?_
      refine takes_keyword (Spelling.starts_list rfl _ _).mul ?_
      refine .bind (takes_userClasses h.1) parting_aComma.mul ?_
      refine .comma (Spelling.solid_keyword rfl).mul
        (takes_keyword (Spelling.starts_list rfl _ _) ?_)
      exact .map (fun permissions => AciItemBody.userFirst classes permissions) hpermissions

theorem takes_level (l : AuthenticationLevel) : level.Takes (Spelling.level l) l := by
  cases l with
  | none => exact .first (takes_word _ _)
  | simple => exact .skip_word (by decide) (.first (takes_word _ _))
  | strong => exact .skip_word (by decide) (.skip_word (by decide) (takes_word _ _))

theorem solid_level (l : AuthenticationLevel) : Solid (Spelling.level l) := by
  cases l <;> exact .word rfl

theorem solid_itemBody (b : AciItemBody) : Solid (Spelling.itemBody b) := by
  cases b with
  | itemFirst items permissions => exact (StartsOff.word rfl).mul.mul
  | userFirst classes permissions => exact (StartsOff.word rfl).mul.mul

theorem takes_item {i : AciItem} (h : i.Expressible) : item.Takes (Spelling.item i) i := by
  simp only [item, Spelling.item, mul_assoc]
  refine .braced (Spelling.solid_keyword rfl).mul ?_
  refine takes_keyword (Spelling.starts_quoted rfl _).mul ?_
  refine .bind (takes_quoted h.identificationTag) parting_aComma.mul ?_
  refine .comma (Spelling.solid_keyword rfl).mul (takes_keyword (Spelling.solid_number _).mul ?_)
  refine .bind (takes_precedence h.precedence) parting_aComma.mul ?_
  refine .comma (Spelling.solid_keyword rfl).mul (takes_keyword (solid_level _).mul ?_)
  refine .bind (takes_level _) parting_aComma.mul ?_
  refine .comma (Spelling.solid_keyword rfl).mul (takes_keyword (solid_itemBody _) ?_)
  exact .map (fun body => (⟨i.identificationTag, i.precedence, i.level, body⟩ : AciItem))
    (takes_itemBody h.body)

-- ── Whole texts ──────────────────────────────────────────────────────────────────

theorem isBlank_of_isSpacing {c : Char} (h : isSpacing c = true) : Text.isBlank c = true := by
  simp only [isSpacing, Bool.or_eq_true, beq_iff_eq] at h
  rcases h with ((rfl | rfl) | rfl) | rfl <;> rfl

/-- Every text of a language starts with an opening brace and ends with a closing one. -/
def IsBraced (L : Language Char) : Prop := ∀ t ∈ L, ∃ u, t = '{' :: (u ++ ['}'])

theorem isBraced_inBraces (L : Language Char) : IsBraced (inBraces L) := by
  rintro _ ⟨_, ⟨_, ⟨_, ⟨_, rfl, b, -, rfl⟩, x, -, rfl⟩, b', -, rfl⟩, _, rfl, rfl⟩
  exact ⟨b ++ x ++ b', by simp⟩

/-- Trimming takes away the blanks around a text in braces, and nothing else. -/
theorem trimChars_of_braced {L : Language Char} (hL : IsBraced L) {t : List Char}
    (ht : t ∈ blanks * L * blanks) : Text.trimChars t ∈ L := by
  obtain ⟨_, ⟨b, hb, x, hx, rfl⟩, b', hb', rfl⟩ := ht
  obtain ⟨u, rfl⟩ := hL x hx
  have hstart : Text.trimStartChars (b ++ '{' :: (u ++ ['}']) ++ b')
      = '{' :: (u ++ ['}']) ++ b' := by
    rw [Text.trimStartChars, List.append_assoc,
      List.dropWhile_append_of_pos fun c hc => isBlank_of_isSpacing (hb c hc)]
    exact Text.trimStartChars_cons rfl
  have hend : Text.trimEndChars ('{' :: (u ++ ['}']) ++ b') = '{' :: (u ++ ['}']) := by
    rw [Text.trimEndChars, List.reverse_append, List.dropWhile_append_of_pos fun c hc =>
      isBlank_of_isSpacing (hb' c (List.mem_reverse.mp hc))]
    simp [Text.isBlank]
  dsimp only
  rw [Text.trimChars, hstart, hend]
  exact hx

/-- A rule that takes a language of texts in braces reads each of them, with blanks
    around it or not. -/
theorem read_of_takes {α : Type} {r : Rule α} {L : Language Char} {a : α} (hL : IsBraced L)
    (h : r.Takes L a) {s : String} (hs : s.toList ∈ blanks * L * blanks) :
    read r s = .ok a := by
  obtain ⟨far, hread⟩ := h _ (trimChars_of_braced hL hs) [] nofun 0
  rw [List.append_nil] at hread
  simp only [read, whole, hread]
  rfl

end Aci

/-- Every spelling of an expressible item is read as that item. -/
theorem AciItem.parse_spelling {i : AciItem} (h : i.Expressible) {s : String}
    (hs : s.toList ∈ i.spellings) : parse s = .ok i :=
  Aci.read_of_takes (Aci.isBraced_inBraces _) (Aci.takes_item h) hs

/-- Every spelling of an expressible specification is read as that specification. -/
theorem SubtreeSpecification.parse_spelling {spec : SubtreeSpecification} (h : spec.Expressible)
    {s : String} (hs : s.toList ∈ spec.spellings) : parse s = .ok spec := by
  refine Aci.read_of_takes ?_ (Aci.takes_subtree h) hs
  rintro t ⟨cs, -, ht⟩
  exact Aci.isBraced_inBraces _ t ht

/-- Whatever text is accepted, the item or specification it is read as is expressible: its
    precedences are at most 255, its numbers below 2^64, its attribute names are such in
    lower case, and no subtree ends above where it begins.  It has spellings, and every one
    of them is read as the very same item or specification. -/
theorem parse_undoes_spelling :
    (∀ s i, AciItem.parse s = .ok i →
      i.Expressible ∧ (∃ t : String, t.toList ∈ i.spellings)
        ∧ ∀ t : String, t.toList ∈ i.spellings → AciItem.parse t = .ok i)
    ∧ ∀ s spec, SubtreeSpecification.parse s = .ok spec →
      spec.Expressible ∧ (∃ t : String, t.toList ∈ spec.spellings)
        ∧ ∀ t : String, t.toList ∈ spec.spellings → SubtreeSpecification.parse t = .ok spec := by
  constructor
  · intro s i h
    have hi := AciItem.expressible_of_parse h
    exact ⟨hi, hi.exists_spelling, fun t ht => AciItem.parse_spelling hi ht⟩
  · intro s spec h
    have hspec := SubtreeSpecification.expressible_of_parse h
    exact ⟨hspec, hspec.exists_spelling, fun t ht => SubtreeSpecification.parse_spelling hspec ht⟩

-- ── A small item and a small subtree ─────────────────────────────────────────────

/-- An item that lets everybody read entries and nobody add any. -/
def readOnlyItem : AciItem where
  identificationTag := "staff"
  precedence := 10
  level := .simple
  body := .userFirst [.allUsers] [⟨none, [.entry], OrdSet.ofList [⟨.read, true⟩, ⟨.add, false⟩]⟩]

/-- A text that is read as this item. -/
def readOnlyText : String :=
  "\x7b identificationTag \"staff\", precedence 10, authenticationLevel simple, " ++
  "itemOrUserFirst userFirst: \x7b userClasses \x7b allUsers \x7d, userPermissions " ++
  "\x7b \x7b protectedItems \x7b entry \x7d, " ++
  "grantsAndDenials \x7b grantRead, denyAdd \x7d \x7d \x7d \x7d \x7d"

/-- Whether what a text is read as has all the parts of this item. -/
def isReadOnly : Except OperationError AciItem → Bool
  | .ok ⟨tag, n, .simple, .userFirst [.allUsers] [⟨none, [.entry], set⟩]⟩ =>
      tag == "staff" && n == 10 && set == OrdSet.ofList [⟨.read, true⟩, ⟨.add, false⟩]
  | _ => false

/-- What has all the parts of the item is the item. -/
theorem eq_of_isReadOnly {r : Except OperationError AciItem} (h : isReadOnly r = true) :
    r = .ok readOnlyItem := by
  unfold isReadOnly at h
  split at h
  · simp only [Bool.and_eq_true, beq_iff_eq] at h
    obtain ⟨⟨rfl, rfl⟩, rfl⟩ := h
    rfl
  · cases h

theorem parse_readOnlyText : AciItem.parse readOnlyText = .ok readOnlyItem :=
  eq_of_isReadOnly (by decide +kernel)

/-- The entries from one to three levels below an administrative point. -/
def threeLevels : SubtreeSpecification := ⟨Dn.root, [], [], 1, some 3, none⟩

/-- Whether what a text is read as has all the parts of this specification. -/
def isThreeLevels : Except OperationError SubtreeSpecification → Bool
  | .ok ⟨⟨[]⟩, [], [], 1, some 3, none⟩ => true
  | _ => false

theorem eq_of_isThreeLevels {r : Except OperationError SubtreeSpecification}
    (h : isThreeLevels r = true) : r = .ok threeLevels := by
  unfold isThreeLevels at h
  split at h
  · rfl
  · cases h

theorem parse_threeLevels :
    SubtreeSpecification.parse "\x7b minimum 1, maximum 3 \x7d" = .ok threeLevels :=
  eq_of_isThreeLevels (by decide +kernel)

/-- The bounds may come the other way round, without blanks and with a zero in front. -/
theorem threeLevels_spelling : "\x7bmaximum03,minimum1\x7d".toList ∈ threeLevels.spellings := by
  have hdescribed : threeLevels.DescribedBy [.maximum 3, .minimum 1] := by
    constructor
    case distinct => decide
    case said => simp [SubtreeComponent.IsTrueOf, threeLevels]
    case unsaid =>
      intro k hk
      cases k with
      | base => exact rfl
      | exclusions => exact ⟨rfl, rfl⟩
      | minimum => exact absurd (by decide) hk
      | maximum => exact absurd (by decide) hk
      | filter => exact rfl
  have hmaximum : "maximum03".toList ∈ Aci.Spelling.component (.maximum 3) :=
    ⟨"maximum".toList, Aci.Spelling.mem_keyword _, "03".toList,
      ⟨nofun, List.all_eq_true.mp rfl, rfl⟩, rfl⟩
  have hminimum : "minimum1".toList ∈ Aci.Spelling.component (.minimum 1) :=
    ⟨"minimum".toList, Aci.Spelling.mem_keyword _, "1".toList,
      ⟨nofun, List.all_eq_true.mp rfl, rfl⟩, rfl⟩
  exact Grammar.mem_blanks_around
    ⟨_, hdescribed, Aci.Spelling.mem_list_two hmaximum hminimum⟩

/-- Both are read, the item from all its spellings and the subtree from this one too. -/
theorem small_texts_respelled :
    (AciItem.parse readOnlyText = .ok readOnlyItem
      ∧ ∀ t : String, t.toList ∈ readOnlyItem.spellings → AciItem.parse t = .ok readOnlyItem)
    ∧ SubtreeSpecification.parse "\x7b minimum 1, maximum 3 \x7d" = .ok threeLevels
    ∧ SubtreeSpecification.parse "\x7bmaximum03,minimum1\x7d" = .ok threeLevels :=
  ⟨⟨parse_readOnlyText, (parse_undoes_spelling.1 _ _ parse_readOnlyText).2.2⟩, parse_threeLevels,
    (parse_undoes_spelling.2 _ _ parse_threeLevels).2.2 _ threeLevels_spelling⟩

end DirectoryAccess
