import DirectoryAccess.Proofs.Aci.Expressible
import DirectoryAccess.Proofs.Aci.Spelling

/-! # Subtrees read back — from words to specifications

    The rules for words, numbers, names, lists and sets each take the spellings of every
    expressible value as that value, and from them those for refinements and subtree
    specifications.  A refinement is read however deep it is nested, since every level is
    written with a keyword of its own.  The components of a specification make it again
    in whatever order they come. -/

namespace DirectoryAccess

namespace Aci

open Grammar Rule

-- ── How spellings start ──────────────────────────────────────────────────────────

namespace Spelling

/-- What is quoted starts with a quote. -/
theorem starts_quoted {inClass : Char → Bool} (h : inClass '"' = false) (s : String) :
    StartsOff inClass (quoted s) :=
  .word (by simp [h])

/-- A keyword is solid if it does not start with a blank itself. -/
theorem solid_keyword {w : String} (h : (w.toList.head?.any fun c => !isSpacing c) = true) :
    Solid (keyword w) :=
  (StartsOff.word h).mul

/-- A list starts with a brace. -/
theorem starts_list {inClass : Char → Bool} (h : inClass '{' = false) {α : Type}
    (spell : α → Language Char) (as : List α) : StartsOff inClass (list spell as) :=
  .inBraces h _

/-- A set starts with a brace, like a list. -/
theorem starts_set {inClass : Char → Bool} (h : inClass '{' = false) {α : Type} [Ord α]
    (spell : α → Language Char) (s : OrdSet α) : StartsOff inClass (set spell s) := by
  rintro t ⟨as, -, ht⟩
  exact starts_list h spell as t ht

theorem isSpacing_of_isWordChar {c : Char} (h : isWordChar c = true) : isSpacing c = false := by
  cases hs : isSpacing c with
  | false => rfl
  | true =>
      rw [isWordChar_of_isSpacing hs] at h
      cases h

theorem isWordChar_lower (c : Char) : isWordChar (Text.asciiLowerChar c) = isWordChar c := by
  simp only [isWordChar, asciiLowerChar_class, Text.asciiLowerChar_beq (d := ';') (by decide)]

/-- A word in any case starts with a character of words, as the word in lower case
    does. -/
theorem solid_anyCase {s : String} {c : Char} {cs : List Char} (hs : s.toList = c :: cs)
    (hc : isWordChar c = true) : Solid (anyCase s) := by
  intro t ht
  change t.map Text.asciiLowerChar = s.toList at ht
  rw [hs] at ht
  obtain ⟨d, u, rfl, hd, -⟩ := List.map_eq_cons_iff.mp ht
  refine ⟨d, u, rfl, isSpacing_of_isWordChar ?_⟩
  rw [← isWordChar_lower, hd]
  exact hc

theorem solid_attributeName {s : String} (h : IsAttributeName s) : Solid (anyCase s) := by
  obtain ⟨⟨c, cs, hs, hc, -⟩, -⟩ := h
  refine solid_anyCase hs (isWordChar_of_isAttributeChar ?_)
  rw [isAttributeChar, hc]
  rfl

theorem solid_className {s : String} (h : IsClassName s) : Solid (anyCase s) := by
  obtain ⟨⟨hne, hchars⟩, -⟩ := h
  obtain ⟨c, cs, hs⟩ := List.exists_cons_of_ne_nil hne
  refine solid_anyCase hs (isWordChar_of_isClassChar (hchars c ?_))
  rw [hs]
  exact List.mem_cons_self ..

theorem solid_number (n : Nat) : Solid (number n) := by
  rintro digits ⟨hne, hdigits, -⟩
  obtain ⟨c, cs, rfl⟩ := List.exists_cons_of_ne_nil hne
  refine ⟨c, cs, rfl, isSpacing_of_isWordChar ?_⟩
  rw [isWordChar, hdigits c (List.mem_cons_self ..)]
  simp

end Spelling

-- ── Words, names and numbers ─────────────────────────────────────────────────────

/-- A keyword is taken where something solid follows, after any blanks. -/
theorem takes_keyword {α : Type} {w : String} {f : Unit → Rule α} {M : Language Char} {a : α}
    (hM : Solid M) (hf : (f ()).Takes M a) :
    (keyword w >>= f).Takes (Spelling.keyword w * M) a := by
  rw [keyword, bind_assoc, Spelling.keyword, mul_assoc]
  exact .literal (.spacing hM hf)

/-- A colon is taken with the blanks around it, in front of something solid. -/
theorem takes_colon {α : Type} {f : Unit → Rule α} {M : Language Char} {a : α}
    (hM : Solid M) (hf : (f ()).Takes M a) : (colon >>= f).Takes (Spelling.colon * M) a := by
  rw [colon, bind_assoc, Spelling.colon, mul_assoc, mul_assoc]
  refine .spacing (StartsOff.word rfl).mul ?_
  rw [bind_assoc]
  exact .literal (.spacing hM hf)

theorem takes_quoted {s : String} (h : Quotable s) : quoted.Takes (Spelling.quoted s) s := by
  rintro _ rfl rest -
  have hchars : ∀ c ∈ s.toList, (c == '"') = false := by
    intro c hc
    rw [beq_eq_false_iff_ne]
    rintro rfl
    exact h hc
  have hopen : (literal ['"']).Reads ['"'] ((s.toList ++ ['"']) ++ rest) () := reads_literal _ _
  have hclose := (reads_literal ['"'] rest).map fun _ => String.ofList s.toList
  have h : quoted.Reads _ rest _ :=
    .bind hopen (.bind (reads_upTo hchars (stops_cons rfl rest)) hclose)
  rwa [String.ofList_toList] at h

theorem takes_name {d : Dn} (h : d.Expressible) : name.Takes (Spelling.name d) d :=
  .checked (takes_quoted h) (by rw [Dn.parse_display]; rfl)

theorem takes_numberUpTo {max n : Nat} (h : n ≤ max) :
    (numberUpTo max).Takes (Spelling.number n) n := by
  rintro digits ⟨hne, hdigits, hn⟩ rest hrest
  have hstops : Stops isDigit rest := hrest.mono fun c hc => by simp [isWordChar, hc]
  refine (reads_run1 hne hdigits hstops).checked ?_
  dsimp only
  rw [hn, if_pos h]

theorem takes_number {n : Nat} (h : IsNumber n) : number.Takes (Spelling.number n) n :=
  takes_numberUpTo (Nat.le_of_lt_succ h)

theorem takes_precedence {n : Nat} (h : IsPrecedence n) : precedence.Takes (Spelling.number n) n :=
  takes_numberUpTo h

/-- A word in any case has the word itself as its lower case. -/
theorem lowercase_anyCase {s : String} {t : List Char} (ht : t ∈ Spelling.anyCase s)
    (h : ∀ c ∈ t, isWordChar c = true) : Text.lowercase (String.ofList t) = s := by
  change t.map Text.asciiLowerChar = s.toList at ht
  rw [lowercase_word h, ht, String.ofList_toList]

/-- An attribute name is taken in any case, and kept in lower case. -/
theorem takes_attributeName {s : String} (h : IsAttributeName s) :
    attributeName.Takes (Spelling.anyCase s) s := by
  obtain ⟨⟨c', cs', hs, hletter, hchars⟩, -⟩ := h
  intro t ht rest hrest
  obtain ⟨c, cs, rfl, rfl, rfl⟩ : ∃ c cs, t = c :: cs ∧ Text.asciiLowerChar c = c'
      ∧ cs.map Text.asciiLowerChar = cs' := by
    have hmap : t.map Text.asciiLowerChar = c' :: cs' := hs ▸ ht
    exact List.map_eq_cons_iff.mp hmap
  have hc : isLetter c = true := by
    rw [← (asciiLowerChar_class c).1]
    exact hletter
  have hcs : ∀ d ∈ cs, isAttributeChar d = true := by
    intro d hd
    rw [← isAttributeChar_lower]
    exact hchars _ (List.mem_map_of_mem hd)
  have hword : ∀ d ∈ c :: cs, isWordChar d = true := by
    rw [List.forall_mem_cons]
    exact ⟨by simp [isWordChar, hc], fun d hd => isWordChar_of_isAttributeChar (hcs d hd)⟩
  have hstops : Stops isAttributeChar rest := hrest.mono fun _ => isWordChar_of_isAttributeChar
  have hothers := (reads_run hcs hstops).map fun cs => Text.lowercase (String.ofList (c :: cs))
  rw [lowercase_anyCase ht hword] at hothers
  exact .bind (t := [c]) (reads_oneOf hc _) hothers

theorem takes_className {s : String} (h : IsClassName s) :
    className.Takes (Spelling.anyCase s) s := by
  obtain ⟨⟨hne, hchars⟩, -⟩ := h
  intro t ht rest hrest
  have hmap : t.map Text.asciiLowerChar = s.toList := ht
  have hclass : ∀ c ∈ t, isClassChar c = true := by
    intro c hc
    rw [← isClassChar_lower]
    refine hchars _ ?_
    rw [← hmap]
    exact List.mem_map_of_mem hc
  have hne' : t ≠ [] := by
    rintro rfl
    exact hne hmap.symm
  have hstops : Stops isClassChar rest := hrest.mono fun _ => isWordChar_of_isClassChar
  have h := (reads_run1 hne' hclass hstops).map fun cs => Text.lowercase (String.ofList cs)
  rwa [lowercase_anyCase ht fun c hc => isWordChar_of_isClassChar (hclass c hc)] at h

-- ── Lists and sets ───────────────────────────────────────────────────────────────

variable {α : Type} {r : Rule α} {spell : α → Language Char}

/-- A list is taken if each of its elements is, none of which starts with a blank. -/
theorem takes_list {as : List α} (hstop : r.StopsAtBrace) (hsolid : ∀ a ∈ as, Solid (spell a))
    (htakes : ∀ a ∈ as, r.Takes (spell a) a) :
    (braced (commaSeparated r)).Takes (Spelling.list spell as) as :=
  .list hstop hsolid htakes

/-- A set is made again from its elements in any order. -/
theorem takes_set [Ord α] [Std.TransOrd α] {s : OrdSet α} {β : Type} (f : OrdSet α → β)
    (hstop : r.StopsAtBrace) (hsolid : ∀ a ∈ s.toList, Solid (spell a))
    (htakes : ∀ a ∈ s.toList, r.Takes (spell a) a) :
    (braced (commaSeparated r) >>= fun as => Pure.pure (f (OrdSet.ofList as))).Takes
      (Spelling.set spell s) (f s) := by
  rintro t ⟨as, has, ht⟩
  have hlist := takes_list hstop (fun a ha => hsolid a ((has a).mp ha))
    fun a ha => htakes a ((has a).mp ha)
  have h := hlist.map fun as => f (OrdSet.ofList as)
  rw [OrdSet.ofList_eq has] at h
  exact h t ht

/-- The attributes of a set are taken in any order. -/
theorem takes_attributeSet {s : OrdSet String} (h : ∀ a ∈ s.toList, IsAttributeName a) :
    attributeSet.Takes (Spelling.set Spelling.anyCase s) s :=
  takes_set (fun s => s) (fun _ _ => ⟨_, rfl⟩) (fun a ha => Spelling.solid_attributeName (h a ha))
    fun a ha => takes_attributeName (h a ha)

theorem takes_nameSet {s : NameSet} (h : ∀ d ∈ s.toList, d.Expressible) :
    nameSet.Takes (Spelling.set Spelling.name s) s :=
  takes_set (fun s => s) (fun _ _ => ⟨_, rfl⟩) (fun _ _ => Spelling.starts_quoted rfl _)
    fun d hd => takes_name (h d hd)

/-- An attribute with a value is taken as both. -/
theorem takes_attributeValue {v : AttributeValue} (h : v.Expressible) :
    attributeValue.Takes (Spelling.attributeValue v) v := by
  simp only [attributeValue, Spelling.attributeValue, mul_assoc]
  refine .bind (takes_attributeName h.1) (parting_blanks_mul (StartsOff.word rfl).mul) ?_
  refine .spacing (StartsOff.word rfl).mul (.literal (.spacing (Spelling.starts_quoted rfl _) ?_))
  exact .map (fun value => (⟨v.attr, value⟩ : AttributeValue)) (.first (takes_quoted h.2))

theorem solid_attributeValue {v : AttributeValue} (h : v.Expressible) :
    Solid (Spelling.attributeValue v) :=
  (Spelling.solid_attributeName h.1).mul.mul.mul.mul

/-- A limit on values is taken as the attribute and the number. -/
theorem takes_maxValueCount {m : MaxValueCount} (h : m.Expressible) :
    maxValueCount.Takes (Spelling.maxValueCount m) m := by
  simp only [maxValueCount, Spelling.maxValueCount, mul_assoc]
  refine .braced (Spelling.solid_keyword rfl).mul ?_
  refine takes_keyword (Spelling.solid_attributeName h.1).mul ?_
  refine .bind (takes_attributeName h.1) parting_aComma.mul ?_
  refine .comma (Spelling.solid_keyword rfl).mul (takes_keyword (Spelling.solid_number _) ?_)
  exact .map (fun max => (⟨m.attr, max⟩ : MaxValueCount)) (takes_number h.2)

/-- A restriction is taken as the two attributes that it relates. -/
theorem takes_restrictedValue {r : RestrictedValue} (h : r.Expressible) :
    restrictedValue.Takes (Spelling.restrictedValue r) r := by
  simp only [restrictedValue, Spelling.restrictedValue, mul_assoc]
  refine .braced (Spelling.solid_keyword rfl).mul ?_
  refine takes_keyword (Spelling.solid_attributeName h.1).mul ?_
  refine .bind (takes_attributeName h.1) parting_aComma.mul ?_
  refine .comma (Spelling.solid_keyword rfl).mul
    (takes_keyword (Spelling.solid_attributeName h.2) ?_)
  exact .map (fun valuesIn => (⟨r.attr, valuesIn⟩ : RestrictedValue)) (takes_attributeName h.2)

-- ── Refinements ──────────────────────────────────────────────────────────────────

mutual

/-- How deep a refinement is nested. -/
def nesting : Refinement → Nat
  | .item _ => 1
  | .conjunction rs => nestingOfAll rs + 1
  | .disjunction rs => nestingOfAll rs + 1
  | .negation r => nesting r + 1

/-- How deep the refinements of a list are nested. -/
def nestingOfAll : List Refinement → Nat
  | [] => 0
  | r :: rs => max (nesting r) (nestingOfAll rs)

end

/-- A list is nested at least as deep as each of its refinements. -/
theorem nesting_le_nestingOfAll {rs : List Refinement} {r : Refinement} (h : r ∈ rs) :
    nesting r ≤ nestingOfAll rs := by
  induction rs with
  | nil => cases h
  | cons s rs ih =>
      rw [nestingOfAll]
      rcases List.mem_cons.mp h with rfl | h
      · exact Nat.le_max_left ..
      · exact Nat.le_trans (ih h) (Nat.le_max_right ..)

theorem solid_refinement (r : Refinement) : Solid (Spelling.refinement r) := by
  cases r with
  | item name => exact (StartsOff.word rfl).mul.mul
  | conjunction rs => exact (StartsOff.word rfl).mul.mul
  | disjunction rs => exact (StartsOff.word rfl).mul.mul
  | negation r => exact (StartsOff.word rfl).mul.mul

theorem refinementUpTo_stops (depth : Nat) : (refinementUpTo depth).StopsAtBrace := by
  cases depth with
  | zero => exact fun _ _ => ⟨_, rfl⟩
  | succ depth => exact fun _ _ => ⟨_, rfl⟩

/-- What is nested at all needs some depth to be read. -/
theorem exists_eq_succ_of_nesting_le {r : Refinement} {depth : Nat} (h : nesting r ≤ depth) :
    ∃ d, depth = d + 1 := by
  refine Nat.exists_eq_add_one_of_ne_zero ?_
  rintro rfl
  cases r with
  | item name => cases h
  | conjunction rs => cases h
  | disjunction rs => cases h
  | negation r => cases h

/-- A list of refinements is taken at the depth at which each of them is. -/
theorem takes_refinements {rs : List Refinement} {depth : Nat}
    (h : ∀ r ∈ rs, (refinementUpTo depth).Takes (Spelling.refinement r) r) :
    (braced (commaSeparated (refinementUpTo depth))).Takes
      (inBraces (separated (Spelling.refinements rs))) rs := by
  rw [Spelling.refinements_eq_map]
  exact .list (refinementUpTo_stops depth) (fun r _ => solid_refinement r) h

/-- A rule that goes deep enough takes the spellings of a refinement. -/
theorem takes_refinementUpTo {r : Refinement} (h : r.Expressible) {depth : Nat}
    (hdepth : nesting r ≤ depth) : (refinementUpTo depth).Takes (Spelling.refinement r) r := by
  induction h generalizing depth with
  | item hname =>
      obtain ⟨depth, rfl⟩ := exists_eq_succ_of_nesting_le hdepth
      simp only [refinementUpTo, Spelling.refinement, mul_assoc]
      refine .first (.literal (takes_colon (Spelling.solid_className hname) ?_))
      exact .map Refinement.item (takes_className hname)
  | conjunction hrs ih =>
      obtain ⟨depth, rfl⟩ := exists_eq_succ_of_nesting_le hdepth
      have hall := Nat.le_of_succ_le_succ hdepth
      simp only [refinementUpTo, Spelling.refinement, mul_assoc]
      refine .skip (by decide) (.first (.literal (takes_colon (.inBraces rfl _) ?_)))
      refine .map Refinement.conjunction (takes_refinements fun r hr => ?_)
      exact ih r hr (Nat.le_trans (nesting_le_nestingOfAll hr) hall)
  | disjunction hrs ih =>
      obtain ⟨depth, rfl⟩ := exists_eq_succ_of_nesting_le hdepth
      have hall := Nat.le_of_succ_le_succ hdepth
      simp only [refinementUpTo, Spelling.refinement, mul_assoc]
      refine .skip (by decide) (.skip (by decide) ?_)
      refine .first (.literal (takes_colon (.inBraces rfl _) ?_))
      refine .map Refinement.disjunction (takes_refinements fun r hr => ?_)
      exact ih r hr (Nat.le_trans (nesting_le_nestingOfAll hr) hall)
  | @negation r hr ih =>
      obtain ⟨depth, rfl⟩ := exists_eq_succ_of_nesting_le hdepth
      simp only [refinementUpTo, Spelling.refinement, mul_assoc]
      refine .skip (by decide) (.skip (by decide) (.skip (by decide) ?_))
      refine .literal (takes_colon (solid_refinement r) ?_)
      exact .map Refinement.negation (ih (Nat.le_of_succ_le_succ hdepth))

/-- No text of a language has fewer than `n` characters. -/
def AtLeast (n : Nat) (L : Language Char) : Prop := ∀ t ∈ L, n ≤ t.length

namespace AtLeast

variable {m n : Nat} {L M : Language Char}

theorem mul (hL : AtLeast m L) (hM : AtLeast n M) : AtLeast (m + n) (L * M) := by
  rintro _ ⟨t, ht, u, hu, rfl⟩
  rw [List.length_append]
  exact Nat.add_le_add (hL t ht) (hM u hu)

theorem mul_left (hL : AtLeast m L) : AtLeast m (L * M) := by
  rintro _ ⟨t, ht, u, -, rfl⟩
  rw [List.length_append]
  exact Nat.le_add_right_of_le (hL t ht)

theorem mul_right (hM : AtLeast n M) : AtLeast n (L * M) := by
  rintro _ ⟨t, -, u, hu, rfl⟩
  rw [List.length_append]
  exact Nat.le_add_left_of_le (hM u hu)

theorem max (hm : AtLeast m L) (hn : AtLeast n L) : AtLeast (max m n) L :=
  fun t ht => Nat.max_le.mpr ⟨hm t ht, hn t ht⟩

theorem inBraces (hL : AtLeast m L) : AtLeast m (inBraces L) :=
  hL.mul_right.mul_left.mul_left

theorem word {cs : List Char} (h : cs ≠ []) : AtLeast 1 (word cs) := by
  rintro t rfl
  exact List.length_pos_iff.mpr h

end AtLeast

mutual

/-- Every level of nesting is written with a keyword of its own. -/
theorem atLeast_refinement : ∀ r, AtLeast (nesting r) (Spelling.refinement r)
  | .item name => ((AtLeast.word (by decide)).mul_left).mul_left
  | .conjunction rs => by
      rw [nesting, Nat.add_comm, Spelling.refinement, mul_assoc]
      exact (AtLeast.word (by decide)).mul (atLeast_separated rs).inBraces.mul_right
  | .disjunction rs => by
      rw [nesting, Nat.add_comm, Spelling.refinement, mul_assoc]
      exact (AtLeast.word (by decide)).mul (atLeast_separated rs).inBraces.mul_right
  | .negation r => by
      rw [nesting, Nat.add_comm, Spelling.refinement, mul_assoc]
      exact (AtLeast.word (by decide)).mul (atLeast_refinement r).mul_right

/-- Every text of a list of refinements is as long as the list is nested deep. -/
theorem atLeast_separated :
    ∀ rs, AtLeast (nestingOfAll rs) (separated (Spelling.refinements rs))
  | [] => fun _ _ => Nat.zero_le _
  | r :: rs => .max (atLeast_refinement r).mul_left (atLeast_afterCommas rs).mul_right

theorem atLeast_afterCommas :
    ∀ rs, AtLeast (nestingOfAll rs) (afterCommas (Spelling.refinements rs))
  | [] => fun _ _ => Nat.zero_le _
  | r :: rs => .max (atLeast_refinement r).mul_right.mul_left (atLeast_afterCommas rs).mul_right

end

/-- A refinement is taken: its text is long enough for the depth that it needs. -/
theorem takes_refinement {r : Refinement} (h : r.Expressible) :
    refinement.Takes (Spelling.refinement r) r := by
  intro t ht rest hrest before
  have hdepth : nesting r ≤ (t ++ rest).length + 1 := by
    have := atLeast_refinement r t ht
    rw [List.length_append]
    omega
  exact takes_refinementUpTo h hdepth t ht rest hrest before

-- ── Subtrees ─────────────────────────────────────────────────────────────────────

theorem takes_exclusion {e : Exclusion} (h : e.Expressible) :
    exclusion.Takes (Spelling.exclusion e) e := by
  cases e with
  | chopBefore d =>
      simp only [exclusion, Spelling.exclusion, mul_assoc]
      refine .first (.literal (takes_colon (Spelling.starts_quoted rfl _) ?_))
      exact .map Exclusion.chopBefore (takes_name h)
  | chopAfter d =>
      simp only [exclusion, Spelling.exclusion, mul_assoc]
      refine .skip (by decide) (.literal (takes_colon (Spelling.starts_quoted rfl _) ?_))
      exact .map Exclusion.chopAfter (takes_name h)

theorem solid_exclusion (e : Exclusion) : Solid (Spelling.exclusion e) := by
  cases e with
  | chopBefore d => exact (StartsOff.word rfl).mul.mul
  | chopAfter d => exact (StartsOff.word rfl).mul.mul

theorem solid_component (c : SubtreeComponent) : Solid (Spelling.component c) := by
  cases c with
  | base d => exact (Spelling.solid_keyword rfl).mul
  | exclusions es => exact (Spelling.solid_keyword rfl).mul
  | minimum n => exact (Spelling.solid_keyword rfl).mul
  | maximum n => exact (Spelling.solid_keyword rfl).mul
  | filter r => exact (Spelling.solid_keyword rfl).mul

/-- A component of a specification is taken as what it says. -/
theorem takes_component {c : SubtreeComponent} (h : c.Expressible) :
    subtreeComponent.Takes (Spelling.component c) c := by
  simp only [subtreeComponent, keyword, bind_assoc]
  cases c with
  | base d =>
      simp only [Spelling.component, Spelling.keyword, mul_assoc]
      refine .first (.literal (.spacing (Spelling.starts_quoted rfl _) ?_))
      exact .map SubtreeComponent.base (takes_name h)
  | exclusions es =>
      simp only [Spelling.component, Spelling.keyword, mul_assoc]
      refine .skip (by decide) (.first (.literal (.spacing (Spelling.starts_list rfl _ _) ?_)))
      refine .map SubtreeComponent.exclusions (takes_list (fun _ _ => ⟨_, rfl⟩) ?_ ?_)
      · exact fun e _ => solid_exclusion e
      · exact fun e he => takes_exclusion (h e he)
  | minimum n =>
      simp only [Spelling.component, Spelling.keyword, mul_assoc]
      repeat refine .skip (by decide) ?_
      refine .first (.literal (.spacing (Spelling.solid_number _) ?_))
      exact .map SubtreeComponent.minimum (takes_number h)
  | maximum n =>
      simp only [Spelling.component, Spelling.keyword, mul_assoc]
      repeat refine .skip (by decide) ?_
      refine .first (.literal (.spacing (Spelling.solid_number _) ?_))
      exact .map SubtreeComponent.maximum (takes_number h)
  | filter r =>
      simp only [Spelling.component, Spelling.keyword, mul_assoc]
      repeat refine .skip (by decide) ?_
      refine .literal (.spacing (solid_refinement r) ?_)
      exact .map SubtreeComponent.filter (takes_refinement h)

end Aci

namespace SubtreeSpecification

/-- What is true of an expressible specification is expressible itself. -/
theorem Expressible.component {spec : SubtreeSpecification} (h : spec.Expressible)
    {c : SubtreeComponent} (hc : c.IsTrueOf spec) : c.Expressible := by
  cases c with
  | base d => exact hc ▸ h.base
  | exclusions list =>
      intro e he
      cases e with
      | chopBefore d =>
          refine h.chopBefore d ?_
          rw [hc.1]
          exact List.mem_filterMap.mpr ⟨_, he, rfl⟩
      | chopAfter d =>
          refine h.chopAfter d ?_
          rw [hc.2]
          exact List.mem_filterMap.mpr ⟨_, he, rfl⟩
  | minimum n => exact hc ▸ h.minimum
  | maximum n => exact h.maximum n hc
  | filter r => exact h.refinement r hc

end SubtreeSpecification

namespace Aci

open Grammar Rule

/-- A specification is taken from its components in any order. -/
theorem takes_subtree {spec : SubtreeSpecification} (h : spec.Expressible) :
    subtreeSpecification.Takes (Spelling.subtree spec) spec := by
  rintro t ⟨cs, hcs, ht⟩
  have hlist : (braced (commaSeparated subtreeComponent)).Takes
      (Spelling.list Spelling.component cs) cs :=
    takes_list (fun _ _ => ⟨_, rfl⟩) (fun c _ => solid_component c)
      fun c hc => takes_component (h.component (hcs.said c hc))
  have hmade := SubtreeSpecification.ofComponents?_eq_some_iff.mpr ⟨hcs, h.ordered⟩
  exact hlist.checked hmade t ht

/-- A specification starts with a brace. -/
theorem starts_subtree {inClass : Char → Bool} (h : inClass '{' = false)
    (spec : SubtreeSpecification) : StartsOff inClass (Spelling.subtree spec) := by
  rintro t ⟨cs, -, ht⟩
  exact Spelling.starts_list h _ cs t ht

end Aci

end DirectoryAccess
