import DirectoryAccess.Proofs.Name.Key
import DirectoryAccess.Proofs.Text.Blank

/-! # Displayed names — what is written is read again

    The displayed text of a name has its attribute types in lower case and its values
    as they were given, every special character with a backslash in front.  Read
    again, it gives the very same name, character for character.  Reading makes up no
    characters: those of a value stood in the text that the name was read from. -/

namespace DirectoryAccess

namespace Rdn

-- ── Components ───────────────────────────────────────────────────────────────────

/-- Components with the same type and the same value, as written, are equal. -/
theorem eq_of {r s : Rdn} (hattr : r.attr = s.attr) (hvalue : r.value = s.value) : r = s := by
  cases r
  cases s
  cases hattr
  cases hvalue
  rfl

/-- What a component is made of, and that it is made at all. -/
theorem make_of {attr value : String} (htype : isAttributeType (Text.trim attr).toList = true)
    (hvalue : Text.trim value ≠ "") :
    ∃ r, make attr value = .ok r ∧ r.attr = Text.lowercase (Text.trim attr)
      ∧ r.value = Text.trim value := by
  unfold make
  dsimp only
  rw [dif_pos htype, dif_neg hvalue]
  exact ⟨_, rfl, rfl, rfl⟩

/-- A component that is made keeps its value without the blanks around it. -/
theorem value_of_make {attr value : String} {r : Rdn} (h : make attr value = .ok r) :
    r.value = Text.trim value := by
  unfold make at h
  dsimp only at h
  split at h
  · split at h
    · simp only [reduceCtorEq] at h
    · rw [← Except.ok.inj h]
  · simp only [reduceCtorEq] at h

theorem display_toList (r : Rdn) :
    r.display.toList = r.attr.toList ++ '=' :: escape r.value.toList :=
  String.toList_ofList

theorem quoted_display (r : Rdn) : Quoted r.display.toList := by
  rw [display_toList]
  exact quoted_render (typeChars r.attr_type) _

theorem isBlank_of_isTypeChar {c : Char} (h : isTypeChar c = true) : Text.isBlank c = false := by
  have hrange : 0x2d ≤ c.toNat ∧ c.toNat ≤ 0x7a := by
    simp only [isTypeChar, isLetter, isDigit, Bool.or_eq_true, Bool.and_eq_true,
      decide_eq_true_eq, beq_iff_eq] at h
    rcases h with ((h | h) | rfl) | rfl
    · omega
    · omega
    · decide
    · decide
  simp only [Text.isBlank, Bool.or_eq_false_iff, Bool.and_eq_false_iff, decide_eq_false_iff_not,
    beq_eq_false_iff_ne]
  omega

theorem trim_attr (r : Rdn) : Text.trim r.attr = r.attr := by
  rw [Text.trim, Text.trimChars_of_no_blank, String.ofList_toList]
  intro c hc
  exact isBlank_of_isTypeChar (typeChars r.attr_type c hc)

theorem lowercase_attr (r : Rdn) : Text.lowercase r.attr = r.attr := by
  have hplain : Text.Plain r.attr := by
    rw [Text.Plain, Text.lowercase, lowerFrom_ascii (isAttributeType_ascii r.attr_type),
      Text.asciiLower]
  exact hplain.lowercase_of_noUpper r.attr_lower

/-- A displayed component is read as it was. -/
theorem parseWritten_display (r : Rdn) : parseWritten r.display.toList = .ok r := by
  have htype : isAttributeType (Text.trim r.attr).toList = true := by
    rw [trim_attr]
    exact r.attr_type
  have hvalue : Text.trim r.value ≠ "" := by
    rw [r.value_trimmed]
    exact r.value_nonempty
  obtain ⟨s, hs, hattr, hval⟩ := make_of htype hvalue
  rw [trim_attr, lowercase_attr] at hattr
  rw [r.value_trimmed] at hval
  rw [parseWritten, display_toList, divide_render (typeChars r.attr_type)]
  simp only [String.ofList_toList]
  rw [hs, eq_of hattr hval]

/-- A displayed component ends with a character that is no blank. -/
theorem display_ends (r : Rdn) :
    ∃ u d, r.display.toList = u ++ [d] ∧ Text.isBlank d = false := by
  have htrim : Text.trimChars r.value.toList = r.value.toList := by
    have := congrArg String.toList r.value_trimmed
    rwa [Text.trim, String.toList_ofList] at this
  rcases Text.trimChars_ends r.value.toList with h | ⟨u, d, h, hd⟩
  · rw [htrim] at h
    exact absurd (String.toList_eq_nil_iff.mp h) r.value_nonempty
  · rw [htrim] at h
    have hlast : ∃ front, escape [d] = front ++ [d] := by
      rw [escape_cons]
      split
      · exact ⟨['\\'], rfl⟩
      · exact ⟨[], rfl⟩
    obtain ⟨front, hfront⟩ := hlast
    refine ⟨r.attr.toList ++ '=' :: (escape u ++ front), d, ?_, hd⟩
    rw [display_toList, h, escape, List.flatMap_append]
    change _ ++ '=' :: (escape u ++ escape [d]) = _
    rw [hfront]
    simp

/-- A displayed component starts with a character that is no blank. -/
theorem display_starts (r : Rdn) :
    ∃ c u, r.display.toList = c :: u ∧ Text.isBlank c = false := by
  have htype := r.attr_type
  rw [display_toList]
  cases h : r.attr.toList with
  | nil =>
      rw [h] at htype
      cases htype
  | cons c rest =>
      refine ⟨c, _, rfl, isBlank_of_isTypeChar (typeChars htype c ?_)⟩
      rw [h]
      exact List.mem_cons_self ..

-- ── Where the characters of a component come from ────────────────────────────────

/-- Reading a value only takes backslashes away. -/
theorem mem_of_unescape {cs v : List Char} (h : divide?.unescape? cs = some v) {c : Char}
    (hc : c ∈ v) : c ∈ cs := by
  fun_induction divide?.unescape? cs generalizing v with
  | case1 =>
      obtain rfl := Option.some.inj h
      exact hc
  | case2 => cases h
  | case3 d rest ih =>
      obtain ⟨v, hv, rfl⟩ := Option.map_eq_some_iff.mp h
      rcases List.mem_cons.mp hc with rfl | hc
      · simp
      · simp [ih hv hc]
  | case4 d rest _ _ ih =>
      obtain ⟨v, hv, rfl⟩ := Option.map_eq_some_iff.mp h
      rcases List.mem_cons.mp hc with rfl | hc
      · simp
      · simp [ih hv hc]

/-- A value has no characters that were not written. -/
theorem mem_of_divide {cs attr value : List Char} (h : divide? cs = some (attr, value)) {c : Char}
    (hc : c ∈ value) : c ∈ cs := by
  fun_induction divide? cs generalizing attr value with
  | case1 => cases h
  | case2 rest =>
      obtain ⟨v, hv, hpair⟩ := Option.map_eq_some_iff.mp h
      obtain ⟨-, rfl⟩ := Prod.mk.inj hpair
      exact List.mem_cons_of_mem _ (mem_of_unescape hv hc)
  | case3 => cases h
  | case4 d rest _ _ ih =>
      obtain ⟨⟨attr', value'⟩, hrest, hpair⟩ := Option.map_eq_some_iff.mp h
      obtain ⟨-, rfl⟩ := Prod.mk.inj hpair
      exact List.mem_cons_of_mem _ (ih hrest hc)

/-- A part has no characters that were not written. -/
theorem mem_of_extendFirst {front part : List Char} {parts : List (List Char)}
    (h : part ∈ splitParts?.extendFirst front parts) {c : Char} (hc : c ∈ part) :
    c ∈ front ∨ ∃ p ∈ parts, c ∈ p := by
  cases parts with
  | nil =>
      obtain rfl := List.mem_singleton.mp h
      exact Or.inl hc
  | cons p ps =>
      rcases List.mem_cons.mp h with rfl | h
      · rcases List.mem_append.mp hc with hc | hc
        · exact Or.inl hc
        · exact Or.inr ⟨p, List.mem_cons_self .., hc⟩
      · exact Or.inr ⟨part, List.mem_cons_of_mem _ h, hc⟩

/-- Splitting only takes commas away. -/
theorem mem_of_splitParts {cs : List Char} {parts : List (List Char)}
    (h : splitParts? cs = some parts) {part : List Char} (hpart : part ∈ parts) {c : Char}
    (hc : c ∈ part) : c ∈ cs := by
  fun_induction splitParts? cs generalizing parts part with
  | case1 =>
      obtain rfl := Option.some.inj h
      rw [List.mem_singleton.mp hpart] at hc
      exact hc
  | case2 => cases h
  | case3 d rest ih =>
      obtain ⟨ps, hps, rfl⟩ := Option.map_eq_some_iff.mp h
      rcases mem_of_extendFirst hpart hc with hc | ⟨p, hp, hc⟩
      · simp only [List.mem_cons, List.not_mem_nil, or_false] at hc ⊢
        exact or_assoc.mp (Or.inl hc)
      · simp [ih hps hp hc]
  | case4 rest ih =>
      obtain ⟨ps, hps, rfl⟩ := Option.map_eq_some_iff.mp h
      rcases List.mem_cons.mp hpart with rfl | hpart
      · cases hc
      · exact List.mem_cons_of_mem _ (ih hps hpart hc)
  | case5 d rest _ _ _ ih =>
      obtain ⟨ps, hps, rfl⟩ := Option.map_eq_some_iff.mp h
      rcases mem_of_extendFirst hpart hc with hc | ⟨p, hp, hc⟩
      · rw [List.mem_singleton.mp hc]
        exact List.mem_cons_self ..
      · exact List.mem_cons_of_mem _ (ih hps hp hc)

/-- Characters of a value that was read stood in the text. -/
theorem mem_of_parseWritten {cs : List Char} {r : Rdn} (h : parseWritten cs = .ok r) {c : Char}
    (hc : c ∈ r.value.toList) : c ∈ cs := by
  rw [parseWritten] at h
  split at h
  · next attr value hdivide =>
    rw [value_of_make h] at hc
    have hc := Text.mem_of_mem_trim hc
    rw [String.toList_ofList] at hc
    exact mem_of_divide hdivide hc
  · cases h

theorem mem_escape {c : Char} {value : List Char} (h : c ∈ escape value) :
    c = '\\' ∨ c ∈ value := by
  obtain ⟨d, hd, hc⟩ := List.mem_flatMap.mp h
  split at hc
  · rcases List.mem_cons.mp hc with rfl | hc
    · exact Or.inl rfl
    · rw [List.mem_singleton.mp hc]
      exact Or.inr hd
  · rw [List.mem_singleton.mp hc]
    exact Or.inr hd

/-- A double quote in a displayed component is one of its value. -/
theorem quote_mem_value {r : Rdn} (h : '"' ∈ r.display.toList) : '"' ∈ r.value.toList := by
  rw [display_toList] at h
  rcases List.mem_append.mp h with hattr | hrest
  · exact absurd (typeChars r.attr_type _ hattr) (by decide)
  · rcases List.mem_cons.mp hrest with he | hvalue
    · exact absurd he (by decide)
    · exact (mem_escape hvalue).resolve_left (by decide)

/-- Each component that is read comes from one of the parts. -/
theorem exists_part_of_mapM {parts : List (List Char)} {rs : List Rdn}
    (h : parts.mapM parseWritten = .ok rs) {r : Rdn} (hr : r ∈ rs) :
    ∃ part ∈ parts, parseWritten part = .ok r := by
  induction parts generalizing rs with
  | nil =>
      cases h
      cases hr
  | cons part rest ih =>
      rw [List.mapM_cons] at h
      cases hfirst : parseWritten part with
      | error e =>
          rw [hfirst] at h
          cases h
      | ok first =>
          cases hrest : rest.mapM parseWritten with
          | error e =>
              rw [hfirst, hrest] at h
              cases h
          | ok others =>
              rw [hfirst, hrest] at h
              cases h
              rcases List.mem_cons.mp hr with rfl | hr
              · exact ⟨part, List.mem_cons_self .., hfirst⟩
              · obtain ⟨p, hp, hread⟩ := ih hrest hr
                exact ⟨p, List.mem_cons_of_mem _ hp, hread⟩

/-- Components that are each displayed are all read as they were. -/
theorem mapM_display (rs : List Rdn) :
    (rs.map fun r => r.display.toList).mapM parseWritten = .ok rs := by
  induction rs with
  | nil => rfl
  | cons r rest ih =>
      rw [List.map_cons, List.mapM_cons, parseWritten_display, ih]
      rfl

end Rdn

namespace Dn

-- ── Names ────────────────────────────────────────────────────────────────────────

/-- Components are displayed with commas between. -/
theorem display_cons (r s : Rdn) (rs : List Rdn) :
    (display ⟨r :: s :: rs⟩).toList = r.display.toList ++ ',' :: (display ⟨s :: rs⟩).toList := by
  rw [display, List.map_cons, List.map_cons, String.intercalate_cons_cons, display]
  simp

theorem display_singleton (r : Rdn) : display ⟨[r]⟩ = r.display :=
  String.intercalate_singleton

/-- The text of a name is split into the texts of its components. -/
theorem splitParts_display (r : Rdn) (rs : List Rdn) :
    Rdn.splitParts? (display ⟨r :: rs⟩).toList
      = some ((r :: rs).map fun r => r.display.toList) := by
  have hquoted : ∀ x ∈ r.display :: rs.map Rdn.display, Rdn.Quoted x.toList := by
    rw [← List.map_cons, List.forall_mem_map]
    exact fun r _ => r.quoted_display
  rw [display, List.map_cons, splitParts_intercalate hquoted, ← List.map_cons, List.map_map]
  rfl

/-- No displayed name ends with a blank. -/
theorem display_ends (r : Rdn) (rs : List Rdn) :
    ∃ u d, (display ⟨r :: rs⟩).toList = u ++ [d] ∧ Text.isBlank d = false := by
  induction rs generalizing r with
  | nil =>
      rw [display_singleton]
      exact r.display_ends
  | cons s rest ih =>
      obtain ⟨u, d, h, hd⟩ := ih s
      refine ⟨r.display.toList ++ ',' :: u, d, ?_, hd⟩
      rw [display_cons, h, List.append_assoc, List.cons_append]

theorem display_starts (r : Rdn) (rs : List Rdn) :
    ∃ c u, (display ⟨r :: rs⟩).toList = c :: u ∧ Text.isBlank c = false := by
  obtain ⟨c, u, h, hc⟩ := r.display_starts
  cases rs with
  | nil =>
      rw [display_singleton]
      exact ⟨c, u, h, hc⟩
  | cons s rest =>
      rw [display_cons, h]
      exact ⟨c, _, rfl, hc⟩

/-- A displayed name is read as it was. -/
theorem parse_display (d : Dn) : parse d.display = .ok d := by
  obtain ⟨rs⟩ := d
  cases rs with
  | nil => rfl
  | cons r rest =>
      obtain ⟨c, u, hstart, hc⟩ := display_starts r rest
      obtain ⟨v, e, hend, he⟩ := display_ends r rest
      have htrim : Text.trim (display ⟨r :: rest⟩) = display ⟨r :: rest⟩ := by
        rw [Text.trim, hstart, Text.trimChars_of_ends hc he (hstart ▸ hend), ← hstart,
          String.ofList_toList]
      have hne : (display ⟨r :: rest⟩).isEmpty = false := by
        rw [String.isEmpty_eq_false_iff]
        intro hempty
        rw [hempty] at hstart
        cases hstart
      unfold parse
      simp only [htrim, hne, splitParts_display, Rdn.mapM_display]
      rfl

/-- A double quote in a displayed name comes from a value. -/
theorem quote_mem_display {rs : List Rdn} (h : '"' ∈ (display ⟨rs⟩).toList) :
    ∃ r ∈ rs, '"' ∈ r.value.toList := by
  induction rs with
  | nil => cases h
  | cons r rest ih =>
      cases rest with
      | nil =>
          rw [display_singleton] at h
          exact ⟨r, List.mem_cons_self .., Rdn.quote_mem_value h⟩
      | cons s more =>
          rw [display_cons] at h
          rcases List.mem_append.mp h with h | h
          · exact ⟨r, List.mem_cons_self .., Rdn.quote_mem_value h⟩
          · rcases List.mem_cons.mp h with he | h
            · exact absurd he (by decide)
            · obtain ⟨t, ht, hquote⟩ := ih h
              exact ⟨t, List.mem_cons_of_mem _ ht, hquote⟩

/-- A name that is read from a text without a double quote is displayed without one. -/
theorem no_quote_of_parse {s : String} {d : Dn} (hs : '"' ∉ s.toList) (h : parse s = .ok d) :
    '"' ∉ d.display.toList := by
  intro hquote
  obtain ⟨r, hr, hvalue⟩ := quote_mem_display hquote
  unfold parse at h
  simp only at h
  split at h
  · cases h
    cases hr
  · split at h
    · next parts hparts =>
      cases hrdns : parts.mapM Rdn.parseWritten with
      | error e =>
          rw [hrdns] at h
          cases h
      | ok rs =>
          rw [hrdns] at h
          cases h
          obtain ⟨part, hpart, hread⟩ := Rdn.exists_part_of_mapM hrdns hr
          have hmem := Rdn.mem_of_splitParts hparts hpart (Rdn.mem_of_parseWritten hread hvalue)
          exact hs (Text.mem_of_mem_trim hmem)
    · cases h

end Dn

end DirectoryAccess
