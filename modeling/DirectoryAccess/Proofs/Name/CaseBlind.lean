import DirectoryAccess.Proofs.Name.Display

/-! # Case-blind reading — a name is read whatever the case of its ASCII letters

    Values are compared with one another by their ASCII letters in lower case, and names
    by their full lower case.  Nothing that reading looks for in a text is an ASCII
    letter, neither the blanks at its ends nor what divides it, and next to a capital
    sigma a capital letter counts as its small one does.  So of two texts that differ in
    the case of ASCII letters alone either both spell the same name or neither spells
    one. -/

namespace DirectoryAccess

namespace Text

-- ── Characters ───────────────────────────────────────────────────────────────────

/-- What tells no ASCII capital from its small letter tells no character from what it is
    lowered to. -/
theorem apply_asciiLowerChar {α : Type} (f : Char → α)
    (h : ∀ n < 26, f (Char.ofNat (0x61 + n)) = f (Char.ofNat (0x41 + n))) (c : Char) :
    f (asciiLowerChar c) = f c := by
  cases hc : isAsciiUpper c with
  | false =>
      rw [asciiLowerChar, hc]
      rfl
  | true =>
      have hr : 0x41 ≤ c.toNat ∧ c.toNat ≤ 0x5a := by
        simpa [isAsciiUpper] using hc
      have hn := h (c.toNat - 0x41) (by omega)
      rw [show 0x61 + (c.toNat - 0x41) = c.toNat + 0x20 by omega,
        show 0x41 + (c.toNat - 0x41) = c.toNat by omega, Char.ofNat_toNat] at hn
      rw [asciiLowerChar, if_pos hc]
      exact hn

theorem isBlank_asciiLowerChar (c : Char) : isBlank (asciiLowerChar c) = isBlank c :=
  apply_asciiLowerChar isBlank (by decide) c

-- ── Lower casing ─────────────────────────────────────────────────────────────────

/-- What lower casing asks the tables about a character. -/
def casing (c : Char) : Bool × Bool × List Char := (isCaseIgnorable c, isCased c, lowerChar c)

theorem casing_asciiLowerChar (c : Char) : casing (asciiLowerChar c) = casing c :=
  apply_asciiLowerChar casing (by decide +kernel) c

theorem casedFirst_map (cs : List Char) :
    casedFirst (cs.map asciiLowerChar) = casedFirst cs := by
  have hignored : (isCaseIgnorable ∘ asciiLowerChar) = isCaseIgnorable :=
    funext fun c => congrArg (·.1) (casing_asciiLowerChar c)
  rw [casedFirst, casedFirst, List.dropWhile_map, hignored]
  cases cs.dropWhile isCaseIgnorable with
  | nil => rfl
  | cons c rest => exact congrArg (·.2.1) (casing_asciiLowerChar c)

/-- The case of ASCII letters is lost in lower case. -/
theorem lowerFrom_map (before cs : List Char) :
    lowerFrom (before.map asciiLowerChar) (cs.map asciiLowerChar) = lowerFrom before cs := by
  induction cs generalizing before with
  | nil => rfl
  | cons c rest ih =>
      have hsigma : (asciiLowerChar c == 'Σ') = (c == 'Σ') :=
        asciiLowerChar_beq (by decide) c
      have hlower : lowerChar (asciiLowerChar c) = lowerChar c :=
        congrArg (·.2.2) (casing_asciiLowerChar c)
      have hrest := ih (c :: before)
      rw [List.map_cons] at hrest
      rw [List.map_cons, lowerFrom, lowerFrom, hsigma, hlower, hrest, isFinalSigma, isFinalSigma,
        casedFirst_map, casedFirst_map]

/-- The full lower case of a text sees no case of ASCII letters. -/
theorem lowercase_asciiLower (s : String) : lowercase (asciiLower s) = lowercase s := by
  rw [lowercase, lowercase, asciiLower, String.toList_ofList]
  exact congrArg String.ofList (lowerFrom_map [] s.toList)

-- ── Trimming ─────────────────────────────────────────────────────────────────────

/-- Trimming commutes with lowering ASCII letters. -/
theorem trimChars_map (cs : List Char) :
    trimChars (cs.map asciiLowerChar) = (trimChars cs).map asciiLowerChar := by
  have hblank : (isBlank ∘ asciiLowerChar) = isBlank := by
    funext c
    exact isBlank_asciiLowerChar c
  rw [trimChars, trimChars, trimStartChars, trimStartChars, trimEndChars, trimEndChars,
    List.dropWhile_map, hblank, ← List.map_reverse, List.dropWhile_map, hblank, List.map_reverse]

theorem trim_asciiLower (s : String) : trim (asciiLower s) = asciiLower (trim s) := by
  rw [trim, trim, asciiLower, asciiLower, String.toList_ofList, String.toList_ofList,
    trimChars_map]

theorem asciiLower_eq_empty_iff (s : String) : asciiLower s = "" ↔ s = "" := by
  rw [← String.toList_eq_nil_iff, ← String.toList_eq_nil_iff, asciiLower, String.toList_ofList,
    List.map_eq_nil_iff]

end Text

open Text

namespace Rdn

-- ── Taking a text apart ──────────────────────────────────────────────────────────

/-- Escapes are undone alike in either case. -/
theorem unescape_map (cs : List Char) :
    divide?.unescape? (cs.map asciiLowerChar)
      = (divide?.unescape? cs).map (List.map asciiLowerChar) := by
  fun_induction divide?.unescape? cs with
  | case1 => rfl
  | case2 => rfl
  | case3 c rest ih =>
      show divide?.unescape? ('\\' :: asciiLowerChar c :: rest.map asciiLowerChar) = _
      rw [divide?.unescape?, ih, Option.map_map, Option.map_map]
      rfl
  | case4 c rest hend hpair ih =>
      have hc : c ≠ '\\' := by
        rintro rfl
        cases rest with
        | nil => exact hend rfl rfl
        | cons d ds => exact hpair d ds rfl rfl
      have hlower : asciiLowerChar c ≠ '\\' := mt (asciiLowerChar_eq_iff (by decide) c).mp hc
      rw [List.map_cons, unescape_plain hlower, ih, Option.map_map, Option.map_map]
      rfl

/-- A component is divided at the same place. -/
theorem divide_map (cs : List Char) :
    divide? (cs.map asciiLowerChar) = (divide? cs).map fun (attr, value) =>
      (attr.map asciiLowerChar, value.map asciiLowerChar) := by
  fun_induction divide? cs with
  | case1 => rfl
  | case2 value =>
      show divide? ('=' :: value.map asciiLowerChar) = _
      rw [divide?, unescape_map, Option.map_map, Option.map_map]
      rfl
  | case3 => rfl
  | case4 c rest hequals hbackslash ih =>
      have hc : asciiLowerChar c ≠ '=' := mt (asciiLowerChar_eq_iff (by decide) c).mp hequals
      have hb : asciiLowerChar c ≠ '\\' := mt (asciiLowerChar_eq_iff (by decide) c).mp hbackslash
      rw [List.map_cons, divide_plain hc hb, ih, Option.map_map, Option.map_map]
      rfl

theorem extendFirst_map (front : List Char) (parts : List (List Char)) :
    splitParts?.extendFirst (front.map asciiLowerChar) (parts.map (List.map asciiLowerChar))
      = (splitParts?.extendFirst front parts).map (List.map asciiLowerChar) := by
  cases parts with
  | nil => rfl
  | cons part rest => simp [splitParts?.extendFirst]

/-- A name is split at the same places. -/
theorem splitParts_map (cs : List Char) :
    splitParts? (cs.map asciiLowerChar)
      = (splitParts? cs).map (List.map (List.map asciiLowerChar)) := by
  have hextend : ∀ front : List Char,
      splitParts?.extendFirst (front.map asciiLowerChar) ∘ List.map (List.map asciiLowerChar)
        = List.map (List.map asciiLowerChar) ∘ splitParts?.extendFirst front := by
    intro front
    funext parts
    exact extendFirst_map front parts
  fun_induction splitParts? cs with
  | case1 => rfl
  | case2 => rfl
  | case3 c rest ih =>
      show splitParts? ('\\' :: asciiLowerChar c :: rest.map asciiLowerChar) = _
      rw [splitParts?, ih, Option.map_map, Option.map_map]
      exact congrArg (Option.map · _) (hextend ['\\', c])
  | case4 rest ih =>
      show splitParts? (',' :: rest.map asciiLowerChar) = _
      rw [splitParts?, ih, Option.map_map, Option.map_map]
      rfl
  | case5 c rest hend hpair hcomma ih =>
      have hc : c ≠ '\\' := by
        rintro rfl
        cases rest with
        | nil => exact hend rfl rfl
        | cons d ds => exact hpair d ds rfl rfl
      have hlower : asciiLowerChar c ≠ '\\' := mt (asciiLowerChar_eq_iff (by decide) c).mp hc
      have hlower' : asciiLowerChar c ≠ ',' := mt (asciiLowerChar_eq_iff (by decide) c).mp hcomma
      rw [List.map_cons, splitParts_plain hlower' hlower, ih, Option.map_map, Option.map_map]
      exact congrArg (Option.map · _) (hextend [c])

-- ── Reading ──────────────────────────────────────────────────────────────────────

/-- What is made of a type and a value, as it is compared. -/
theorem key_make (attr value : String) :
    (make attr value).toOption.map key
      = if isAttributeType (trim attr).toList = true ∧ trim value ≠ "" then
          some (lowercase (trim attr), lowercase (trim value))
        else none := by
  by_cases htype : isAttributeType (trim attr).toList = true
  · by_cases hvalue : trim value = ""
    · rw [if_neg (by simp [hvalue])]
      unfold make
      dsimp only
      rw [dif_pos htype, dif_pos hvalue]
      rfl
    · obtain ⟨r, hr, hattr, hval⟩ := make_of htype hvalue
      rw [if_pos ⟨htype, hvalue⟩, hr]
      show some (r.attr, lowercase r.value) = _
      rw [hattr, hval]
  · rw [if_neg (fun h => htype h.1)]
    unfold make
    dsimp only
    rw [dif_neg htype]
    rfl

/-- A component has the same key in either case, or is none. -/
theorem key_make_asciiLower (attr value : String) :
    (make (asciiLower attr) (asciiLower value)).toOption.map key
      = (make attr value).toOption.map key := by
  have htype : isAttributeType (asciiLower (trim attr)).toList
      = isAttributeType (trim attr).toList := by
    rw [asciiLower, String.toList_ofList, isAttributeType_map]
  have hvalue : asciiLower (trim value) ≠ "" ↔ trim value ≠ "" :=
    not_congr (asciiLower_eq_empty_iff (trim value))
  rw [key_make, key_make, trim_asciiLower, trim_asciiLower, htype, lowercase_asciiLower,
    lowercase_asciiLower]
  simp only [hvalue]

/-- A written component as it is compared, if it is one. -/
def readKey? (cs : List Char) : Option (String × String) :=
  (parseWritten cs).toOption.map key

theorem readKey?_map (cs : List Char) : readKey? (cs.map asciiLowerChar) = readKey? cs := by
  rw [readKey?, readKey?, parseWritten, parseWritten, divide_map]
  cases divide? cs with
  | none => rfl
  | some parts =>
      obtain ⟨attr, value⟩ := parts
      have hmade := key_make_asciiLower (String.ofList attr) (String.ofList value)
      rw [asciiLower, asciiLower, String.toList_ofList, String.toList_ofList] at hmade
      exact hmade

/-- The keys of components that are read one after the other are read one after the
    other. -/
theorem keys_mapM (parts : List (List Char)) :
    (parts.mapM parseWritten).toOption.map (List.map key) = parts.mapM readKey? := by
  induction parts with
  | nil => rfl
  | cons part rest ih =>
      rw [List.mapM_cons, List.mapM_cons, ← ih, readKey?]
      cases parseWritten part with
      | error e => rfl
      | ok r => cases rest.mapM parseWritten <;> rfl

end Rdn

namespace Dn

/-- The name that a text spells, as it is compared, if it spells one. -/
def readKey? (s : String) : Option (List (String × String)) := (parse s).toOption.map key

/-- The key of a text is read component by component, that of a blank one is the root. -/
theorem readKey?_eq (s : String) :
    readKey? s = if trim s = "" then some []
      else (Rdn.splitParts? (trim s).toList).bind fun parts => parts.mapM Rdn.readKey? := by
  rw [readKey?, parse]
  by_cases hempty : trim s = ""
  · rw [if_pos hempty, hempty]
    rfl
  · have hsome : ¬(trim s).isEmpty = true := fun h => hempty (String.isEmpty_iff.mp h)
    rw [if_neg hempty, if_neg hsome]
    cases Rdn.splitParts? (trim s).toList with
    | none => rfl
    | some parts =>
        rw [Option.bind_some, ← Rdn.keys_mapM]
        dsimp only
        cases parts.mapM Rdn.parseWritten <;> rfl

/-- The key that a text is read as does not depend on the case of its ASCII letters. -/
theorem readKey?_asciiLower (s : String) : readKey? (asciiLower s) = readKey? s := by
  have hparts : ∀ parts : List (List Char),
      (parts.map (List.map asciiLowerChar)).mapM Rdn.readKey? = parts.mapM Rdn.readKey? := by
    intro parts
    rw [List.mapM_map]
    exact congrArg (List.mapM · parts) (funext Rdn.readKey?_map)
  have hsplit : Rdn.splitParts? (asciiLower (trim s)).toList
      = (Rdn.splitParts? (trim s).toList).map (List.map (List.map asciiLowerChar)) := by
    rw [asciiLower, String.toList_ofList, Rdn.splitParts_map]
  rw [readKey?_eq, readKey?_eq, trim_asciiLower, hsplit, Option.bind_map]
  simp only [asciiLower_eq_empty_iff, Function.comp_def, hparts]

/-- Of two texts that differ in the case of ASCII letters alone, both spell the same name if
    one spells a name. -/
theorem parse_of_same {u v : String} (h : sameIgnoringAsciiCase u v = true) {d : Dn}
    (hd : parse u = .ok d) : ∃ d', parse v = .ok d' ∧ d'.key = d.key := by
  have hlower : asciiLower u = asciiLower v := eq_of_beq h
  have hread : readKey? v = some d.key := by
    rw [← readKey?_asciiLower, ← hlower, readKey?_asciiLower, readKey?, hd]
    rfl
  obtain ⟨d', hd', hkey⟩ := Option.map_eq_some_iff.mp hread
  refine ⟨d', ?_, hkey⟩
  cases hv : parse v with
  | error e =>
      rw [hv] at hd'
      cases hd'
  | ok d'' =>
      rw [hv] at hd'
      cases hd'
      rfl

end Dn

end DirectoryAccess
