/-! # Blank characters — what trimming takes away

    Names and attribute values may be written with blanks around them.  A blank
    is any character with the Unicode property `White_Space`, so a no-break
    space or an ideographic space counts, while a zero width space does not. -/

namespace DirectoryAccess.Text

/-- A character with the Unicode property `White_Space`. -/
def isBlank (c : Char) : Bool :=
  let n := c.toNat
  (9 ≤ n && n ≤ 13) || n == 0x20 || n == 0x85 || n == 0xa0 || n == 0x1680
    || (0x2000 ≤ n && n ≤ 0x200a) || n == 0x2028 || n == 0x2029
    || n == 0x202f || n == 0x205f || n == 0x3000

/-- The characters without the blanks in front. -/
def trimStartChars (cs : List Char) : List Char :=
  cs.dropWhile isBlank

/-- The characters without the blanks at the end. -/
def trimEndChars (cs : List Char) : List Char :=
  (cs.reverse.dropWhile isBlank).reverse

/-- The characters without the blanks at either end. -/
def trimChars (cs : List Char) : List Char :=
  trimEndChars (trimStartChars cs)

/-- A text without the blanks in front. -/
def trimStart (s : String) : String :=
  String.ofList (trimStartChars s.toList)

/-- A text without the blanks at either end. -/
def trim (s : String) : String :=
  String.ofList (trimChars s.toList)

/-- Characters of which the first is no blank stay when trimmed in front. -/
theorem trimStartChars_cons {c : Char} {cs : List Char} (h : isBlank c = false) :
    trimStartChars (c :: cs) = c :: cs := by
  rw [trimStartChars, List.dropWhile_cons, h]
  rfl

/-- Dropping a second time drops nothing. -/
theorem dropWhile_dropWhile (p : Char → Bool) (cs : List Char) :
    (cs.dropWhile p).dropWhile p = cs.dropWhile p := by
  induction cs with
  | nil => rfl
  | cons c rest ih =>
      rw [List.dropWhile_cons]
      split
      · exact ih
      · next h =>
        rw [List.dropWhile_cons, if_neg h]

/-- Trimmed in front, characters are none or start with one that is no blank. -/
theorem trimStartChars_eq (cs : List Char) :
    trimStartChars cs = []
      ∨ ∃ c rest, trimStartChars cs = c :: rest ∧ isBlank c = false := by
  induction cs with
  | nil => exact Or.inl rfl
  | cons c rest ih =>
      cases h : isBlank c with
      | true =>
          rw [show trimStartChars (c :: rest) = trimStartChars rest by
            rw [trimStartChars, List.dropWhile_cons, h]
            rfl]
          exact ih
      | false => exact Or.inr ⟨c, rest, trimStartChars_cons h, h⟩

/-- Trimming at the end keeps a first character that is no blank. -/
theorem trimEndChars_cons {c : Char} (cs : List Char) (h : isBlank c = false) :
    ∃ rest, trimEndChars (c :: cs) = c :: rest := by
  have hd : ∀ l : List Char, ∃ l', (l ++ [c]).dropWhile isBlank = l' ++ [c] := by
    intro l
    induction l with
    | nil =>
        refine ⟨[], ?_⟩
        rw [List.nil_append, List.dropWhile_cons, h]
        rfl
    | cons d l ih =>
        rw [List.cons_append, List.dropWhile_cons]
        split
        · exact ih
        · exact ⟨d :: l, rfl⟩
  obtain ⟨l', hl'⟩ := hd cs.reverse
  refine ⟨l'.reverse, ?_⟩
  rw [trimEndChars, List.reverse_cons, hl', List.reverse_append]
  rfl

/-- Trimming a second time takes nothing away. -/
theorem trimChars_trimChars (cs : List Char) :
    trimChars (trimChars cs) = trimChars cs := by
  have hend : ∀ l, trimEndChars (trimEndChars l) = trimEndChars l := by
    intro l
    rw [trimEndChars, trimEndChars, List.reverse_reverse, dropWhile_dropWhile]
  rcases trimStartChars_eq cs with h | ⟨c, rest, h, hc⟩
  · rw [trimChars, trimChars, h]
    rfl
  · obtain ⟨rest', hr⟩ := trimEndChars_cons rest hc
    rw [trimChars, trimChars, h, hr, trimStartChars_cons hc, ← hr, hend]

/-- Trimming a text a second time takes nothing away. -/
theorem trim_trim (s : String) : trim (trim s) = trim s := by
  rw [trim, trim, String.toList_ofList, trimChars_trimChars]

end DirectoryAccess.Text
