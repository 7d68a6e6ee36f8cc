import DirectoryAccess.Error.Basic
import DirectoryAccess.Text.Blank
import DirectoryAccess.Text.Lowercase

/-! # Name components — one attribute type and one value

    A component is written `type=value`.  The type is a keyword or a dotted number
    and is held in lower case; the value is held as written, without blanks at the
    ends, and is never empty.  Two components are the same if their types and the
    lower cases of their values are. -/

namespace DirectoryAccess

-- ── Attribute types ──────────────────────────────────────────────────────────────

/-- An ASCII letter. -/
def isLetter (c : Char) : Bool :=
  (0x41 ≤ c.toNat && c.toNat ≤ 0x5a) || (0x61 ≤ c.toNat && c.toNat ≤ 0x7a)

/-- An ASCII digit. -/
def isDigit (c : Char) : Bool := 0x30 ≤ c.toNat && c.toNat ≤ 0x39

/-- A keyword starts with a letter and goes on with letters, digits and hyphens; a
    dotted number starts with a digit and goes on with digits and dots. -/
def isAttributeType : List Char → Bool
  | [] => false
  | c :: rest =>
      if isLetter c then rest.all fun d => isLetter d || isDigit d || d == '-'
      else isDigit c && rest.all fun d => isDigit d || d == '.'

/-- Lower casing a text of ASCII characters moves each of its letters. -/
theorem lowerFrom_ascii {cs : List Char} (h : ∀ c ∈ cs, c.toNat < 0x80)
    (before : List Char) :
    Text.lowerFrom before cs = cs.map Text.asciiLowerChar := by
  induction cs generalizing before with
  | nil => rfl
  | cons c rest ih =>
      have hc : c.toNat < 0x80 := h c (List.mem_cons_self ..)
      have hs : (c == 'Σ') = false := by
        apply beq_eq_false_iff_ne.mpr
        intro e
        rw [e] at hc
        exact absurd hc (by decide)
      rw [Text.lowerFrom, hs, ih (fun d hd => h d (List.mem_cons_of_mem _ hd)),
        List.map_cons]
      have hl : Text.lowerChar c = [Text.asciiLowerChar c] := by
        simp only [Text.lowerChar, Text.asciiLowerChar, Text.isAsciiUpper, hc,
          if_true, Bool.and_eq_true, decide_eq_true_eq]
        split <;> rfl
      rw [hl]
      rfl

/-- The characters of an attribute type are ASCII. -/
theorem isAttributeType_ascii {cs : List Char} (h : isAttributeType cs = true) :
    ∀ c ∈ cs, c.toNat < 0x80 := by
  cases cs with
  | nil => exact fun _ hc => nomatch hc
  | cons a rest =>
      have hd : ∀ d : Char, (isLetter d = true ∨ isDigit d = true ∨ d = '-' ∨ d = '.') →
          d.toNat < 0x80 := by
        intro d hd
        simp only [isLetter, isDigit, Bool.or_eq_true, Bool.and_eq_true,
          decide_eq_true_eq] at hd
        rcases hd with (⟨_, _⟩ | ⟨_, _⟩) | ⟨_, _⟩ | rfl | rfl <;>
          first | omega | decide
      simp only [isAttributeType] at h
      intro c hc
      split at h
      · next ha =>
        rcases List.mem_cons.mp hc with rfl | hc
        · exact hd _ (Or.inl ha)
        · have := List.all_eq_true.mp h c hc
          simp only [Bool.or_eq_true, beq_iff_eq] at this
          rcases this with (hl | hl) | hl
          · exact hd _ (Or.inl hl)
          · exact hd _ (Or.inr (Or.inl hl))
          · exact hd _ (Or.inr (Or.inr (Or.inl hl)))
      · rw [Bool.and_eq_true] at h
        rcases List.mem_cons.mp hc with rfl | hc
        · exact hd _ (Or.inr (Or.inl h.1))
        · have := List.all_eq_true.mp h.2 c hc
          simp only [Bool.or_eq_true, beq_iff_eq] at this
          rcases this with hl | hl
          · exact hd _ (Or.inr (Or.inl hl))
          · exact hd _ (Or.inr (Or.inr (Or.inr hl)))

/-- A number below the surrogates is the code point of its character. -/
theorem toNat_ofNat_of_lt {n : Nat} (h : n < 0xd800) : (Char.ofNat n).toNat = n := by
  have hv : n.isValidChar := Or.inl h
  rw [Char.ofNat, dif_pos hv]
  rfl

/-- What the lower case of an ASCII letter is to the classes of characters that an
    attribute type is made of. -/
theorem asciiLowerChar_class (c : Char) :
    isLetter (Text.asciiLowerChar c) = isLetter c
      ∧ isDigit (Text.asciiLowerChar c) = isDigit c
      ∧ (Text.asciiLowerChar c == '-') = (c == '-')
      ∧ (Text.asciiLowerChar c == '.') = (c == '.')
      ∧ Text.isAsciiUpper (Text.asciiLowerChar c) = false := by
  cases h : Text.isAsciiUpper c with
  | false => simp [Text.asciiLowerChar, h]
  | true =>
      have hr : 0x41 ≤ c.toNat ∧ c.toNat ≤ 0x5a := by
        simpa [Text.isAsciiUpper] using h
      have hn : (Char.ofNat (c.toNat + 0x20)).toNat = c.toNat + 0x20 :=
        toNat_ofNat_of_lt (by omega)
      have hne : ∀ d : Char, d.toNat < 0x41 →
          (Char.ofNat (c.toNat + 0x20) == d) = (c == d) := by
        intro d hd
        have h1 : Char.ofNat (c.toNat + 0x20) ≠ d := by
          intro e
          rw [← e, hn] at hd
          omega
        have h2 : c ≠ d := by
          intro e
          rw [← e] at hd
          omega
        rw [beq_eq_false_iff_ne.mpr h1, beq_eq_false_iff_ne.mpr h2]
      rw [Text.asciiLowerChar, if_pos h]
      refine ⟨?_, ?_, hne '-' (by decide), hne '.' (by decide), ?_⟩
      · simp only [isLetter, hn]
        grind
      · simp only [isDigit, hn]
        grind
      · simp only [Text.isAsciiUpper, hn]
        grind

/-- Moving its letters to lower case leaves an attribute type one. -/
theorem isAttributeType_map (cs : List Char) :
    isAttributeType (cs.map Text.asciiLowerChar) = isAttributeType cs := by
  cases cs with
  | nil => rfl
  | cons c rest =>
      simp only [isAttributeType, List.map_cons, List.all_map, Function.comp_def,
        asciiLowerChar_class]

/-- The lower case of an attribute type is one. -/
theorem isAttributeType_lowercase {s : String} (h : isAttributeType s.toList = true) :
    isAttributeType (Text.lowercase s).toList = true := by
  rw [Text.lowercase, String.toList_ofList, lowerFrom_ascii (isAttributeType_ascii h),
    isAttributeType_map]
  exact h

/-- The lower case of an attribute type has no capital letter. -/
theorem lowercase_noUpper {s : String} (h : isAttributeType s.toList = true) :
    Text.hasAsciiUpper (Text.lowercase s) = false := by
  rw [Text.lowercase, Text.hasAsciiUpper, String.toList_ofList,
    lowerFrom_ascii (isAttributeType_ascii h), List.any_map, List.any_eq_false]
  intro c _
  simp [asciiLowerChar_class]

-- ── Components ───────────────────────────────────────────────────────────────────

/-- One component of a name. -/
structure Rdn where
  attr : String
  value : String
  attr_type : isAttributeType attr.toList = true
  attr_lower : Text.hasAsciiUpper attr = false
  value_trimmed : Text.trim value = value
  value_nonempty : value ≠ ""
  deriving DecidableEq

namespace Rdn

/-- The component of a type and a value, blanks around either taken away. -/
def make (attr value : String) : Except OperationError Rdn :=
  let attr := Text.trim attr
  let trimmed := Text.trim value
  if ha : isAttributeType attr.toList = true then
    if hv : trimmed = "" then .error (.invalidDn (attr ++ "="))
    else .ok {
      attr := Text.lowercase attr
      value := trimmed
      attr_type := isAttributeType_lowercase ha
      attr_lower := lowercase_noUpper ha
      value_trimmed := Text.trim_trim value
      value_nonempty := hv }
  else .error (.invalidDn (attr ++ "=" ++ trimmed))

/-- The lower case of the value, by which components are compared. -/
def normValue (r : Rdn) : String := Text.lowercase r.value

/-- True if two components have the same type and, but for case, the same value. -/
def same (r s : Rdn) : Bool := r.attr == s.attr && r.normValue == s.normValue

-- ── Writing ──────────────────────────────────────────────────────────────────────

/-- The characters with a meaning of their own in the text of a name. -/
def special : List Char := [',', '+', '"', '\\', '<', '>', ';', '=', '#']

/-- A value with a backslash in front of every special character. -/
def escape (value : List Char) : List Char :=
  value.flatMap fun c => if special.contains c then ['\\', c] else [c]

/-- The characters of `type=value`, the value escaped. -/
def render (attr value : String) : List Char :=
  attr.toList ++ '=' :: escape value.toList

/-- The text of a component as it was written. -/
def display (r : Rdn) : String := String.ofList (render r.attr r.value)

/-- The text by which components are compared. -/
def norm (r : Rdn) : String := String.ofList (render r.attr r.normValue)

-- ── Reading ──────────────────────────────────────────────────────────────────────

/-- Split a written component into its type and its value.  The first equals sign
    divides them; a backslash in the value stands for the character after it, and
    none may stand in the type or at the end. -/
def divide? : List Char → Option (List Char × List Char)
  | [] => none
  | '=' :: value => (unescape? value).map fun v => ([], v)
  | '\\' :: _ => none
  | c :: rest => (divide? rest).map fun (attr, value) => (c :: attr, value)
where
  /-- The value that an escaped spelling stands for. -/
  unescape? : List Char → Option (List Char)
    | [] => some []
    | ['\\'] => none
    | '\\' :: c :: rest => (unescape? rest).map (c :: ·)
    | c :: rest => (unescape? rest).map (c :: ·)

/-- Read one written component. -/
def parseWritten (cs : List Char) : Except OperationError Rdn :=
  match divide? cs with
  | some (attr, value) => make (String.ofList attr) (String.ofList value)
  | none => .error (.invalidDn (String.ofList cs))

/-- Split at the commas that no backslash stands before; escapes are kept.  A
    backslash at the end is refused. -/
def splitParts? : List Char → Option (List (List Char))
  | [] => some [[]]
  | ['\\'] => none
  | '\\' :: c :: rest => (splitParts? rest).map (extendFirst ['\\', c])
  | ',' :: rest => (splitParts? rest).map ([] :: ·)
  | c :: rest => (splitParts? rest).map (extendFirst [c])
where
  /-- Put characters in front of the first part. -/
  extendFirst (front : List Char) : List (List Char) → List (List Char)
    | [] => [front]
    | part :: parts => (front ++ part) :: parts

/-- Read a text that is a single component. -/
def parse (s : String) : Except OperationError Rdn :=
  match splitParts? s.toList with
  | some [part] => parseWritten part
  | _ => .error (.invalidDn s)

end Rdn

end DirectoryAccess
