import DirectoryAccess.Text.LowerCaseTable
import DirectoryAccess.Text.CaseContext

/-! # Lower casing — the full Unicode mapping of a text

    Attribute names, normalised name values and object classes are held in lower
    case.  ASCII letters are moved by 32 and other characters by the table.  Two
    characters need more: a capital I with a dot keeps its dot as a combining
    mark, and a capital sigma becomes a final sigma where it ends a word. -/

namespace DirectoryAccess.Text

/-- True if, past the case-ignorable characters, a cased one comes first. -/
def casedFirst (cs : List Char) : Bool :=
  match cs.dropWhile isCaseIgnorable with
  | [] => false
  | c :: _ => isCased c

/-- A sigma ends a word if a letter stands before it and none after it.  The
    characters before it are given nearest first. -/
def isFinalSigma (before after : List Char) : Bool :=
  casedFirst before && !casedFirst after

/-- The lower case of one character, wherever it stands. -/
def lowerChar (c : Char) : List Char :=
  let n := c.toNat
  if n < 0x80 then
    if 0x41 ≤ n && n ≤ 0x5a then [Char.ofNat (n + 0x20)] else [c]
  else if n == 0x130 then ['i', '\u0307']
  else [Char.ofNat (lowerCodePoint n)]

/-- The lower case of the characters `cs`, with `before` standing in front of them,
    nearest first. -/
def lowerFrom (before : List Char) : List Char → List Char
  | [] => []
  | c :: rest =>
      (if c == 'Σ' && isFinalSigma before rest then ['ς'] else lowerChar c)
        ++ lowerFrom (c :: before) rest

/-- The lower case of a text. -/
def lowercase (s : String) : String :=
  String.ofList (lowerFrom [] s.toList)

/-- An ASCII capital letter. -/
def isAsciiUpper (c : Char) : Bool := 0x41 ≤ c.toNat && c.toNat ≤ 0x5a

/-- True if some letter of the text is an ASCII capital. -/
def hasAsciiUpper (s : String) : Bool := s.toList.any isAsciiUpper

/-- The lower case of an ASCII letter; every other character stays. -/
def asciiLowerChar (c : Char) : Char :=
  if isAsciiUpper c then Char.ofNat (c.toNat + 0x20) else c

/-- A text with its ASCII letters in lower case and all else as it is. -/
def asciiLower (s : String) : String :=
  String.ofList (s.toList.map asciiLowerChar)

/-- True if two texts differ at most in the case of ASCII letters. -/
def sameIgnoringAsciiCase (a b : String) : Bool :=
  asciiLower a == asciiLower b

end DirectoryAccess.Text
