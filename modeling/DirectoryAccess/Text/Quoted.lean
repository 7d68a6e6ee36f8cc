import DirectoryAccess.Text.Printable

/-! # Quoted texts — the form in which messages show a text

    A text is shown between double quotes.  Quotes, backslashes and the common
    control characters are escaped by a backslash; what is not printable, and what
    would attach itself to the character before it, is shown by its code point. -/

namespace DirectoryAccess.Text

/-- The hexadecimal digits of a code point, in lower case and without leading
    zeros. -/
def hexDigits (n : Nat) : List Char := Nat.toDigits 16 n

/-- A code point in braces. -/
def escapeCodePoint (c : Char) : List Char :=
  ['\\', 'u', '{'] ++ hexDigits c.toNat ++ ['}']

/-- One character as it stands in a quoted text. -/
def quoteChar (c : Char) : List Char :=
  if c == '\x00' then ['\\', '0']
  else if c == '\t' then ['\\', 't']
  else if c == '\r' then ['\\', 'r']
  else if c == '\n' then ['\\', 'n']
  else if c == '"' then ['\\', '"']
  else if c == '\\' then ['\\', '\\']
  else if attachesToPrevious c || !isPrintable c then escapeCodePoint c
  else [c]

/-- A text in double quotes. -/
def quote (s : String) : String :=
  String.ofList (['"'] ++ s.toList.flatMap quoteChar ++ ['"'])

/-- A list of texts, each quoted, in square brackets. -/
def quoteList (ss : List String) : String :=
  "[" ++ String.intercalate ", " (ss.map quote) ++ "]"

end DirectoryAccess.Text
