/-! # Settings documents — keys and values in lines

    A document assigns values to keys, one to a line, with comments and blank lines
    in between.  A key may have several parts, divided by dots, and then reaches
    into a table; a header line names the table that the lines after it belong to.
    No key is given twice.

    Only what can stand for a setting is read: strings in four spellings, truth
    values, tables, and lists without elements.  Any other value makes the document
    one that gives no settings at all, as a syntax error does. -/

namespace DirectoryAccess

namespace Document

/-- How a table came into being. -/
inductive TableOrigin where
  /-- Between braces; nothing can be added to it. -/
  | inline
  /-- By a key of several parts. -/
  | dotted
  /-- By a header of its own. -/
  | header
  /-- By the header of a table within it. -/
  | implied
  deriving DecidableEq, Inhabited

/-- A value of a document. -/
inductive Value where
  | text (s : String)
  | flag (b : Bool)
  | emptyList
  | table (origin : TableOrigin) (entries : List (String × Value))

/-- The entries of a table, in the order given. -/
abbrev Table := List (String × Value)

namespace Table

/-- The value of a key. -/
def get? (t : Table) (key : String) : Option Value :=
  (t.find? fun e => e.1 == key).map (·.2)

/-- The table with the value of a key replaced. -/
def set (t : Table) (key : String) (v : Value) : Table :=
  t.map fun e => if e.1 == key then (key, v) else e

/-- Give a key of one or more parts a value.  The last part must be new, and those
    before it may only reach into tables made in the same way. -/
def assign? (v : Value) : List String → Table → Option Table
  | [], _ => none
  | [key], t => if (t.get? key).isSome then none else some (t ++ [(key, v)])
  | key :: more, t =>
      match t.get? key with
      | none => do
          let inner ← assign? v more []
          return t ++ [(key, .table .dotted inner)]
      | some (.table .dotted entries) => do
          let inner ← assign? v more entries
          return t.set key (.table .dotted inner)
      | some _ => none

/-- Open the table that a header names.  It must not have been opened before. -/
def openTable? : List String → Table → Option Table
  | [], _ => none
  | [key], t =>
      match t.get? key with
      | none => some (t ++ [(key, .table .header [])])
      | some (.table .implied entries) => some (t.set key (.table .header entries))
      | some _ => none
  | key :: more, t =>
      match t.get? key with
      | none => do
          let inner ← openTable? more []
          return t ++ [(key, .table .implied inner)]
      | some (.table .implied entries) => do
          let inner ← openTable? more entries
          return t.set key (.table .implied inner)
      | some (.table .header entries) => do
          let inner ← openTable? more entries
          return t.set key (.table .header inner)
      | some _ => none

/-- Change the table that has been opened at a place. -/
def changeAt? (change : Table → Option Table) : List String → Table → Option Table
  | [], t => change t
  | key :: more, t =>
      match t.get? key with
      | some (.table origin entries) => do
          let inner ← changeAt? change more entries
          return t.set key (.table origin inner)
      | _ => none

end Table

-- ── Characters, and skipping them ────────────────────────────────────────────────

/-- A blank within a line. -/
def isSpace (c : Char) : Bool := c == ' ' || c == '\t'

/-- A character that comments and strings may show: a tab, or anything but control
    characters. -/
def isShown (c : Char) : Bool := c == '\t' || (0x20 ≤ c.toNat && c.toNat != 0x7f)

/-- A character of a key without quotes. -/
def isKeyChar (c : Char) : Bool :=
  let n := c.toNat
  (0x41 ≤ n && n ≤ 0x5a) || (0x61 ≤ n && n ≤ 0x7a) || (0x30 ≤ n && n ≤ 0x39)
    || c == '_' || c == '-'

/-- The characters behind the blanks in front. -/
def skipSpace (cs : List Char) : List Char := cs.dropWhile isSpace

-- ── Strings ──────────────────────────────────────────────────────────────────────

/-- The value of a hexadecimal digit. -/
def hexDigit? (c : Char) : Option Nat :=
  let n := c.toNat
  if 0x30 ≤ n && n ≤ 0x39 then some (n - 0x30)
  else if 0x41 ≤ n && n ≤ 0x46 then some (n - 0x41 + 10)
  else if 0x61 ≤ n && n ≤ 0x66 then some (n - 0x61 + 10)
  else none

/-- The character whose code point hexadecimal digits spell; surrogates and numbers
    past the last code point are none. -/
def hexChar? (digits : List Char) : Option Char := do
  let n ← digits.foldlM (fun n c => (hexDigit? c).map (16 * n + ·)) 0
  if n.isValidChar then some (Char.ofNat n) else none

/-- The character that a backslash and a letter stand for. -/
def escaped? (c : Char) : Option Char :=
  if c == 'b' then some '\x08'
  else if c == 't' then some '\t'
  else if c == 'n' then some '\n'
  else if c == 'f' then some '\x0c'
  else if c == 'r' then some '\r'
  else if c == '"' then some '"'
  else if c == '\\' then some '\\'
  else none

/-- Put a character in front of what has been read. -/
def consRead (c : Char) (r : List Char × List Char) : List Char × List Char :=
  (c :: r.1, r.2)

/-- What stands in a string between double quotes on one line, and what is behind
    it. -/
def basicString? : List Char → Option (List Char × List Char)
  | [] => none
  | '"' :: rest => some ([], rest)
  | '\\' :: 'u' :: a :: b :: c :: d :: rest => do
      let x ← hexChar? [a, b, c, d]
      return consRead x (← basicString? rest)
  | '\\' :: 'U' :: a :: b :: c :: d :: e :: f :: g :: h :: rest => do
      let x ← hexChar? [a, b, c, d, e, f, g, h]
      return consRead x (← basicString? rest)
  | '\\' :: c :: rest => do
      let x ← escaped? c
      return consRead x (← basicString? rest)
  | c :: rest => if isShown c then (basicString? rest).map (consRead c) else none

/-- What stands in a string between single quotes on one line, and what is behind
    it. -/
def literalString? : List Char → Option (List Char × List Char)
  | [] => none
  | '\x27' :: rest => some ([], rest)
  | c :: rest => if isShown c then (literalString? rest).map (consRead c) else none

/-- What three closing quotes leave, if they come first: up to two quotes more belong
    to the text, and the rest is behind the string. -/
def closing? (quote : Char) (cs : List Char) : Option (List Char × List Char) :=
  match (cs.take 5).takeWhile (· == quote) with
  | [_, _, _] => some ([], cs.drop 3)
  | [a, _, _, _] => some ([a], cs.drop 4)
  | [a, b, _, _, _] => some ([a, b], cs.drop 5)
  | _ => none

/-- Cut behind the quotes that close a string of several lines without escapes. -/
def cutLiteral? : List Char → Option (List Char × List Char)
  | [] => none
  | c :: rest =>
      match closing? '\x27' (c :: rest) with
      | some r => some r
      | none => (cutLiteral? rest).map (consRead c)

/-- Cut behind the quotes that close a string of several lines with escapes; what
    follows a backslash closes nothing. -/
def cutEscaped? : List Char → Option (List Char × List Char)
  | [] => none
  | '\\' :: c :: rest => (cutEscaped? rest).map fun r => consRead '\\' (consRead c r)
  | c :: rest =>
      match closing? '"' (c :: rest) with
      | some r => some r
      | none => (cutEscaped? rest).map (consRead c)

/-- The text of several lines as it is written, with line ends read as line feeds. -/
def literalText? : List Char → Option (List Char)
  | [] => some []
  | '\r' :: '\n' :: rest => (literalText? rest).map ('\n' :: ·)
  | c :: rest => if isShown c || c == '\n' then (literalText? rest).map (c :: ·) else none

/-- Where the reading of a text with escapes stands. -/
inductive LineMode where
  | inText
  /-- Behind a backslash and blanks, with the line end still to come. -/
  | beforeLineEnd
  /-- Behind such a line end, where blanks and line ends do not count. -/
  | behindLineEnd
  deriving DecidableEq

/-- The text of several lines with its escapes read. -/
def escapedText? : LineMode → List Char → Option (List Char)
  | .beforeLineEnd, [] => none
  | _, [] => some []
  | .beforeLineEnd, '\r' :: '\n' :: rest => escapedText? .behindLineEnd rest
  | .beforeLineEnd, c :: rest =>
      if c == '\n' then escapedText? .behindLineEnd rest
      else if isSpace c then escapedText? .beforeLineEnd rest
      else none
  | .behindLineEnd, '\r' :: '\n' :: rest => escapedText? .behindLineEnd rest
  | .inText, '\r' :: '\n' :: rest => (escapedText? .inText rest).map ('\n' :: ·)
  | _, '\\' :: '\r' :: '\n' :: rest => escapedText? .behindLineEnd rest
  | _, '\\' :: 'u' :: a :: b :: c :: d :: rest => do
      let x ← hexChar? [a, b, c, d]
      return x :: (← escapedText? .inText rest)
  | _, '\\' :: 'U' :: a :: b :: c :: d :: e :: f :: g :: h :: rest => do
      let x ← hexChar? [a, b, c, d, e, f, g, h]
      return x :: (← escapedText? .inText rest)
  | _, '\\' :: c :: rest =>
      if c == '\n' then escapedText? .behindLineEnd rest
      else if isSpace c then escapedText? .beforeLineEnd rest
      else do
        let x ← escaped? c
        return x :: (← escapedText? .inText rest)
  | mode, c :: rest =>
      if mode == .behindLineEnd && (c == '\n' || isSpace c) then escapedText? mode rest
      else if (isShown c && c != '\\') || c == '\n' then
        (escapedText? .inText rest).map (c :: ·)
      else none

/-- The characters behind a line end, if one comes first. -/
def skipLineEnd : List Char → List Char
  | '\n' :: rest => rest
  | '\r' :: '\n' :: rest => rest
  | cs => cs

/-- A string in any of its four spellings. -/
def string? (cs : List Char) : Option (String × List Char) :=
  let finish := fun (r : List Char × List Char) => (String.ofList r.1, r.2)
  match cs with
  | '"' :: '"' :: '"' :: rest => do
      let (raw, last) ← cutEscaped? (skipLineEnd rest)
      return finish (← escapedText? .inText raw, last)
  | '\x27' :: '\x27' :: '\x27' :: rest => do
      let (raw, last) ← cutLiteral? (skipLineEnd rest)
      return finish (← literalText? raw, last)
  | '"' :: rest => (basicString? rest).map finish
  | '\x27' :: rest => (literalString? rest).map finish
  | _ => none

-- ── Keys ─────────────────────────────────────────────────────────────────────────

/-- One part of a key, bare or in quotes. -/
def keyPart? (cs : List Char) : Option (String × List Char) :=
  match cs with
  | '"' :: rest => (basicString? rest).map fun r => (String.ofList r.1, r.2)
  | '\x27' :: rest => (literalString? rest).map fun r => (String.ofList r.1, r.2)
  | _ =>
      match cs.takeWhile isKeyChar with
      | [] => none
      | part => some (String.ofList part, cs.dropWhile isKeyChar)

/-- A key of parts divided by dots, with blanks around each, of at most `bound`
    parts. -/
def key? : Nat → List Char → Option (List String × List Char)
  | 0, _ => none
  | bound + 1, cs => do
      let (part, rest) ← keyPart? (skipSpace cs)
      match skipSpace rest with
      | '.' :: more => do
          let (parts, last) ← key? bound more
          return (part :: parts, last)
      | more => return ([part], more)

-- ── Line ends and lists ──────────────────────────────────────────────────────────

/-- The characters behind a comment, if one comes first: the line end, or nothing. -/
def skipComment? : List Char → Option (List Char)
  | '#' :: rest => some (rest.dropWhile isShown)
  | cs => some cs

/-- The characters behind the rest of a line, of which only blanks and a comment may
    be left. -/
def endOfLine? (cs : List Char) : Option (List Char) := do
  match ← skipComment? (skipSpace cs) with
  | [] => some []
  | '\n' :: rest => some rest
  | '\r' :: '\n' :: rest => some rest
  | _ => none

/-- The characters behind the closing bracket of a list without elements, in which
    lines may be blank or comments, at most `bound` of them. -/
def emptyList? : Nat → List Char → Option (List Char)
  | 0, _ => none
  | bound + 1, cs =>
      match skipSpace cs with
      | ']' :: rest => some rest
      | [] => none
      | more => do
          let next ← endOfLine? more
          emptyList? bound next

-- ── Values ───────────────────────────────────────────────────────────────────────

/-- What is behind a word, if the characters start with it. -/
def behindWord? (word : String) (cs : List Char) : Option (List Char) :=
  if word.toList.isPrefixOf cs then some (cs.drop word.length) else none

/-- Truth values are the words `true` and `false`. -/
def flag? (cs : List Char) : Option (Bool × List Char) :=
  match behindWord? "true" cs with
  | some rest => some (true, rest)
  | none => (behindWord? "false" cs).map fun rest => (false, rest)

mutual

/-- A value nested at most `bound` deep. -/
def value? : Nat → List Char → Option (Value × List Char)
  | 0, _ => none
  | bound + 1, cs =>
      match cs with
      | '[' :: rest => (emptyList? (rest.length + 1) rest).map fun last => (.emptyList, last)
      | '{' :: rest =>
          match skipSpace rest with
          | '}' :: last => some (.table .inline [], last)
          | more => do
              let (entries, last) ← inlineEntries? bound [] more
              return (.table .inline entries, last)
      | _ =>
          match string? cs with
          | some (s, rest) => some (.text s, rest)
          | none => (flag? cs).map fun (b, rest) => (.flag b, rest)

/-- The entries of a table between braces, up to the closing one. -/
def inlineEntries? : Nat → Table → List Char → Option (Table × List Char)
  | 0, _, _ => none
  | bound + 1, t, cs => do
      let (key, rest) ← key? (cs.length + 1) cs
      match rest with
      | '=' :: more =>
          let (v, last) ← value? bound (skipSpace more)
          let t' ← t.assign? v key
          match skipSpace last with
          | ',' :: next => inlineEntries? bound t' next
          | '}' :: next => return (t', next)
          | _ => none
      | _ => none

end

-- ── Lines ────────────────────────────────────────────────────────────────────────

/-- Read a header line behind its first bracket: the parts of the name. -/
def header? (cs : List Char) : Option (List String × List Char) := do
  let (key, rest) ← key? (cs.length + 1) cs
  match rest with
  | ']' :: last => return (key, last)
  | _ => none

/-- Read the lines of a document, at most `bound` of them, into a table; `place` is
    the table that has been opened last. -/
def lines? : Nat → List String → Table → List Char → Option Table
  | 0, _, _, _ => none
  | bound + 1, place, t, cs =>
      match skipSpace cs with
      | [] => some t
      | '[' :: '[' :: _ => none
      | '[' :: rest => do
          let (key, last) ← header? rest
          let t' ← t.openTable? key
          lines? bound key t' (← endOfLine? last)
      | more =>
          match endOfLine? more with
          | some next => lines? bound place t next
          | none => do
              let (key, rest) ← key? (more.length + 1) more
              match rest with
              | '=' :: spelled =>
                  let (v, last) ← value? (spelled.length + 1) (skipSpace spelled)
                  let t' ← t.changeAt? (Table.assign? v key) place
                  lines? bound place t' (← endOfLine? last)
              | _ => none

/-- The table that a document spells.  A byte order mark in front does not count. -/
def parse? (s : String) : Option Table :=
  let cs :=
    match s.toList with
    | '\ufeff' :: rest => rest
    | cs => cs
  lines? (cs.length + 1) [] [] cs

end Document

end DirectoryAccess
