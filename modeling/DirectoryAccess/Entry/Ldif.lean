import DirectoryAccess.Entry.Basic
import DirectoryAccess.Text.Base64

/-! # LDIF records — entries in text

    A record is a list of lines `attribute: value`, the first of which holds the
    name.  A line that starts with a blank continues the one before it, a line that
    starts with a hash is a comment, and empty lines do not count.  After a double
    colon the value is in base 64. -/

namespace DirectoryAccess

namespace Ldif

/-- Split at line feeds.  A carriage return in front of a line feed belongs to the
    line end, and nothing after the last line feed is no line. -/
def lines (cs : List Char) : List (List Char) :=
  go [] cs
where
  /-- The lines of the characters, `line` being what has been read of the first,
      nearest first. -/
  go (line : List Char) : List Char → List (List Char)
    | [] => if line.isEmpty then [] else [line.reverse]
    | '\n' :: rest =>
        (match line with
          | '\r' :: front => front.reverse
          | _ => line.reverse) :: go [] rest
    | c :: rest => go (c :: line) rest

/-- Take in the lines of a record: leave out comments and empty lines and put
    continuations behind the line before them.  The lines taken in are held nearest
    first; a continuation of nothing is refused. -/
def unfold (taken : List (List Char)) :
    List (List Char) → Except OperationError (List (List Char))
  | [] => .ok taken.reverse
  | line :: rest =>
      match line with
      | '#' :: _ => unfold taken rest
      | ' ' :: more =>
          match taken with
          | last :: front => unfold ((last ++ more) :: front) rest
          | [] => .error (.invalidAttribute (String.ofList line))
      | _ =>
          if (Text.trimChars line).isEmpty then unfold taken rest
          else unfold (line :: taken) rest

/-- Split at the first colon. -/
def splitColon? : List Char → Option (List Char × List Char)
  | [] => none
  | ':' :: rest => some ([], rest)
  | c :: rest => (splitColon? rest).map fun (attr, value) => (c :: attr, value)

/-- Read one line as an attribute name, in lower case, and a value. -/
def parseLine (line : List Char) : Except OperationError (String × String) :=
  match splitColon? line with
  | none => .error (.invalidAttribute (String.ofList line))
  | some (name, rest) =>
      let attr := Text.lowercase (Text.trim (String.ofList name))
      if attr.isEmpty then .error (.invalidAttribute (String.ofList line))
      else
        match rest with
        | ':' :: spelled =>
            match Text.Base64.decodeText? (Text.trim (String.ofList spelled)) with
            | some value => .ok (attr, value)
            | none => .error (.invalidAttribute attr)
        | _ => .ok (attr, Text.trimStart (String.ofList rest))

/-- Add the attributes of the remaining lines to an entry. -/
def addLines (e : Entry) : List (List Char) → Except OperationError Entry
  | [] => .ok e
  | line :: rest => do
      let (attr, value) ← parseLine line
      addLines (e.addAva attr value) rest

end Ldif

/-- Read an entry from a record.  The first line must hold the name. -/
def Entry.ofLdif (text : String) : Except OperationError Entry := do
  match ← Ldif.unfold [] (Ldif.lines text.toList) with
  | [] => throw (.invalidDn "")
  | first :: rest =>
      let (attr, value) ← Ldif.parseLine first
      if attr == "dn" then Ldif.addLines (Entry.named (← Dn.parse value)) rest
      else throw (.invalidDn "")

end DirectoryAccess
