import DirectoryAccess.Modification.Basic

/-! # Modification lists as JSON — their compact data form

    A list is written as an object with the one member `mods`.  A modification is
    an object whose one member is named for its kind and holds the attribute and
    the values.  No blanks are written. -/

namespace DirectoryAccess

namespace Text

/-- One character of a JSON string: quotes, backslashes and control characters are
    escaped, the common ones by a letter and the others by four digits. -/
def jsonChar (c : Char) : List Char :=
  if c == '"' then ['\\', '"']
  else if c == '\\' then ['\\', '\\']
  else if c == '\x08' then ['\\', 'b']
  else if c == '\x0c' then ['\\', 'f']
  else if c == '\n' then ['\\', 'n']
  else if c == '\r' then ['\\', 'r']
  else if c == '\t' then ['\\', 't']
  else if c.toNat < 0x20 then
    let digits := Nat.toDigits 16 c.toNat
    ['\\', 'u'] ++ List.replicate (4 - digits.length) '0' ++ digits
  else [c]

/-- A text as a JSON string. -/
def jsonString (s : String) : String :=
  String.ofList (['"'] ++ s.toList.flatMap jsonChar ++ ['"'])

end Text

namespace Modification

/-- The name of a kind of modification. -/
def kindName : Modification → String
  | add _ _ => "Add"
  | remove _ _ => "Remove"
  | replace _ _ => "Replace"

/-- One modification as JSON. -/
def json (m : Modification) : String :=
  "\x7b" ++ Text.jsonString m.kindName ++ ":[" ++ Text.jsonString m.attr ++ ",["
    ++ String.intercalate "," (m.values.map Text.jsonString) ++ "]]\x7d"

/-- A list of modifications as JSON. -/
def listJson (mods : List Modification) : String :=
  "\x7b\"mods\":[" ++ String.intercalate "," (mods.map json) ++ "]\x7d"

end Modification

end DirectoryAccess
