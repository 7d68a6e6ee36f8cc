import DirectoryAccess.Text.Lowercase

/-! # Modifications — changes to the attributes of an entry

    A modify request carries a list of modifications, each about one attribute.
    Order matters: every modification applies to what the one before it left. -/

namespace DirectoryAccess

/-- One change to one attribute. -/
inductive Modification where
  /-- The values are held afterwards. -/
  | add (attr : String) (values : List String)
  /-- The values are not held afterwards; without values, the attribute is not. -/
  | remove (attr : String) (values : List String)
  /-- Exactly the values are held afterwards; without values, the attribute is not. -/
  | replace (attr : String) (values : List String)
  deriving DecidableEq, Inhabited

namespace Modification

/-- The attribute a modification is about. -/
def attr : Modification → String
  | add a _ | remove a _ | replace a _ => a

/-- The values a modification carries. -/
def values : Modification → List String
  | add _ vs | remove _ vs | replace _ vs => vs

/-- Add values to an attribute, its name in lower case. -/
def adding (attr : String) (values : List String) : Modification :=
  add (Text.lowercase attr) values

/-- Remove values from an attribute, its name in lower case. -/
def removing (attr : String) (values : List String) : Modification :=
  remove (Text.lowercase attr) values

/-- Remove a whole attribute, its name in lower case. -/
def purging (attr : String) : Modification :=
  remove (Text.lowercase attr) []

/-- Replace the values of an attribute, its name in lower case. -/
def replacing (attr : String) (values : List String) : Modification :=
  replace (Text.lowercase attr) values

/-- True if a modification is about an attribute, but for the case of ASCII
    letters. -/
def isAbout (m : Modification) (attr : String) : Bool :=
  Text.sameIgnoringAsciiCase m.attr attr

end Modification

/-- True if some modification of a list is about an attribute. -/
def touches (mods : List Modification) (attr : String) : Bool :=
  mods.any fun m => m.isAbout attr

end DirectoryAccess
