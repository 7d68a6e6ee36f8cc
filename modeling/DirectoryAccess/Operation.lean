import DirectoryAccess.Filter
import DirectoryAccess.Identity

/-! # Operations — what a session may ask of the directory

    An operation is a request in its decoded form.  Every operation acts on one
    name; those that relocate an entry also have a new name for it. -/

namespace DirectoryAccess

/-- A request to the directory. -/
inductive Operation where
  | add (entry : Entry)
  | delete (dn : Dn)
  | modify (dn : Dn) (mods : List Modification)
  | rename (dn : Dn) (rdn : Rdn) (deleteOld : Bool)
  | move (dn superior : Dn)
  | moveAndRename (dn superior : Dn) (rdn : Rdn) (deleteOld : Bool)
  | compare (dn : Dn) (attr value : String)
  /-- Read an entry; without a list of attributes, all of them. -/
  | lookup (dn : Dn) (attrs : Option (List String))
  | hasEntry (dn : Dn)
  | search (base : Dn) (scope : SearchScope) (filter : Filter) (attrs : Option (List String))

namespace Operation

/-- The name of the kind of operation. -/
def name : Operation → String
  | add _ => "add"
  | delete _ => "delete"
  | modify _ _ => "modify"
  | rename _ _ _ => "rename"
  | move _ _ => "move"
  | moveAndRename _ _ _ _ => "move_and_rename"
  | compare _ _ _ => "compare"
  | lookup _ _ => "lookup"
  | hasEntry _ => "has_entry"
  | search _ _ _ _ => "search"

/-- The name the operation acts on. -/
def target : Operation → Dn
  | add entry => entry.dn
  | delete dn | modify dn _ | rename dn _ _ | move dn _ | moveAndRename dn _ _ _
  | compare dn _ _ | lookup dn _ | hasEntry dn => dn
  | search base _ _ _ => base

/-- The new name that a relocation gives to its target.  The root has no parent to be
    renamed under and no component to be moved by. -/
def newDn? : Operation → Option Dn
  | rename dn rdn _ => dn.parent?.map fun p => p.child rdn
  | move dn superior => dn.rdn?.map fun r => superior.child r
  | moveAndRename _ superior rdn _ => some (superior.child rdn)
  | _ => none

end Operation

end DirectoryAccess
