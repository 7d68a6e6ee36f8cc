import DirectoryAccess.Entry.Basic

/-! # Search scopes and filters — which entries a search is about

    A scope selects names relative to a base.  A filter is a condition on the
    attributes of an entry, in its decoded form; values are matched without regard
    to the case of ASCII letters. -/

namespace DirectoryAccess

/-- How far below its base a search looks. -/
inductive SearchScope where
  | base
  | oneLevel
  | subtree
  deriving DecidableEq, Inhabited

/-- True if a name is selected by the scope from `base`. -/
def SearchScope.selects (base dn : Dn) : SearchScope → Bool
  | .base => dn.same base
  | .oneLevel => dn.isChildOf base
  | .subtree => dn.isWithin base

/-- A condition on an entry. -/
inductive Filter where
  | equality (attr value : String)
  | presence (attr : String)
  | conjunction (filters : List Filter)
  | disjunction (filters : List Filter)
  | negation (filter : Filter)

namespace Filter

/-- The condition that an attribute holds a value, its name in lower case. -/
def holding (attr value : String) : Filter := equality (Text.lowercase attr) value

/-- The condition that an attribute is there, its name in lower case. -/
def having (attr : String) : Filter := presence (Text.lowercase attr)

/-- The condition that every entry meets. -/
def all : Filter := conjunction []

instance : Inhabited Filter := ⟨all⟩

mutual

/-- True if an entry meets the condition. -/
def isMetBy (e : Entry) : Filter → Bool
  | equality attr value => e.holds attr value
  | presence attr => e.has attr
  | conjunction fs => allMetBy e fs
  | disjunction fs => someMetBy e fs
  | negation f => !isMetBy e f

/-- True if an entry meets every condition of a list. -/
def allMetBy (e : Entry) : List Filter → Bool
  | [] => true
  | f :: fs => isMetBy e f && allMetBy e fs

/-- True if an entry meets some condition of a list. -/
def someMetBy (e : Entry) : List Filter → Bool
  | [] => false
  | f :: fs => isMetBy e f || someMetBy e fs

end

mutual

/-- The text of a condition, operators in front. -/
def display : Filter → String
  | equality attr value => "(" ++ attr ++ "=" ++ value ++ ")"
  | presence attr => "(" ++ attr ++ "=*)"
  | conjunction fs => "(&" ++ displayAll fs ++ ")"
  | disjunction fs => "(|" ++ displayAll fs ++ ")"
  | negation f => "(!" ++ display f ++ ")"

/-- The texts of a list of conditions, one after the other. -/
def displayAll : List Filter → String
  | [] => ""
  | f :: fs => display f ++ displayAll fs

end

end Filter

end DirectoryAccess
