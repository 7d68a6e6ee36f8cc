import DirectoryAccess.Name.Dn
import DirectoryAccess.Text.Quoted

/-! # Identities — who is asking

    A principal is a name and how strongly its bearer proved to be called so.  A
    session was authenticated as one principal and may act as another; access
    control looks at the one it acts as.  Credentials are kept out of every
    text. -/

namespace DirectoryAccess

/-- How strongly a principal proved who they are, weakest first. -/
inductive AuthenticationLevel where
  | none
  | simple
  | strong
  deriving DecidableEq, Inhabited

namespace AuthenticationLevel

/-- The place of a level among the levels. -/
def rank : AuthenticationLevel → Nat
  | none => 0
  | simple => 1
  | strong => 2

/-- True if the first level is at least as strong as the second. -/
def atLeast (l m : AuthenticationLevel) : Bool := m.rank ≤ l.rank

/-- The word for a level. -/
def display : AuthenticationLevel → String
  | none => "none"
  | simple => "simple"
  | strong => "strong"

/-- The level of a word. -/
def ofWord? (s : String) : Option AuthenticationLevel :=
  [none, simple, strong].find? fun l => l.display == s

/-- The name of a level in descriptions. -/
def name : AuthenticationLevel → String
  | none => "None"
  | simple => "Simple"
  | strong => "Strong"

end AuthenticationLevel

/-- A bound identity. -/
structure Principal where
  dn : Dn
  level : AuthenticationLevel
  credentials : Option (List UInt8)
  deriving DecidableEq

namespace Principal

/-- The principal of a name at a level. -/
def named (dn : Dn) (level : AuthenticationLevel) : Principal := ⟨dn, level, none⟩

/-- The principal of somebody who proved nothing. -/
def anonymous : Principal := named Dn.root .none

instance : Inhabited Principal := ⟨anonymous⟩

/-- The principal with the credentials it was established with. -/
def withCredentials (p : Principal) (bytes : List UInt8) : Principal :=
  { p with credentials := some bytes }

/-- The principal without credentials. -/
def clearCredentials (p : Principal) : Principal := { p with credentials := none }

/-- True if the principal still has credentials. -/
def hasCredentials (p : Principal) : Bool := p.credentials.isSome

/-- True for a principal named by the root. -/
def isAnonymous (p : Principal) : Bool := p.dn.isRoot

/-- The name and level of a principal. -/
def display (p : Principal) : String :=
  if p.isAnonymous then "anonymous"
  else p.dn.display ++ " (" ++ p.level.display ++ ")"

/-- All that may be shown of a principal. -/
def describe (p : Principal) : String :=
  let credentials := if p.hasCredentials then "Some(\"<redacted>\")" else "None"
  "Principal \x7b dn: " ++ Text.quote p.dn.norm ++ ", auth_level: " ++ p.level.name
    ++ ", credentials: " ++ credentials ++ " \x7d"

end Principal

/-- Who authenticated, and who they act as if that is somebody else. -/
structure Session where
  authenticated : Principal
  proxied : Option Principal
  deriving DecidableEq

namespace Session

/-- The session of a principal acting as themselves. -/
def of (p : Principal) : Session := ⟨p, none⟩

/-- The session of somebody who proved nothing. -/
def anonymous : Session := of Principal.anonymous

instance : Inhabited Session := ⟨anonymous⟩

/-- The same session, acting as somebody else. -/
def withProxy (s : Session) (p : Principal) : Session := { s with proxied := some p }

/-- The principal that access control looks at. -/
def effective (s : Session) : Principal := s.proxied.getD s.authenticated

/-- Who authenticated and who they act as. -/
def display (s : Session) : String :=
  match s.proxied with
  | some p => s.authenticated.display ++ " as " ++ p.display
  | none => s.authenticated.display

end Session

end DirectoryAccess
