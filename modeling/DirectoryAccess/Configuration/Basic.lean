import DirectoryAccess.Log
import DirectoryAccess.Name.Dn

/-! # Configuration — the settings that decide how operations are authorized

    A configuration is made of settings, each of which may be left out and then has
    its default.  Names in settings must be names. -/

namespace DirectoryAccess

/-- The settings as they are given. -/
structure Settings where
  accessControlEnabled : Bool
  adminDn : Option String
  adminGroupDn : Option String
  usersBaseDn : Option String
  groupsBaseDn : Option String
  logLevel : Option LogLevel
  deriving DecidableEq, Inhabited

namespace Settings

/-- No setting given: every name and the log level have their defaults, and the
    fixed policy applies. -/
def none : Settings := ⟨false, .none, .none, .none, .none, .none⟩

end Settings

/-- The settings with defaults filled in and names read. -/
structure Configuration where
  accessControlEnabled : Bool
  adminDn : Dn
  adminGroupDn : Dn
  usersBaseDn : Dn
  groupsBaseDn : Dn
  logLevel : LogLevel

namespace Configuration

/-- The default name of the administrator. -/
def defaultAdminDn : String := "uid=admin,ou=system"

/-- The default name of the administrators group. -/
def defaultAdminGroupDn : String := "cn=Administrators,ou=groups,ou=system"

/-- The default base of user entries. -/
def defaultUsersBaseDn : String := "ou=users,ou=system"

/-- The default base of group entries. -/
def defaultGroupsBaseDn : String := "ou=groups,ou=system"

/-- Read the name in a setting. -/
def readName (setting : String) (given : Option String) (default : String) :
    Except OperationError Dn :=
  let value := given.getD default
  match Dn.parse value with
  | .ok dn => .ok dn
  | .error _ => .error (.invalidConfig (setting ++ " is not a valid dn: " ++ value))

/-- The configuration that settings amount to. -/
def ofSettings (s : Settings) : Except OperationError Configuration := do
  return {
    accessControlEnabled := s.accessControlEnabled
    adminDn := ← readName "admin_dn" s.adminDn defaultAdminDn
    adminGroupDn := ← readName "admin_group_dn" s.adminGroupDn defaultAdminGroupDn
    usersBaseDn := ← readName "users_base_dn" s.usersBaseDn defaultUsersBaseDn
    groupsBaseDn := ← readName "groups_base_dn" s.groupsBaseDn defaultGroupsBaseDn
    logLevel := s.logLevel.getD .info }

/-- The same configuration with access control items switched on or off. -/
def withAccessControl (c : Configuration) (enabled : Bool) : Configuration :=
  { c with accessControlEnabled := enabled }

/-- True if two configurations have the same settings, names compared as names. -/
def same (c d : Configuration) : Bool :=
  c.accessControlEnabled == d.accessControlEnabled && c.adminDn.same d.adminDn
    && c.adminGroupDn.same d.adminGroupDn && c.usersBaseDn.same d.usersBaseDn
    && c.groupsBaseDn.same d.groupsBaseDn && c.logLevel == d.logLevel

/-- True for a configuration that has every default. -/
def isDefault (c : Configuration) : Bool :=
  match ofSettings Settings.none with
  | .ok d => c.same d
  | .error _ => false

end Configuration

end DirectoryAccess
