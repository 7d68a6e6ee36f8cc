import DirectoryAccess.Configuration.Basic
import DirectoryAccess.Entry.Basic

/-! # A sample directory — a small tree to try things on

    One suffix with containers for users and groups, an administrator, an
    administrators group and three users, one of them in the group. -/

namespace DirectoryAccess

namespace Sample

/-- The suffix. -/
def suffix : String := "dc=example"

/-- The container of users. -/
def usersBase : String := "ou=users,dc=example"

/-- The container of groups. -/
def groupsBase : String := "ou=groups,dc=example"

/-- The administrator. -/
def admin : String := "cn=admin,dc=example"

/-- The administrators group. -/
def adminGroup : String := "cn=administrators,ou=groups,dc=example"

/-- A user. -/
def alice : String := "cn=alice,ou=users,dc=example"

/-- Another user. -/
def bob : String := "cn=bob,ou=users,dc=example"

/-- A user in the administrators group. -/
def carol : String := "cn=carol,ou=users,dc=example"

/-- An entry with a name and attribute values. -/
def describe (dn : String) (avas : List (String × String)) : Except OperationError Entry := do
  return avas.foldl (fun e (attr, value) => e.addAva attr value) (Entry.named (← Dn.parse dn))

/-- The entries of the sample directory, parents first. -/
def entries : Except OperationError (List Entry) :=
  [ (suffix, [(Attribute.objectClass, ObjectClass.domain)]),
    (usersBase,
      [(Attribute.objectClass, ObjectClass.organizationalUnit),
       (Attribute.organizationalUnit, "users")]),
    (groupsBase,
      [(Attribute.objectClass, ObjectClass.organizationalUnit),
       (Attribute.organizationalUnit, "groups")]),
    (admin,
      [(Attribute.objectClass, ObjectClass.person), (Attribute.commonName, "admin"),
       (Attribute.userPassword, "secret")]),
    (adminGroup,
      [(Attribute.objectClass, ObjectClass.groupOfNames),
       (Attribute.commonName, "administrators"), (Attribute.member, carol)]),
    (alice,
      [(Attribute.objectClass, ObjectClass.person), (Attribute.commonName, "alice"),
       (Attribute.userPassword, "alice-secret")]),
    (bob,
      [(Attribute.objectClass, ObjectClass.person), (Attribute.commonName, "bob"),
       (Attribute.description, "builder")]),
    (carol,
      [(Attribute.objectClass, ObjectClass.person), (Attribute.commonName, "carol")]) ].mapM
    fun (dn, avas) => describe dn avas

/-- The configuration that fits the sample directory. -/
def configuration (accessControlEnabled : Bool) : Except OperationError Configuration := do
  Configuration.ofSettings {
    accessControlEnabled := accessControlEnabled
    adminDn := some admin
    adminGroupDn := some adminGroup
    usersBaseDn := some usersBase
    groupsBaseDn := some groupsBase
    logLevel := none }

end Sample

end DirectoryAccess
