import DirectoryAccess.Text.Lowercase

/-! # Vocabulary — the attribute types and object classes the server knows

    Attribute types and object classes are compared in lower case and written so
    here.  The server maintains some attributes itself; all others are user
    attributes.  A few say who somebody is or what they may do, and nobody but an
    administrator may change those on their own entry. -/

namespace DirectoryAccess

namespace Attribute

def objectClass : String := "objectclass"
def commonName : String := "cn"
def userId : String := "uid"
def organizationalUnit : String := "ou"
def description : String := "description"
def userPassword : String := "userpassword"
def member : String := "member"
def uniqueMember : String := "uniquemember"
def memberOf : String := "memberof"
def entryAci : String := "entryaci"
def subentryAci : String := "subentryaci"
def prescriptiveAci : String := "prescriptiveaci"
def subtreeSpecification : String := "subtreespecification"
def administrativeRole : String := "administrativerole"
def accessControlSubentries : String := "accesscontrolsubentries"
def createTimestamp : String := "createtimestamp"
def modifyTimestamp : String := "modifytimestamp"
def creatorsName : String := "creatorsname"
def modifiersName : String := "modifiersname"
def entryUuid : String := "entryuuid"
def entryDn : String := "entrydn"

/-- The attributes maintained by the server. -/
def operational : List String :=
  [entryAci, subentryAci, prescriptiveAci, subtreeSpecification, administrativeRole,
   accessControlSubentries, createTimestamp, modifyTimestamp, creatorsName,
   modifiersName, entryUuid, entryDn]

/-- The attributes that say who somebody is or what they may do. -/
def identityShifting : List String :=
  [userId, objectClass, memberOf, member, uniqueMember, entryAci, subentryAci,
   prescriptiveAci, administrativeRole]

/-- True unless the attribute is maintained by the server.  A name is lower cased
    for the question only if an ASCII capital stands in it. -/
def isUser (attr : String) : Bool :=
  if Text.hasAsciiUpper attr then !operational.contains (Text.lowercase attr)
  else !operational.contains attr

/-- True if changing the attribute may change who somebody is. -/
def isIdentityShifting (attr : String) : Bool :=
  identityShifting.contains (Text.lowercase attr)

end Attribute

namespace ObjectClass

def person : String := "person"
def organizationalUnit : String := "organizationalunit"
def domain : String := "domain"
def groupOfNames : String := "groupofnames"
def groupOfUniqueNames : String := "groupofuniquenames"
def subentry : String := "subentry"
def accessControlSubentry : String := "accesscontrolsubentry"

end ObjectClass

end DirectoryAccess
