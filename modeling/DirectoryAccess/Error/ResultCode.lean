/-! # Result codes — how an operation ended, for the outside

    Every error of the server is reported to a client as one of the codes that
    directory protocols share.  The numbers are those of the protocol. -/

namespace DirectoryAccess

/-- The outward status of an operation. -/
inductive ResultCode where
  | success
  | operationsError
  | protocolError
  | noSuchAttribute
  | undefinedAttributeType
  | invalidAttributeSyntax
  | noSuchObject
  | invalidDnSyntax
  | inappropriateAuthentication
  | insufficientAccessRights
  | unavailable
  | unwillingToPerform
  | objectClassViolation
  | notAllowedOnNonLeaf
  | entryAlreadyExists
  | other
  deriving DecidableEq, Inhabited

namespace ResultCode

/-- All codes, by number. -/
def all : List ResultCode :=
  [success, operationsError, protocolError, noSuchAttribute, undefinedAttributeType,
   invalidAttributeSyntax, noSuchObject, invalidDnSyntax, inappropriateAuthentication,
   insufficientAccessRights, unavailable, unwillingToPerform, objectClassViolation,
   notAllowedOnNonLeaf, entryAlreadyExists, other]

/-- The number a protocol responder sends. -/
def toNat : ResultCode → Nat
  | success => 0
  | operationsError => 1
  | protocolError => 2
  | noSuchAttribute => 16
  | undefinedAttributeType => 17
  | invalidAttributeSyntax => 21
  | noSuchObject => 32
  | invalidDnSyntax => 34
  | inappropriateAuthentication => 48
  | insufficientAccessRights => 50
  | unavailable => 52
  | unwillingToPerform => 53
  | objectClassViolation => 65
  | notAllowedOnNonLeaf => 66
  | entryAlreadyExists => 68
  | other => 80

/-- The name of a code as messages show it. -/
def name : ResultCode → String
  | success => "Success"
  | operationsError => "OperationsError"
  | protocolError => "ProtocolError"
  | noSuchAttribute => "NoSuchAttribute"
  | undefinedAttributeType => "UndefinedAttributeType"
  | invalidAttributeSyntax => "InvalidAttributeSyntax"
  | noSuchObject => "NoSuchObject"
  | invalidDnSyntax => "InvalidDnSyntax"
  | inappropriateAuthentication => "InappropriateAuthentication"
  | insufficientAccessRights => "InsufficientAccessRights"
  | unavailable => "Unavailable"
  | unwillingToPerform => "UnwillingToPerform"
  | objectClassViolation => "ObjectClassViolation"
  | notAllowedOnNonLeaf => "NotAllowedOnNonLeaf"
  | entryAlreadyExists => "EntryAlreadyExists"
  | other => "Other"

/-- The name of a code as data carries it, with a small first letter. -/
def tag : ResultCode → String
  | success => "success"
  | operationsError => "operationsError"
  | protocolError => "protocolError"
  | noSuchAttribute => "noSuchAttribute"
  | undefinedAttributeType => "undefinedAttributeType"
  | invalidAttributeSyntax => "invalidAttributeSyntax"
  | noSuchObject => "noSuchObject"
  | invalidDnSyntax => "invalidDnSyntax"
  | inappropriateAuthentication => "inappropriateAuthentication"
  | insufficientAccessRights => "insufficientAccessRights"
  | unavailable => "unavailable"
  | unwillingToPerform => "unwillingToPerform"
  | objectClassViolation => "objectClassViolation"
  | notAllowedOnNonLeaf => "notAllowedOnNonLeaf"
  | entryAlreadyExists => "entryAlreadyExists"
  | other => "other"

/-- The code with a number. -/
def ofNat? (n : Nat) : Option ResultCode := all.find? fun c => c.toNat == n

/-- The code with a name as data carries it. -/
def ofTag? (s : String) : Option ResultCode := all.find? fun c => c.tag == s

/-- The name of a code and, in brackets, its number. -/
def display (c : ResultCode) : String := c.name ++ " (" ++ toString c.toNat ++ ")"

end ResultCode

end DirectoryAccess
