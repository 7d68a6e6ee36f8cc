import DirectoryAccess.Error.ResultCode
import DirectoryAccess.Text.Quoted

/-! # Errors — why an operation was refused

    An error is its cause, with the text it is about where there is one.  The
    wording of a message, the outward result code and the question whether an
    error is an access control outcome are functions of the cause. -/

namespace DirectoryAccess

/-- How an entry violates the schema. -/
inductive SchemaError where
  | noClassFound
  | missingMustAttribute (names : List String)
  | invalidAttribute (name : String)
  | invalidAttributeSyntax (name : String)
  | noSuchAttribute (name : String)
  deriving DecidableEq, Inhabited

/-- The cause of a failed operation. -/
inductive OperationError where
  | accessDenied
  | criticalEntryProtected
  | notAuthenticated
  | emptyRequest
  | noMatchingEntries
  | noMatchingAttributes
  | entryAlreadyExists
  | notAllowedOnNonLeaf
  | schemaViolation (violation : SchemaError)
  | invalidDn (text : String)
  | invalidAttribute (text : String)
  | aciParseError (text : String)
  | filterParseError
  | backend (text : String)
  | invalidCacheState
  | invalidState
  | invalidConfig (text : String)
  deriving DecidableEq, Inhabited

namespace SchemaError

/-- The name of a violation. -/
def name : SchemaError → String
  | noClassFound => "NoClassFound"
  | missingMustAttribute _ => "MissingMustAttribute"
  | invalidAttribute _ => "InvalidAttribute"
  | invalidAttributeSyntax _ => "InvalidAttributeSyntax"
  | noSuchAttribute _ => "NoSuchAttribute"

/-- The violation with everything it is about, texts quoted. -/
def describe : SchemaError → String
  | noClassFound => "NoClassFound"
  | missingMustAttribute names => "MissingMustAttribute(" ++ Text.quoteList names ++ ")"
  | invalidAttribute a => "InvalidAttribute(" ++ Text.quote a ++ ")"
  | invalidAttributeSyntax a => "InvalidAttributeSyntax(" ++ Text.quote a ++ ")"
  | noSuchAttribute a => "NoSuchAttribute(" ++ Text.quote a ++ ")"

end SchemaError

namespace OperationError

/-- The name of a cause. -/
def name : OperationError → String
  | accessDenied => "AccessDenied"
  | criticalEntryProtected => "CriticalEntryProtected"
  | notAuthenticated => "NotAuthenticated"
  | emptyRequest => "EmptyRequest"
  | noMatchingEntries => "NoMatchingEntries"
  | noMatchingAttributes => "NoMatchingAttributes"
  | entryAlreadyExists => "EntryAlreadyExists"
  | notAllowedOnNonLeaf => "NotAllowedOnNonLeaf"
  | schemaViolation _ => "SchemaViolation"
  | invalidDn _ => "InvalidDn"
  | invalidAttribute _ => "InvalidAttribute"
  | aciParseError _ => "AciParseError"
  | filterParseError => "FilterParseError"
  | backend _ => "Backend"
  | invalidCacheState => "InvalidCacheState"
  | invalidState => "InvalidState"
  | invalidConfig _ => "InvalidConfig"

/-- The cause with everything it is about, texts quoted. -/
def describe : OperationError → String
  | schemaViolation v => "SchemaViolation(" ++ v.describe ++ ")"
  | invalidDn t => "InvalidDn(" ++ Text.quote t ++ ")"
  | invalidAttribute t => "InvalidAttribute(" ++ Text.quote t ++ ")"
  | aciParseError t => "AciParseError(" ++ Text.quote t ++ ")"
  | backend t => "Backend(" ++ Text.quote t ++ ")"
  | invalidConfig t => "InvalidConfig(" ++ Text.quote t ++ ")"
  | e => e.name

/-- The explanation of a cause, if its name does not say it all. -/
def message : OperationError → Option String
  | criticalEntryProtected =>
      some "The root entry and the administrator entry may not be altered."
  | notAllowedOnNonLeaf => some "The entry has subordinates and can not be removed."
  | invalidCacheState =>
      some "An access control cache was asked to track an unknown entry."
  | invalidConfig t => some ("Invalid configuration: " ++ t)
  | _ => none

/-- What follows the last pair of colons, pairs being taken from the left.  `piece`
    holds what has been read since the last pair, nearest first. -/
def afterLastPair (piece : List Char) : List Char → List Char
  | ':' :: ':' :: rest => afterLastPair [] rest
  | c :: rest => afterLastPair (c :: piece) rest
  | [] => piece.reverse

/-- The text of an error for people: its description, of which only what follows
    the last pair of colons is shown, and its message. -/
def display (e : OperationError) : String :=
  let shown := String.ofList (afterLastPair [] e.describe.toList)
  match e.message with
  | some m => shown ++ " - " ++ m
  | none => shown

/-- True for the errors that a client must see as an access control outcome. -/
def isAccessDenial : OperationError → Bool
  | accessDenied | criticalEntryProtected => true
  | _ => false

/-- The outward result code of an error. -/
def resultCode : OperationError → ResultCode
  | accessDenied | criticalEntryProtected => .insufficientAccessRights
  | notAuthenticated => .inappropriateAuthentication
  | emptyRequest => .protocolError
  | noMatchingEntries => .noSuchObject
  | noMatchingAttributes => .noSuchAttribute
  | entryAlreadyExists => .entryAlreadyExists
  | notAllowedOnNonLeaf => .notAllowedOnNonLeaf
  | schemaViolation (.noSuchAttribute _) => .noSuchAttribute
  | schemaViolation (.invalidAttributeSyntax _) => .invalidAttributeSyntax
  | schemaViolation _ => .objectClassViolation
  | invalidDn _ => .invalidDnSyntax
  | invalidAttribute _ => .undefinedAttributeType
  | aciParseError _ => .invalidAttributeSyntax
  | filterParseError => .protocolError
  | backend _ => .unavailable
  | invalidCacheState | invalidState | invalidConfig _ => .operationsError

end OperationError

end DirectoryAccess
