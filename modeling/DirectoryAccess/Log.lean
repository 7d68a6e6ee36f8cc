/-! # Log vocabulary — levels of verbosity and tags of events

    The server's log is not part of what it answers, but its verbosity is a
    setting, and events carry a tag that names their source and severity. -/

namespace DirectoryAccess

/-- How much is logged. -/
inductive LogLevel where
  | info
  | debug
  | trace
  deriving DecidableEq, Inhabited

namespace LogLevel

/-- The word for a level. -/
def display : LogLevel → String
  | info => "info"
  | debug => "debug"
  | trace => "trace"

/-- The level of a word. -/
def ofWord? (s : String) : Option LogLevel :=
  [info, debug, trace].find? fun l => l.display == s

/-- Read a level. -/
def parse (s : String) : Except String LogLevel :=
  match ofWord? s with
  | some l => .ok l
  | none => .error "Must be one of info, debug, trace"

end LogLevel

/-- What an event is about and how severe it is. -/
inductive EventTag where
  | adminDebug
  | adminError
  | adminWarn
  | adminInfo
  | requestError
  | requestWarn
  | requestInfo
  | requestTrace
  | securityCritical
  | securityDebug
  | securityInfo
  | securityAccess
  | securityError
  | filterError
  | filterWarn
  | filterInfo
  | filterTrace
  | perfTrace
  deriving DecidableEq, Inhabited

namespace EventTag

/-- All tags; the place of a tag is its number. -/
def all : List EventTag :=
  [adminDebug, adminError, adminWarn, adminInfo, requestError, requestWarn, requestInfo,
   requestTrace, securityCritical, securityDebug, securityInfo, securityAccess,
   securityError, filterError, filterWarn, filterInfo, filterTrace, perfTrace]

/-- The number of a tag. -/
def toNat (t : EventTag) : Nat := all.idxOf t

/-- The tag of a number. -/
def ofNat? (n : Nat) : Option EventTag := all[n]?

/-- The name of a tag: the source, a dot and the severity. -/
def pretty : EventTag → String
  | adminDebug => "admin.debug"
  | adminError => "admin.error"
  | adminWarn => "admin.warn"
  | adminInfo => "admin.info"
  | requestError => "request.error"
  | requestWarn => "request.warn"
  | requestInfo => "request.info"
  | requestTrace => "request.trace"
  | securityCritical => "security.critical"
  | securityDebug => "security.debug"
  | securityInfo => "security.info"
  | securityAccess => "security.access"
  | securityError => "security.error"
  | filterError => "filter.error"
  | filterWarn => "filter.warn"
  | filterInfo => "filter.info"
  | filterTrace => "filter.trace"
  | perfTrace => "perf.trace"

end EventTag

end DirectoryAccess
