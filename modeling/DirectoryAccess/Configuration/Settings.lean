import DirectoryAccess.Configuration.Basic
import DirectoryAccess.Configuration.Document

/-! # Settings from documents — which keys are settings

    The keys of a document are the names of settings, and no others are taken.
    Names are strings and the switch is a truth value.  The log level is a word,
    either as a string or as the only key of a table under which nothing is. -/

namespace DirectoryAccess

namespace Settings

open Document

/-- The string of a value. -/
def text? : Value → Option String
  | .text s => some s
  | _ => .none

/-- True if nothing is under a key. -/
def isNothing : Value → Bool
  | .emptyList => true
  | .table _ entries => entries.isEmpty
  | _ => false

/-- The log level that a value stands for. -/
def logLevel? : Value → Option LogLevel
  | .text s => LogLevel.ofWord? s
  | .table _ [(word, v)] => if isNothing v then LogLevel.ofWord? word else .none
  | _ => .none

/-- The settings with one entry of a document taken in. -/
def take? (s : Settings) : String × Value → Option Settings
  | ("access_control_enabled", .flag b) => some { s with accessControlEnabled := b }
  | ("admin_dn", v) => (text? v).map fun t => { s with adminDn := some t }
  | ("admin_group_dn", v) => (text? v).map fun t => { s with adminGroupDn := some t }
  | ("users_base_dn", v) => (text? v).map fun t => { s with usersBaseDn := some t }
  | ("groups_base_dn", v) => (text? v).map fun t => { s with groupsBaseDn := some t }
  | ("log_level", v) => (logLevel? v).map fun l => { s with logLevel := some l }
  | _ => .none

/-- The settings of a document. -/
def parse? (text : String) : Option Settings := do
  (← Document.parse? text).foldlM take? none

end Settings

/-- Why no configuration came of a document. -/
inductive ConfigurationError where
  /-- The document gives no settings. -/
  | unreadable
  /-- A setting is not what it should be. -/
  | invalid (error : OperationError)

namespace Configuration

/-- The configuration of a document. -/
def parse (text : String) : Except ConfigurationError Configuration :=
  match Settings.parse? text with
  | none => .error .unreadable
  | some settings =>
      match ofSettings settings with
      | .ok config => .ok config
      | .error e => .error (.invalid e)

/-- The configuration in the bytes of a file, which must be text. -/
def ofBytes (bytes : List UInt8) : Except ConfigurationError Configuration :=
  match String.fromUTF8? (ByteArray.mk bytes.toArray) with
  | some text => parse text
  | none => .error .unreadable

end Configuration

end DirectoryAccess
