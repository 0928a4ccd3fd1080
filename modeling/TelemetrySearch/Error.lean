import TelemetrySearch.Duration
import TelemetrySearch.Query.Fault
import TelemetrySearch.Sql.Placeholder
import TelemetrySearch.Table

/-!
# Errors

An error is a cause; `Error.message` is its text. The text is made of the kind of the error and a detail.
-/

namespace TelemetrySearch

open Sql

/-- Why a value cannot stand behind its key and relation. -/
inductive ValueFault where
  /-- A wildcard is compared by order. -/
  | orderedWildcard (relation : Relation)
  /-- An attribute is compared by order. -/
  | orderedAttribute (relation : Relation)
  | duration (text : String) (fault : Duration.Fault)
  deriving DecidableEq, Repr

/-- The fault in words. -/
def ValueFault.message : ValueFault → String
  | orderedWildcard relation => s!"wildcards cannot be used with '{relation.symbol}'"
  | orderedAttribute relation => s!"attribute values cannot be compared with '{relation.symbol}'"
  | duration text fault => fault.message text

/-- Why a file cannot be read as text. -/
inductive FileFault where
  | missing
  | directory
  | notText
  deriving DecidableEq, Repr

/-- The fault in words. -/
def FileFault.message : FileFault → String
  | missing => "No such file or directory (os error 2)"
  | directory => "Is a directory (os error 21)"
  | notText => "stream did not contain valid UTF-8"

/-- The kinds of errors. -/
inductive ErrorKind where
  | malformedQuery
  | unknownField
  | invalidValue (key : String)
  | configuration
  | interpolation
  | file
  | document
  deriving DecidableEq, Repr

namespace ErrorKind

/-- The text of an error of this kind. -/
def describe (detail : String) : ErrorKind → String
  | malformedQuery => "Syntax error: " ++ detail
  | unknownField => "Unknown field: " ++ detail
  | invalidValue key => "Invalid value for '" ++ key ++ "': " ++ detail
  | configuration => "Configuration error: " ++ detail
  | interpolation => "Interpolation error: " ++ detail
  | file => "IO error: " ++ detail
  | document => "YAML error: " ++ detail

/-- The name of the kind in logs. -/
def category : ErrorKind → String
  | malformedQuery => "syntax"
  | unknownField => "unknown_field"
  | invalidValue _ => "invalid_value"
  | configuration | document => "config"
  | interpolation => "interpolation"
  | file => "io"

/-- Whether the query itself is to blame. -/
def isClientError : ErrorKind → Bool
  | malformedQuery | unknownField | invalidValue _ => true
  | configuration | interpolation | file | document => false

end ErrorKind

/-- What can go wrong from a query and its settings to a statement. -/
inductive Error where
  | malformedQuery (fault : Fault)
  | unknownField (key : String)
  | invalidValue (key : String) (fault : ValueFault)
  | configuration (fault : LayoutFault)
  | interpolation (fault : PlaceholderFault)
  | file (fault : FileFault)
  /-- The text of the settings is no document of the right shape. -/
  | document
  deriving DecidableEq, Repr

namespace Error

/-- The kind of an error. -/
def kind : Error → ErrorKind
  | malformedQuery _ => .malformedQuery
  | unknownField _ => .unknownField
  | invalidValue key _ => .invalidValue key
  | configuration _ => .configuration
  | interpolation _ => .interpolation
  | file _ => .file
  | document => .document

/-- The text of an error. -/
def message : Error → String
  | malformedQuery fault => ErrorKind.malformedQuery.describe fault.message
  | unknownField key => ErrorKind.unknownField.describe key
  | invalidValue key fault => (ErrorKind.invalidValue key).describe fault.message
  | configuration fault => ErrorKind.configuration.describe fault.message
  | interpolation fault => ErrorKind.interpolation.describe fault.message
  | file fault => ErrorKind.file.describe fault.message
  | document => "YAML error"

end Error

end TelemetrySearch
