import TelemetrySearch.Search

/-!
# Settings

What a search is set up with: the table, what to do with unknown keys, and how to log.
-/

namespace TelemetrySearch

/-- How much is logged. -/
inductive LogLevel where
  | trace | debug | info | warn | error
  deriving DecidableEq, Repr

/-- The name of a level. -/
def LogLevel.name : LogLevel → String
  | trace => "trace"
  | debug => "debug"
  | info => "info"
  | warn => "warn"
  | error => "error"

/-- The level of a name. -/
def LogLevel.ofName? : String → Option LogLevel
  | "trace" => some .trace
  | "debug" => some .debug
  | "info" => some .info
  | "warn" => some .warn
  | "error" => some .error
  | _ => none

/-- The name of a way to treat unknown keys. -/
def UnknownKeys.name : UnknownKeys → String
  | reject => "reject"
  | matchNone => "match_none"

/-- The way to treat unknown keys of a name. -/
def UnknownKeys.ofName? : String → Option UnknownKeys
  | "reject" => some .reject
  | "match_none" => some .matchNone
  | _ => none

/-- How to log. -/
structure Logging where
  level : LogLevel
  structured : Bool
  deriving DecidableEq, Repr

/-- What a search is set up with. -/
structure Settings where
  table : Table
  unknownKeys : UnknownKeys
  logging : Logging
  debug : Bool

namespace Settings

/-- The settings where nothing is said. -/
def standard : Settings := ⟨.traces, .reject, ⟨.warn, false⟩, false⟩

/-- The settings, unless the layout of their table has a fault. -/
def validate (s : Settings) : Except Error Settings :=
  match s.table.validate with
  | .ok () => .ok s
  | .error fault => .error (.configuration fault)

/-- The search that the settings describe. -/
def search (s : Settings) : Search := ⟨s.table, s.unknownKeys⟩

end Settings

end TelemetrySearch
