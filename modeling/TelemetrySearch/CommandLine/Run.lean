import TelemetrySearch.CommandLine.Arguments
import TelemetrySearch.Settings.Document
import TelemetrySearch.Text

/-!
# A run of the program

`run` says what the program prints and with which code it ends, given its arguments, its environment and the files it
can read.
-/

namespace TelemetrySearch

/-- The statement with placeholders and the list of its arguments, in JSON. -/
def Statement.json (s : Statement) : String :=
  let args :=
    if s.args.isEmpty then "[]"
    else "[\n" ++ String.intercalate ",\n" (s.args.map fun a => "    " ++ jsonString a) ++ "\n  ]"
  "\x7b\n  \"args\": " ++ args ++ ",\n  \"sql\": " ++ jsonString s.text ++ "\n\x7d"

/-- What there is to say about a valid table. -/
def Table.summary (t : Table) : String :=
  "Configuration is valid!\n" ++
    s!"  Body column: {t.bodyColumn}\n" ++
    s!"  Direct keys: {t.columns.size}\n" ++
    s!"  Attribute maps: {t.attributes.length}\n" ++
    s!"  Duration keys: {t.durations.size}\n"

namespace CommandLine

/-- What the program finds around it. -/
structure Surroundings where
  environment : Environment
  /-- The text of the file at a path. -/
  fileAt : String → Except FileFault String
  /-- The text of the settings that are used where no path is given. -/
  standardSettings : Option String

namespace Arguments

/-- The text of the settings, if there is one; a path that is given has to be readable. -/
def settingsText (a : Arguments) (around : Surroundings) : Except Error (Option String) :=
  match a.config with
  | some path =>
    match around.fileAt path with
    | .ok text => .ok (some text)
    | .error fault => .error (.file fault)
  | none => .ok around.standardSettings

/-- The settings with what the arguments change in them. -/
def adjust (a : Arguments) (s : Settings) : Settings :=
  { s with
    table := (a.table.map Preset.table).getD s.table
    unknownKeys := a.unknownKeys.getD s.unknownKeys
    debug := a.debug }

/-- The settings of a run. -/
def settings (a : Arguments) (around : Surroundings) : Except Error Settings := do
  let s ←
    match ← a.settingsText around with
    | some text => Settings.parse text
    | none => .ok .standard
  (a.adjust s).validate

/-- The statement that the arguments ask for, without its condition. -/
def statement (a : Arguments) : Statement :=
  { columns := ["*"], source := a.source, conditions := [], limit := a.limit }

/-- What is written for the query. -/
def render (a : Arguments) (s : Settings) : Except Error String := do
  let statement ← a.statement.assign s.search (a.query.getD "")
  match a.format with
  | .sql =>
    match statement.render with
    | .ok text => .ok text
    | .error fault => .error (.interpolation fault)
  | .json => .ok statement.json

end Arguments

/-- What a run of the program comes to. -/
structure Outcome where
  /-- The code with which it ends. -/
  exitCode : Nat
  output : String
  /-- The error that it reports. -/
  message : Option String
  deriving DecidableEq, Repr

/-- What the program prints as its version. -/
def versionText : String := "spanq 0.1.0\n"

/-- What the program prints as its help. -/
def helpText : String :=
  "Compile telemetry search queries into ClickHouse SQL\n\n" ++
    "Usage: spanq [OPTIONS] [QUERY]\n\n" ++
    "Options:\n" ++
    "  -c, --config <CONFIG>                  Configuration file path\n" ++
    "      --table <TABLE>                    Built-in table layout: traces, logs\n" ++
    "      --from <FROM>                      Table name for the FROM clause\n" ++
    "      --limit <LIMIT>                    Append a LIMIT clause\n" ++
    "      --unknown-fields <UNKNOWN_FIELDS>  Keys that match no column: reject, match-none\n" ++
    "      --format <FORMAT>                  Output format: sql, json\n" ++
    "      --check-config                     Validate configuration and exit\n" ++
    "  -d, --debug                            Enable debug logging\n" ++
    "  -h, --help                             Print help\n" ++
    "  -V, --version                          Print version\n"

namespace Outcome

/-- The end of a run without a compilation. -/
def ofStop : Stop → Outcome
  | .version => ⟨0, versionText, none⟩
  | .help => ⟨0, helpText, none⟩
  | _ => ⟨2, "", none⟩

/-- The end of a run that has failed. -/
def ofError (e : Error) : Outcome := ⟨if e.kind.isClientError then 2 else 1, "", some e.message⟩

end Outcome

/-- What is printed for arguments that have been read. -/
def Arguments.output (a : Arguments) (around : Surroundings) : Except Error String := do
  let s ← a.settings around
  if a.checkConfig then return s.table.summary
  return (← a.render s) ++ "\n"

/-- A run of the program. -/
def run (arguments : List String) (around : Surroundings) : Outcome :=
  match Arguments.read arguments around.environment with
  | .error stop => .ofStop stop
  | .ok a =>
    match a.output around with
    | .ok text => ⟨0, text, none⟩
    | .error e => .ofError e

end CommandLine

end TelemetrySearch
