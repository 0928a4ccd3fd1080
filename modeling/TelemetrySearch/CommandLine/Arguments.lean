import TelemetrySearch.Search

/-!
# Arguments of the command line

One argument is the query; the others are options with a value and flags without one. A value stands behind its option
or is attached to it: `--limit 5`, `--limit=5`, `-cpath`, `-c=path`. Short flags may be run together, and behind `--`
there are no options any more.

A value that stands behind its option is looked at only when the reader gets to the next option, flag or query, or to
the end. `Arguments.read` stops at the first thing that is wrong or that asks for something else than a compilation.
-/

namespace TelemetrySearch.CommandLine

/-- The options that take a value. -/
inductive ValueOption where
  | config | table | source | limit | unknownKeys | format
  deriving DecidableEq, Repr

/-- The options without a value. -/
inductive Flag where
  | checkConfig | debug | version | help
  deriving DecidableEq, Repr

/-- An option of either sort. -/
inductive Switch where
  | option (option : ValueOption)
  | flag (flag : Flag)
  deriving DecidableEq, Repr

/-- The option of a long name. -/
def Switch.ofName? : String → Option Switch
  | "config" => some (.option .config)
  | "table" => some (.option .table)
  | "from" => some (.option .source)
  | "limit" => some (.option .limit)
  | "unknown-fields" => some (.option .unknownKeys)
  | "format" => some (.option .format)
  | "check-config" => some (.flag .checkConfig)
  | "debug" => some (.flag .debug)
  | "version" => some (.flag .version)
  | "help" => some (.flag .help)
  | _ => none

/-- The option of a letter. -/
def Switch.ofLetter? : Char → Option Switch
  | 'c' => some (.option .config)
  | 'd' => some (.flag .debug)
  | 'V' => some (.flag .version)
  | 'h' => some (.flag .help)
  | _ => none

/-- The layouts that can be asked for by name. -/
inductive Preset where
  | traces | logs
  deriving DecidableEq, Repr

/-- The layout of a preset. -/
def Preset.table : Preset → Table
  | traces => .traces
  | logs => .logs

/-- The preset of a name. -/
def Preset.ofName? : String → Option Preset
  | "traces" => some .traces
  | "logs" => some .logs
  | _ => none

/-- How a statement is written. -/
inductive Format where
  /-- With its arguments put in. -/
  | sql
  /-- With placeholders, and a list of the arguments. -/
  | json
  deriving DecidableEq, Repr

/-- The format of a name. -/
def Format.ofName? : String → Option Format
  | "sql" => some .sql
  | "json" => some .json
  | _ => none

/-- The way to treat unknown keys of a name on the command line. -/
def unknownKeysOf? : String → Option UnknownKeys
  | "reject" => some .reject
  | "match-none" => some .matchNone
  | _ => none

/-- A number that fits in 64 bits: decimal digits, perhaps behind a `+`. -/
def sizeOf? (text : String) : Option Nat :=
  let digits :=
    match text.toList with
    | '+' :: rest => rest
    | cs => cs
  if digits.isEmpty || !digits.all Char.isDigit then none
  else
    let n := decimalValue digits
    if n < Nat.pow 2 64 then some n else none

/-- Why the arguments do not lead to a compilation. -/
inductive Stop where
  | version
  | help
  /-- There is an option of no known name, a second query, or a value that looks like an option. -/
  | unknownArgument
  /-- A value is missing or not one of those allowed. -/
  | invalidValue
  /-- A number is malformed or too large. -/
  | invalidNumber
  /-- An option is given twice. -/
  | repeated
  /-- A flag has a value. -/
  | needlessValue
  | missingQuery
  deriving DecidableEq, Repr

/-- What has been given so far. -/
structure Given where
  query : Option String := none
  config : Option String := none
  table : Option Preset := none
  source : Option String := none
  limit : Option Nat := none
  unknownKeys : Option UnknownKeys := none
  format : Option Format := none
  checkConfig : Bool := false
  debug : Bool := false
  deriving DecidableEq, Repr

namespace Given

/-- Whether the option has been given. -/
def has (g : Given) : ValueOption → Bool
  | .config => g.config.isSome
  | .table => g.table.isSome
  | .source => g.source.isSome
  | .limit => g.limit.isSome
  | .unknownKeys => g.unknownKeys.isSome
  | .format => g.format.isSome

/-- Sets a path, which is not empty. -/
def setConfig (g : Given) (path : String) : Except Stop Given :=
  if path.isEmpty then .error .invalidValue else .ok { g with config := some path }

/-- Sets an option to what its value says. -/
def set (g : Given) (option : ValueOption) (value : String) : Except Stop Given :=
  match option with
  | .config => g.setConfig value
  | .table =>
    match Preset.ofName? value with
    | some preset => .ok { g with table := some preset }
    | none => .error .invalidValue
  | .source => .ok { g with source := some value }
  | .limit =>
    match sizeOf? value with
    | some n => .ok { g with limit := some n }
    | none => .error .invalidNumber
  | .unknownKeys =>
    match unknownKeysOf? value with
    | some policy => .ok { g with unknownKeys := some policy }
    | none => .error .invalidValue
  | .format =>
    match Format.ofName? value with
    | some format => .ok { g with format := some format }
    | none => .error .invalidValue

/-- Takes an option with its value, if there is one. -/
def take (g : Given) (option : ValueOption) : Option String → Except Stop Given
  | none => .error .invalidValue
  | some value => if g.has option then .error .repeated else g.set option value

/-- Takes a flag. -/
def raise (g : Given) : Flag → Except Stop Given
  | .checkConfig => if g.checkConfig then .error .repeated else .ok { g with checkConfig := true }
  | .debug => if g.debug then .error .repeated else .ok { g with debug := true }
  | .version => .error .version
  | .help => .error .help

end Given

/-- A reader in the middle of the arguments. -/
structure Reader where
  given : Given
  /-- The last option, with the value behind it if that has come already. -/
  pending : Option (ValueOption × Option String)

namespace Reader

/-- Looks at the value of the last option. -/
def settle (r : Reader) : Except Stop Given :=
  match r.pending with
  | none => .ok r.given
  | some (option, value) => r.given.take option value

/-- Goes on with what has been given. -/
def resume (g : Given) : Reader := ⟨g, none⟩

/-- Takes the query, of which there is one. -/
def takeQuery (r : Reader) (query : String) : Except Stop Reader :=
  if r.given.query.isSome then .error .unknownArgument
  else r.settle.map fun g => resume { g with query := some query }

/-- Takes an option, with the value attached to it. -/
def takeOption (r : Reader) (option : ValueOption) (attached : Option String) : Except Stop Reader := do
  let g ← r.settle
  match attached with
  | none => return ⟨g, some (option, none)⟩
  | some value => return resume (← g.take option (some value))

/-- Takes an option with a long name, perhaps with a value behind a `=`. -/
def takeLong (r : Reader) (cs : List Char) : Except Stop Reader :=
  let attached :=
    match cs.dropWhile (· != '=') with
    | [] => none
    | _ :: value => some (String.ofList value)
  match Switch.ofName? (String.ofList (cs.takeWhile (· != '='))) with
  | none => .error .unknownArgument
  | some (.option option) => r.takeOption option attached
  | some (.flag flag) =>
    if attached.isSome then .error .needlessValue
    else do return resume (← (← r.settle).raise flag)

/-- Takes options that are named by letters; what stands behind one with a value is its value. -/
def takeLetters (r : Reader) : List Char → Except Stop Reader
  | [] => .ok r
  | c :: rest =>
    match Switch.ofLetter? c with
    | none => .error .unknownArgument
    | some (.option option) =>
      match rest with
      | [] => r.takeOption option none
      | '=' :: value => r.takeOption option (some (String.ofList value))
      | value => r.takeOption option (some (String.ofList value))
    | some (.flag flag) => do takeLetters (resume (← (← r.settle).raise flag)) rest

/-- Takes an argument that is not written as an option: the value of the last option, or the query. -/
def takePlain (r : Reader) (argument : String) : Except Stop Reader :=
  match r.pending with
  | some (option, none) => .ok ⟨r.given, some (option, some argument)⟩
  | _ => r.takeQuery argument

/-- Takes an argument in front of `--`. -/
def take (r : Reader) (argument : String) : Except Stop Reader :=
  match argument.toList with
  | '-' :: '-' :: name => r.takeLong name
  | '-' :: c :: letters => r.takeLetters (c :: letters)
  | _ => r.takePlain argument

/-- Reads all arguments. -/
def run (r : Reader) : List String → Except Stop Given
  | [] => r.settle
  | "--" :: rest => do (← rest.foldlM takeQuery r).settle
  | argument :: rest => do run (← r.take argument) rest

end Reader

/-- The variables of the environment that stand in for options. -/
structure Environment where
  config : Option String
  debug : Option String

/-- What a compilation is asked for. -/
structure Arguments where
  query : Option String
  /-- The path of the settings. -/
  config : Option String
  table : Option Preset
  /-- What stands behind `FROM`. -/
  source : String
  limit : Option Nat
  unknownKeys : Option UnknownKeys
  format : Format
  /-- Whether only the settings are checked. -/
  checkConfig : Bool
  debug : Bool
  deriving DecidableEq, Repr

/-- Takes the path of the settings from the environment where no option gives it. -/
def Environment.fillConfig (v : Environment) (g : Given) : Except Stop Given :=
  match g.config, v.config with
  | none, some path => g.setConfig path
  | _, _ => .ok g

/-- Takes the debug flag from the environment where it is not given. -/
def Environment.fillDebug (v : Environment) (g : Given) : Except Stop Given :=
  match g.debug, v.debug with
  | false, some "true" => .ok { g with debug := true }
  | false, some "false" => .ok g
  | false, some _ => .error .invalidValue
  | _, _ => .ok g

/-- The arguments that have been given, with standard values for the others. -/
def Given.finish (g : Given) : Except Stop Arguments :=
  if g.query.isNone && !g.checkConfig then .error .missingQuery
  else
    .ok
      { query := g.query, config := g.config, table := g.table, source := g.source.getD "t", limit := g.limit,
        unknownKeys := g.unknownKeys, format := g.format.getD .sql, checkConfig := g.checkConfig, debug := g.debug }

/-- Reads the arguments of the command line. -/
def Arguments.read (arguments : List String) (environment : Environment) : Except Stop Arguments := do
  let g ← Reader.run ⟨{}, none⟩ arguments
  let g ← environment.fillConfig g
  let g ← environment.fillDebug g
  g.finish

end TelemetrySearch.CommandLine
