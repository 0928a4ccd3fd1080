import TelemetrySearch.CommandLine.Run

/-!
# The program

Hands the arguments, the environment and the files to `CommandLine.run`, and prints what comes out.
-/

open TelemetrySearch TelemetrySearch.CommandLine

/-- Reads a file as text. -/
def readText (path : String) : IO (Except FileFault String) := do
  try
    let bytes ← IO.FS.readBinFile path
    return (String.fromUTF8? bytes).elim (.error .notText) .ok
  catch
    | .noFileOrDirectory .. => return .error .missing
    | _ => return .error .directory

/-- The path of the settings that are used where no path is given. -/
def standardPath : IO (Option String) := do
  match ← IO.getEnv "XDG_CONFIG_HOME" with
  | some directory =>
    if directory.startsWith "/" then return some (directory ++ "/spanq/config.yaml")
    return (← IO.getEnv "HOME").map (· ++ "/.config/spanq/config.yaml")
  | none => return (← IO.getEnv "HOME").map (· ++ "/.config/spanq/config.yaml")

/-- Runs the program. -/
def main (arguments : List String) : IO UInt32 := do
  let environment : Environment := ⟨← IO.getEnv "SPANQ_CONFIG", ← IO.getEnv "SPANQ_DEBUG"⟩
  let given ←
    match Arguments.read arguments environment with
    | .ok { config := some path, .. } => readText path
    | _ => pure (.error .missing)
  let standard ←
    match ← standardPath with
    | some path => (·.toOption) <$> readText path
    | none => pure none
  let outcome := run arguments ⟨environment, fun _ => given, standard⟩
  IO.print outcome.output
  if let some message := outcome.message then
    IO.eprintln ("spanq: " ++ message)
  return outcome.exitCode.toUInt32
