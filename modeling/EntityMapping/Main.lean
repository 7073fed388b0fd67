import EntityMapping.CommandLine

/-!
The program.
-/

namespace EntityMapping

/-- The variables of the environment that hold settings. -/
def settingNames : List String :=
  ["SPARQLMAP_BACKEND", "SPARQLMAP_QUERY_URL", "SPARQLMAP_UPDATE_URL", "SPARQLMAP_TIMEOUT",
    "SPARQLMAP_CACHE_SIZE", "SPARQLMAP_LOG_LEVEL"]

/-- The settings of the environment that are there. -/
def readEnvironment : IO Environment :=
  settingNames.filterMapM fun name => do
    return (← IO.getEnv name).map (name, ·)

/-- The text of a file, if it can be read. -/
def readText (path : String) : IO (Option String) := do
  try
    return some (← IO.FS.readFile path)
  catch _ =>
    return none

/-- Writes what a run says, and gives its exit code. -/
def report : Ending → IO UInt32
  | .exit code output errorLine => do
    IO.print output
    if let some line := errorLine then IO.eprintln line
    return code.toUInt32
  | .wrongSettings cause => do
    IO.eprintln cause.message
    return 1
  | .unreadableFile => do
    IO.eprintln "No such file"
    return 1
  | .invalidDocument issues => do
    for issue in issues do
      IO.eprintln (".".intercalate issue.path)
    return 1
  | .failure cause => do
    IO.eprintln cause.message
    return 1

end EntityMapping

open EntityMapping in
/-- Runs the program. -/
def main (arguments : List String) : IO UInt32 := do
  match Command.read (← readEnvironment) arguments with
  | .error ending => report ending
  | .ok command =>
    let file ← match command.path? with
      | some path => readText path
      | none => pure none
    report (command.run file)
