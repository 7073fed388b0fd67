import EntityMapping.CommandLine.Arguments
import EntityMapping.Configuration.Document
import EntityMapping.Configuration.Settings
import EntityMapping.Json.Printer

/-!
The command line.

One command analyzes a query, another describes the entity types of a mapping document.  Both write
a JSON text.
-/

namespace EntityMapping

/-- What a run of the program is asked to do. -/
inductive Command where
  | analyze (query : String) (anchor : Option String) (prefixes : List (String × String))
      (hints : SchemaHints)
  | describe (path : String)
  deriving DecidableEq, Repr

/-- How a run of the program ends. -/
inductive Ending where
  | exit (code : Nat) (output : String) (errorLine : Option String)
  | wrongSettings (cause : SettingsError)
  | unreadableFile
  | invalidDocument (issues : List Issue)
  /-- An error that is reported as it is, without a line of its own. -/
  | failure (cause : MappingError)
  deriving DecidableEq, Repr

namespace Command

/-- The name of the program in its messages. -/
def programName : String := "sparqlmap"

/-- The exit code of wrong usage and of errors in an analysis. -/
def errorCode : Nat := 2

/-- The end of a run that was asked for in a wrong way. -/
def wrongUsage : Ending :=
  .exit errorCode "" none

/-- The end of a run with an option whose value is no pair. -/
def wrongPair (option item : String) : Ending :=
  .exit errorCode ""
    (some (programName ++ ": error: " ++ option ++ " expects KEY=VALUE, got " ++
      Text.quoted item))

/-- The end of a run that met an error.  Errors of values and of types end the program as they
are. -/
def failed (e : MappingError) : Ending :=
  match e.kind with
  | none | some .value | some .type => .failure e
  | some _ => .exit errorCode "" (some ("error: " ++ e.message))

/-- The pairs that the values of an option write; the last of several for one key counts. -/
def pairs (option : String) : List String → Except Ending (List (String × String))
  | items => items.foldlM (fun found item =>
      match Arguments.cutValue item with
      | (key, some value) =>
        if key.isEmpty || value.isEmpty then .error (wrongPair option item)
        else
          .ok (if found.any (·.1 == key) then
            found.map fun (k, v) => if k == key then (k, value) else (k, v)
          else found ++ [(key, value)])
      | (_, none) => .error (wrongPair option item)) []

/-- The options of an analysis. -/
def analyzeOptions : List String :=
  [Arguments.help, "--anchor", "--prefix", "--one-to-many", "--entity-range", "--literal-range"]

/-- The command of an analysis. -/
def analyzeOf (p : Arguments.Parsed) : Except Ending Command := do
  match p.positionals with
  | [query] =>
    let entityRanges ← pairs "--entity-range" (p.values "--entity-range")
    let literalRanges ← pairs "--literal-range" (p.values "--literal-range")
    let prefixes ← pairs "--prefix" (p.values "--prefix")
    return .analyze query (p.values "--anchor").getLast? prefixes
      ⟨p.values "--one-to-many", entityRanges, literalRanges⟩
  | _ => throw wrongUsage

/-- The command of a description. -/
def describeOf (p : Arguments.Parsed) : Except Ending Command :=
  match p.positionals with
  | [path] => .ok (.describe path)
  | _ => .error wrongUsage

/-- The command of the arguments behind the name of a command. -/
def ofParsed (make : Arguments.Parsed → Except Ending Command) :
    Option Arguments.Parsed → Except Ending Command
  | none => .error wrongUsage
  | some p => if p.wantsHelp then .error (.exit 0 "" none) else make p

/-- The command of a list of arguments. -/
def ofArguments (arguments : List String) : Except Ending Command :=
  match arguments with
  | "analyze" :: rest => ofParsed analyzeOf (Arguments.understand analyzeOptions rest)
  | "describe" :: rest => ofParsed describeOf (Arguments.understand [Arguments.help] rest)
  | first :: _ =>
    match Arguments.classify [Arguments.help] first with
    | some (.option _ none) => .error (.exit 0 "" none)
    | _ => .error wrongUsage
  | [] => .error wrongUsage

/-- The command of a run; the settings of its environment have to be right. -/
def read (env : Environment) (arguments : List String) : Except Ending Command :=
  match Settings.read env with
  | .error cause => .error (.wrongSettings cause)
  | .ok settings =>
    match settings.checkLevel with
    | .error cause => .error (.wrongSettings cause)
    | .ok () => ofArguments arguments

/-- The file that a command reads. -/
def path? : Command → Option String
  | .analyze .. => none
  | .describe path => some path

/-- A text or null. -/
def optionalText (s : Option String) : Json :=
  s.elim .null .string

/-- What is known about a variable, as JSON. -/
def propertiesJson (p : VariableProperties) : Json :=
  .object [("functional", .bool p.functional), ("nullable", .bool p.nullable),
    ("datatype", .string p.datatype), ("is_object_reference", .bool p.isObjectReference),
    ("predicate", optionalText p.predicate)]

/-- An analysis as JSON. -/
def analysisJson (a : Analysis) : Json :=
  .object [("anchor", .string a.anchor),
    ("variables", .object (a.described.map fun (name, p) => (name, propertiesJson p))),
    ("dependencies",
      .array ((Analysis.sortedNames (a.dependencies.map Dependency.text)).map .string)),
    ("ambiguous", .array ((Analysis.sortedNames a.ambiguous).map .string))]

/-- A property as JSON. -/
def propertyJson (p : Property) : Json :=
  .object [("name", .string p.name), ("kind", .string p.kind.name),
    ("multiplicity", .string p.multiplicity.mark), ("predicate", optionalText p.predicate),
    ("datatype", .string p.datatype)]

/-- The properties that have templates of their own. -/
def hasInitializer (p : Property) : Bool :=
  p.isWritable && (p.isNullable || !p.isFunctional)

/-- An entity type as JSON. -/
def typeJson (t : EntityType) : Except MappingError Json := do
  let creation ← t.synthesis.creation
  let initializers ← (t.properties.filter hasInitializer).mapM fun p => do
    return (p.name, Json.string (← t.synthesis.initializer p.name))
  return .object [("name", .string t.name), ("anchor", .string t.anchor),
    ("properties", .array (t.properties.map propertyJson)),
    ("creation_template", .string creation), ("initializers", .object initializers)]

/-- A JSON text as the output of a run. -/
def printed (j : Json) : Ending :=
  .exit 0 (j.pretty 0 ++ "\n") none

/-- Runs an analysis. -/
def analyzed (query : String) (anchor : Option String) (prefixes : List (String × String))
    (hints : SchemaHints) : Except MappingError Json := do
  let q ← SelectQuery.read prefixes query
  let anchor ← EntityType.anchorOf q anchor
  return analysisJson (← Analysis.derive q anchor hints)

/-- Runs a description. -/
def described (d : MappingDocument) : Except MappingError Json := do
  return .array (← d.entities.mapM fun e => do typeJson (← e.entityType))

/-- Runs a command, given the text of its file if there is such a file. -/
def run (file : Option String) : Command → Ending
  | .analyze query anchor prefixes hints =>
    match analyzed query anchor prefixes hints with
    | .ok j => printed j
    | .error e => failed e
  | .describe _ =>
    match file with
    | none => .unreadableFile
    | some text =>
      match MappingDocument.read text with
      | .error issues => .invalidDocument issues
      | .ok d =>
        match described d with
        | .ok j => printed j
        | .error e => failed e

end Command

end EntityMapping
