import EntityMapping.Cache
import EntityMapping.Number.Binary64.Shortest
import EntityMapping.Number.Integer
import EntityMapping.Store.Endpoint
import EntityMapping.Store.Memory
import EntityMapping.Text.Quoted
import EntityMapping.Text.Upper

/-!
Settings from the environment, and the store that they ask for.
-/

namespace EntityMapping

/-- Variables of the environment with their values. -/
abbrev Environment := List (String × String)

/-- What can be wrong with settings. -/
inductive SettingsError where
  | notANumber (text : String)
  | notAnInteger (text : String)
  | unknownBackend (name : String)
  | missingQueryUrl
  | negativeCacheSize
  | unknownLevel (name : String)
  deriving DecidableEq, Repr

namespace SettingsError

/-- What an error says. -/
def message : SettingsError → String
  | .notANumber text => "could not convert string to float: " ++ Text.quoted text
  | .notAnInteger text => "invalid literal for int() with base 10: " ++ Text.quoted text
  | .unknownBackend name =>
    "Unknown graph store backend: " ++ Text.quoted name ++ ". Supported: 'memory', 'endpoint'"
  | .missingQueryUrl => "SPARQLMAP_QUERY_URL is required for the endpoint backend"
  | .negativeCacheSize => "max_size must be >= 0"
  | .unknownLevel name => "Unknown level: " ++ Text.quoted name

end SettingsError

/-- Which store is asked for. -/
structure StoreSettings where
  backend : String
  queryUrl : String
  updateUrl : String
  /-- How many seconds a request may take. -/
  timeout : Binary64
  deriving DecidableEq, Repr

/-- All settings. -/
structure Settings where
  store : StoreSettings
  cacheSize : Int
  logLevel : String
  deriving DecidableEq, Repr

/-- A store as settings ask for it. -/
inductive ConfiguredStore where
  | memory
  | endpoint (e : Endpoint)
  deriving DecidableEq, Repr

namespace StoreSettings

/-- How many seconds a request may take unless told otherwise. -/
def defaultTimeout : Binary64 :=
  .ofScientific false 30 0

/-- A store in memory. -/
def default : StoreSettings :=
  ⟨"memory", "", "", defaultTimeout⟩

/-- The store that is asked for. -/
def build (s : StoreSettings) : Except SettingsError ConfiguredStore :=
  if s.backend == "memory" then .ok .memory
  else if s.backend == "endpoint" then
    if s.queryUrl.isEmpty then .error .missingQueryUrl
    else .ok (.endpoint (.ofUrls s.queryUrl (some s.updateUrl) s.timeout))
  else .error (.unknownBackend s.backend)

end StoreSettings

namespace Settings

/-- The value of a variable, or what counts where it is not set. -/
def valueOf (env : Environment) (name fallback : String) : String :=
  (env.lookup name).getD fallback

/-- Reads a number. -/
def readNumber (text : String) : Except SettingsError Binary64 :=
  match Binary64.read text with
  | some x => .ok x
  | none => .error (.notANumber text)

/-- Reads an integer. -/
def readInteger (text : String) : Except SettingsError Int :=
  match Number.readInteger text with
  | some i => .ok i
  | none => .error (.notAnInteger text)

/-- The settings of an environment. -/
def read (env : Environment) : Except SettingsError Settings := do
  let timeout ← readNumber (valueOf env "SPARQLMAP_TIMEOUT" "30")
  let cacheSize ←
    readInteger (valueOf env "SPARQLMAP_CACHE_SIZE" (toString Cache.defaultSize))
  return {
    store := {
      backend := valueOf env "SPARQLMAP_BACKEND" "memory"
      queryUrl := valueOf env "SPARQLMAP_QUERY_URL" ""
      updateUrl := valueOf env "SPARQLMAP_UPDATE_URL" ""
      timeout := timeout }
    cacheSize := cacheSize
    logLevel := Text.upper (valueOf env "SPARQLMAP_LOG_LEVEL" "INFO") }

/-- A number as the size of a cache. -/
def boundOf (size : Int) : Except SettingsError Nat :=
  if size < 0 then .error .negativeCacheSize else .ok size.toNat

/-- The store and the size of the cache of a session. -/
def build (s : Settings) : Except SettingsError (ConfiguredStore × Nat) := do
  return (← s.store.build, ← boundOf s.cacheSize)

/-- The names of the levels of logging. -/
def logLevels : List String :=
  ["CRITICAL", "FATAL", "ERROR", "WARN", "WARNING", "INFO", "DEBUG", "NOTSET"]

/-- Refuses a level of logging that has no name. -/
def checkLevel (s : Settings) : Except SettingsError Unit :=
  if logLevels.contains s.logLevel then .ok () else .error (.unknownLevel s.logLevel)

end Settings

end EntityMapping
