import SemanticLayer.Access.Permission
import SemanticLayer.CommandLine.Arguments
import SemanticLayer.Config.Settings
import SemanticLayer.Document.Quoted
import SemanticLayer.Planner.MetricQuery

/-!
# Running commands

A run reads the settings and carries out a command. All it depends on are the arguments, the files
and the environment, and all it does is to print and to end with a number: 0 if all went well, 1 if
a query was denied or does not compile, 2 if nothing could be tried.
-/

namespace SemanticLayer.CommandLine

/-- What is found at a path. A file that is there may fail to be read, for a cause given as text. -/
inductive File where
  | missing
  | unreadable (cause : String)
  | text (content : String)
  deriving DecidableEq, Repr

/-- What a run depends on beside its arguments: what is found at a path, and the value of a
variable. -/
structure Surroundings (m : Type → Type) where
  file : String → m File
  environment : String → m (Option String)

/-- What a run prints and ends with. Where nothing is said about errors, the usage is. -/
structure Outcome where
  exitCode : UInt8
  output : String := ""
  errors : Option String := some ""
  deriving DecidableEq, Repr

namespace Outcome

/-- A text as lines. -/
def line (text : String) : String :=
  text ++ "\n"

/-- An end with an error. -/
def failed (exitCode : UInt8) (what cause : String) : Outcome :=
  { exitCode, errors := some (line (what ++ ": " ++ cause)) }

/-- An end because of the configuration. -/
def badConfiguration (cause : String) : Outcome :=
  failed 2 "Configuration error" cause

end Outcome

open Outcome

/-! ## Settings -/

section

variable {m : Type → Type} [Monad m] (surroundings : Surroundings m)

/-- The path of the configuration of a user. -/
def userConfig? : m (Option String) := do
  let configHome ← surroundings.environment "XDG_CONFIG_HOME"
  let home ← surroundings.environment "HOME"
  let directory? := (configHome.filter fun path => path.startsWith "/").or
    ((home.filter fun path => !path.isEmpty).map fun path => path ++ "/.config")
  pure (directory?.map fun directory => directory ++ "/junction/config.toml")

/-- A path, if there is a file at it. -/
def existing? (path : String) : m (Option String) := do
  match ← surroundings.file path with
  | .missing => pure none
  | _ => pure (some path)

/-- The path of the configuration: the one the environment names, the one at hand, or that of the
user. -/
def configPath? : m (Option String) := do
  match ← surroundings.environment "JUNCTION_CONFIG" with
  | some path => pure (some path)
  | none =>
    match ← existing? surroundings "junction.toml" with
    | some path => pure (some path)
    | none =>
      match ← userConfig? surroundings with
      | some path => existing? surroundings path
      | none => pure none

/-- The value of each of some variables. -/
def values (names : List String) : m (List (String × Option String)) :=
  names.mapM fun name => do
    let value ← surroundings.environment name
    pure (name, value)

/-- The settings in the file at a path. -/
def settingsAt (path : String) : m (Except Config.Failure Config.Settings) := do
  match ← surroundings.file path with
  | .missing => pure (.error (.fileNotFound path))
  | .unreadable cause => pure (.error (.unreadableFile cause))
  | .text content =>
    match Config.Settings.ofText content with
    | .error fault => pure (.error fault)
    | .ok settings => do
      let known ← values surroundings settings.variableNames
      pure (settings.expandUris fun name => (known.lookup name).join)

/-- The settings of a run. Without a configuration there is nothing in them. -/
def settings (path : Option String) : m (Except Config.Failure Config.Settings) := do
  let found ← match path with
    | some path => pure (some path)
    | none => configPath? surroundings
  match found with
  | some path => settingsAt surroundings path
  | none => pure (.ok {})

/-- The inspector of a database file. No file and an empty one are databases without tables. -/
def openDatabase (path : String) : m (Result Access.Inspector) := do
  if path = "" ∨ path = ":memory:" then pure (.ok (.stored []))
  else
    match ← surroundings.file path with
    | .missing => pure (.error .unreadableDatabase)
    | .unreadable _ => pure (.ok .unreadable)
    | .text content => pure (.ok (if content.isEmpty then .stored [] else .unreadable))

/-- The inspector that queries are verified with. -/
def inspector (settings : Config.Settings) : m (Result Access.Inspector) :=
  match settings.verifier.sqlite with
  | some path => openDatabase surroundings path
  | none => pure (.ok (.declared settings.schemas))

end

/-! ## Commands -/

/-- A compiled query as JSON. -/
def jsonText (compiled : Planner.Compiled) : String :=
  "\n".intercalate
    ["\x7b",
      "  \"database_id\": " ++ Number.intText compiled.database.id ++ ",",
      "  \"submitted_query\": " ++ Document.quoted compiled.text,
      "\x7d"]

/-- Prints a compiled query, and the database it is for if asked to. -/
def printQuery (invocation : Invocation) (result : Result Planner.Compiled) : Outcome :=
  match result with
  | .error error => failed 1 "Compilation error" error.message
  | .ok compiled =>
    { exitCode := 0
      output := line (if invocation.asJson then jsonText compiled else compiled.text)
      errors := some <|
        if invocation.verbose then line ("-- database: " ++ Number.intText compiled.database.id)
        else "" }

/-- Prints the dimensions of a node, each on a line. -/
def printDimensions (result : Result (List String)) : Outcome :=
  match result with
  | .error error => failed 1 "Error" error.message
  | .ok names => { exitCode := 0, output := String.join (names.map line) }

/-- Prints whether a query is allowed. -/
def printVerdict (result : Result Bool) : Outcome :=
  match result with
  | .error error => failed 2 "Verification error" error.message
  | .ok true => { exitCode := 0, output := line "allowed" }
  | .ok false => { exitCode := 1, output := line "denied" }

/-- Carries out a command on the catalog. -/
def withCatalog (settings : Config.Settings) (run : Catalog → Outcome) : Outcome :=
  match settings.catalog with
  | .error cause => badConfiguration cause.message
  | .ok catalog => run catalog

/-- Carries out a command. -/
def carryOut {m : Type → Type} [Monad m] (surroundings : Surroundings m)
    (settings : Config.Settings) (invocation : Invocation) : m Outcome :=
  match invocation.command with
  | .node name groupBys filters database =>
    pure <| withCatalog settings fun catalog => printQuery invocation do
      let node ← catalog.node name
      Planner.nodeQuery catalog node groupBys filters database
  | .sql query database =>
    pure <| withCatalog settings fun catalog =>
      printQuery invocation (Planner.metricQuery catalog query database)
  | .dimensions name =>
    pure <| withCatalog settings fun catalog => printDimensions do
      let node ← catalog.node name
      catalog.dimensions node
  | .verify query permissions context => do
    match ← inspector surroundings settings with
    | .error error => pure (badConfiguration error.message)
    | .ok inspector =>
      pure <| printVerdict
        (Access.verify inspector context settings.verifier.wildcard query permissions)

/-- How the program is used. -/
def usage : String :=
  "\n".intercalate
    ["Compiles metric queries and checks permissions.",
      "",
      "  junction node NAME [-d DIMENSION]... [-f FILTER]... [--database ID]",
      "  junction sql QUERY [--database ID]",
      "  junction verify QUERY -p PERMISSION... --database NAME [--catalog NAME] [--schema NAME]",
      "  junction dimensions NAME",
      "",
      "  --config PATH          the configuration to read",
      "  --format sql|json      how queries are printed",
      "  -v, --verbose          also print the database",
      ""]

/-- The name of the program and its version. -/
def versionText : String := "junction 0.1.0"

/-- Runs the program. -/
def run {m : Type → Type} [Monad m] (surroundings : Surroundings m) (arguments : List String) :
    m Outcome := do
  match Invocation.ofArguments arguments with
  | .error .usage => pure { exitCode := 2, errors := none }
  | .error .help => pure { exitCode := 0, output := usage }
  | .error .version => pure { exitCode := 0, output := line versionText }
  | .ok invocation =>
    match ← settings surroundings invocation.config with
    | .error cause => pure (badConfiguration cause.message)
    | .ok settings => carryOut surroundings settings invocation

end SemanticLayer.CommandLine
