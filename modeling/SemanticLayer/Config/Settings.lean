import SemanticLayer.Access.Qualify
import SemanticLayer.Catalog.Basic
import SemanticLayer.Config.Toml
import SemanticLayer.Config.Variables
import SemanticLayer.Number.Integer

/-!
# Settings

The settings hold the databases and nodes of a catalog, declared tables, and how queries are
verified. They are read from a configuration in whatever format; fields that are not known are
passed over.
-/

namespace SemanticLayer.Config

/-- Why there are no settings, or no catalog from them. -/
inductive Failure where
  | fileNotFound (path : String)
  | unreadableFile (cause : String)
  | unreadableText
  | missingVariable (name : String)
  | invalid (error : Error)
  deriving DecidableEq, Repr

/-- What went wrong. -/
def Failure.message : Failure → String
  | .fileNotFound path => "Config file not found: " ++ path
  | .unreadableFile cause => "Failed to read config file: " ++ cause
  | .unreadableText => "Failed to parse config file:"
  | .missingVariable name => "Missing environment variable: " ++ name
  | .invalid error => "Invalid configuration: " ++ error.message

/-! ## Reading values -/

namespace Value

/-- A text. -/
def asText? : Value → Option String
  | .text found => some found
  | _ => none

/-- A truth value. -/
def asBool? : Value → Option Bool
  | .bool found => some found
  | _ => none

/-- A whole number that fits a signed word. -/
def asInteger? : Value → Option Int
  | .integer found =>
    if Number.minSigned ≤ found ∧ found ≤ Number.maxSigned then some found else none
  | _ => none

/-- A number. A whole one has to fit a word, signed or not, and is rounded. -/
def asFloat? : Value → Option Number.Binary64
  | .integer found =>
    if Number.minSigned ≤ found ∧ found ≤ Number.maxUnsigned then
      some (Number.Binary64.ofInt found)
    else none
  | .float found => some found
  | _ => none

/-- The fields of a table. -/
def asTable? : Value → Option Fields
  | .table found => some found
  | _ => none

/-- A list of items that can all be read. -/
def asList? {α : Type} (read : Value → Option α) : Value → Option (List α)
  | .list items => items.mapM read
  | _ => none

/-- A word for something. -/
def asWord? {α : Type} (ofWord? : String → Option α) (value : Value) : Option α :=
  value.asText?.bind ofWord?

/-- The field of a name, which has to be there. -/
def required {α : Type} (read : Value → Option α) (fields : Fields) (key : String) : Option α :=
  (Fields.get? fields key).bind read

/-- The field of a name, or a value to take where it is missing. -/
def orElse {α : Type} (read : Value → Option α) (missing : α) (fields : Fields) (key : String) :
    Option α :=
  match Fields.get? fields key with
  | some found => read found
  | none => some missing

/-- The field of a name, which may be missing or null. -/
def optional {α : Type} (read : Value → Option α) (fields : Fields) (key : String) :
    Option (Option α) :=
  match Fields.get? fields key with
  | none | some .null => some none
  | some found => (read found).map some

/-- The field of either of two names, of which just one has to be there. -/
def eitherOf {α : Type} (read : Value → Option α) (fields : Fields) (key other : String) :
    Option α :=
  match Fields.get? fields key, Fields.get? fields other with
  | some found, none | none, some found => read found
  | _, _ => none

end Value

open Value

/-! ## Databases and nodes -/

/-- The database that a table describes. -/
def database? (value : Value) : Option Catalog.Database := do
  let fields ← value.asTable?
  pure
    { id := ← required asInteger? fields "id"
      name := ← required asText? fields "name"
      uri := ← required asText? fields "uri"
      cost := ← orElse asFloat? .one fields "cost"
      readOnly := ← orElse asBool? true fields "read_only"
      description := ← orElse asText? "" fields "description" }

/-- The materialization that a table describes. -/
def materialization? (value : Value) : Option Catalog.Materialization := do
  let fields ← value.asTable?
  pure
    { database := ← eitherOf asInteger? fields "database" "database_id"
      catalog := ← optional asText? fields "catalog"
      schema := ← optional asText? fields "schema"
      table := ← required asText? fields "table"
      cost := ← orElse asFloat? .one fields "cost"
      columns := ← orElse (asList? asText?) [] fields "columns" }

/-- The column that a table describes. -/
def nodeColumn? (value : Value) : Option Catalog.NodeColumn := do
  let fields ← value.asTable?
  pure
    { name := ← required asText? fields "name"
      type := ← orElse (asWord? Catalog.ColumnType.ofWord?) .unknown fields "type"
      dimension := ← optional asText? fields "dimension"
      dimensionColumn := ← optional asText? fields "dimension_column" }

/-- The node that a table describes. -/
def node? (value : Value) : Option Catalog.Node := do
  let fields ← value.asTable?
  pure
    { name := ← required asText? fields "name"
      version := ← orElse asText? "1" fields "version"
      kind := ← required (asWord? Catalog.NodeKind.ofWord?) fields "type"
      description := ← orElse asText? "" fields "description"
      expression := ← optional asText? fields "expression"
      parents := ← orElse (asList? asText?) [] fields "parents"
      columns := ← orElse (asList? nodeColumn?) [] fields "columns"
      tables := ← orElse (asList? materialization?) [] fields "tables" }

/-- The declared table that a table describes. -/
def schemaTable? (value : Value) : Option Access.SchemaTable := do
  let fields ← value.asTable?
  pure
    { schema := ← optional asText? fields "schema"
      table := ← required asText? fields "table"
      columns := ← required (asList? asText?) fields "columns" }

/-! ## Settings -/

/-- How queries are verified: the text for parts of names that are not known, and the file of a
database to read columns from instead of the declared tables. -/
structure Verifier where
  wildcard : String := Access.defaultPlaceholder
  sqlite : Option String := none
  deriving DecidableEq, Repr

/-- The verifier that a table describes. -/
def verifier? (value : Value) : Option Verifier := do
  let fields ← value.asTable?
  pure
    { wildcard := ← orElse asText? Access.defaultPlaceholder fields "wildcard"
      sqlite := ← optional asText? fields "sqlite" }

/-- What can be configured. -/
structure Settings where
  databases : List Catalog.Database := []
  nodes : List Catalog.Node := []
  schemas : List Access.SchemaTable := []
  verifier : Verifier := {}
  deriving DecidableEq, Repr

namespace Settings

/-- The settings that some fields describe. -/
def ofFields? (fields : Fields) : Option Settings := do
  pure
    { databases := ← orElse (asList? database?) [] fields "databases"
      nodes := ← orElse (asList? node?) [] fields "nodes"
      schemas := ← orElse (asList? schemaTable?) [] fields "schemas"
      verifier := ← orElse verifier? {} fields "verifier" }

/-- A database with the values of the variables in its address. -/
def expandUri (environment : String → Option String) (database : Catalog.Database) :
    Except Failure Catalog.Database :=
  match expandVariables environment database.uri with
  | .ok uri => .ok { database with uri }
  | .error name => .error (.missingVariable name)

/-- The variables in the addresses of the databases. -/
def variableNames (settings : Settings) : List String :=
  settings.databases.flatMap fun database => Piece.references (pieces database.uri)

/-- The settings with the values of the variables in the addresses of the databases. -/
def expandUris (environment : String → Option String) (settings : Settings) :
    Except Failure Settings := do
  let databases ← settings.databases.mapM (expandUri environment)
  pure { settings with databases }

/-- The settings that a text in TOML describes, variables as they are written. -/
def ofText (text : String) : Except Failure Settings :=
  match (Toml.read? text).bind ofFields? with
  | some settings => .ok settings
  | none => .error .unreadableText

/-- The settings that a text in TOML describes. -/
def ofToml (environment : String → Option String) (text : String) : Except Failure Settings := do
  let settings ← ofText text
  settings.expandUris environment

/-- A node with the columns of its first table, if it declares none. -/
def withTableColumns (node : Catalog.Node) : Catalog.Node :=
  match node.columns, node.tables with
  | [], first :: _ => { node with columns := first.columns.map fun name => { name } }
  | _, _ => node

/-- The catalog of the databases and nodes. -/
def catalog (settings : Settings) : Except Failure Catalog :=
  (Catalog.build settings.databases (settings.nodes.map withTableColumns)).mapError .invalid

end Settings
end SemanticLayer.Config
