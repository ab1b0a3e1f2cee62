import SemanticLayer.Text.Parts
import SemanticLayer.Number.Integer

/-!
# Failures of the semantic layer

A failure is a value that carries its cause. `Error.message` is the one place where a cause becomes
text, and `Error.code` groups the causes by area.
-/

namespace SemanticLayer

/-- Why SQL that could be read is not the SQL that was asked for. -/
inductive SqlFault where
  | statementCount (found : Nat)
  | notAQuery (keyword : String)
  | rowCount (text : String)
  | number (text : String)
  | noProjection (metric : String)
  | noFromClause
  deriving DecidableEq, Repr

/-- The cause as text. -/
def SqlFault.message : SqlFault → String
  | .statementCount found =>
    "expected a single statement, found " ++ Number.intText found
  | .notAQuery keyword => "not a query: " ++ keyword
  | .rowCount text => "invalid row count: " ++ text
  | .number text => "invalid number: " ++ text
  | .noProjection metric => "metric " ++ metric ++ " has no projection"
  | .noFromClause => "no FROM clause to join onto"

/-- Why databases and nodes do not form a catalog. -/
inductive CatalogFault where
  | duplicateDatabase (id : Int)
  | duplicateNode (node : String)
  | unknownParent (node parent : String)
  | unknownDimension (node column dimension : String)
  | unknownDatabase (node : String) (id : Int)
  | cycle (node : String)
  deriving DecidableEq, Repr

/-- The cause as text. -/
def CatalogFault.message : CatalogFault → String
  | .duplicateDatabase id => "duplicate database id " ++ Number.intText id
  | .duplicateNode node => "duplicate node " ++ node
  | .unknownParent node parent => "node " ++ node ++ " has unknown parent " ++ parent
  | .unknownDimension node column dimension =>
    "column " ++ node ++ "." ++ column ++ " links to unknown dimension " ++ dimension
  | .unknownDatabase node id =>
    "node " ++ node ++ " is materialized in unknown database " ++ Number.intText id
  | .cycle node => "cycle through node " ++ node

/-- Why the columns of a physical table are not known. -/
inductive SchemaFault where
  | noColumns (schema : Option String) (table : String)
  | noTable (table : String)
  deriving DecidableEq, Repr

/-- The cause as text. -/
def SchemaFault.message : SchemaFault → String
  | .noColumns (some schema) table => "no columns known for " ++ schema ++ "." ++ table
  | .noColumns none table => "no columns known for " ++ table
  | .noTable table => "table " ++ table ++ " not found"

/-- Every way in which compiling, resolving or verifying fails. -/
inductive Error where
  | invalidFilter (text : String)
  | invalidColumnName (name : String)
  | invalidOperation (operator : String)
  | invalidValue (text : String)
  | invalidDimensions (names : List String)
  | columnNotFound (column : String)
  | ambiguousColumn (column : String)
  | noDimensionLink (node dimension : String)
  | noValidDatabase
  | invalidDatabaseId (id : Int)
  | notAMetric (node : String)
  | parentMismatch
  | invalidIdentifier (name : String)
  | multipleDimensions
  | unknownNode (node : String)
  | columnNotInAnyTable (column : String)
  | ambiguousTableColumn (column : String)
  | notImplemented (construct : String)
  | invalidSql (fault : SqlFault)
  | unreadableSql
  | introspection (fault : SchemaFault)
  | unreadableDatabase
  | invalidCatalog (fault : CatalogFault)
  deriving DecidableEq, Repr

namespace Error

/-- The operators that filters may use, as a message names them. -/
def filterOperators : String := ">, >=, <, <=, =, !="

/-- What went wrong, naming the node, column or value at fault. -/
def message : Error → String
  | invalidFilter text => "Invalid filter: " ++ text
  | invalidColumnName name => "Invalid column name: " ++ name
  | invalidOperation operator =>
    "Invalid operation: " ++ operator ++ " (valid: " ++ filterOperators ++ ")"
  | invalidValue text => "Invalid value: " ++ text
  | invalidDimensions names =>
    (if names.length > 1 then "Invalid dimensions: " else "Invalid dimension: ") ++
      ", ".intercalate names
  | columnNotFound column => "Column " ++ column ++ " not found in any parent"
  | ambiguousColumn column => "Column " ++ column ++ " is ambiguous"
  | noDimensionLink node dimension =>
    "Node " ++ node ++ " has no columns with dimension " ++ dimension
  | noValidDatabase => "No valid database was found"
  | invalidDatabaseId id => "Database ID " ++ Number.intText id ++ " is not valid"
  | notAMetric node => "Not a valid metric: " ++ node
  | parentMismatch => "All metrics should have the same parents"
  | invalidIdentifier name => "Invalid identifier: " ++ name
  | multipleDimensions => "Cannot query from multiple dimensions when no metric is specified"
  | unknownNode node => "Unknown node: " ++ node
  | columnNotInAnyTable column => "Column " ++ column ++ " not found in any table"
  | ambiguousTableColumn column => "Column " ++ column ++ " present is ambiguous"
  | notImplemented construct => "Unable to handle expression: " ++ construct
  | invalidSql fault => "Invalid SQL: " ++ fault.message
  | unreadableSql => "SQL parse error:"
  | introspection fault => "Schema introspection failed: " ++ fault.message
  | unreadableDatabase => "SQLite error:"
  | invalidCatalog fault => "Invalid graph: " ++ fault.message

/-- The stable number of a cause: filters from 100, building SQL from 200, compound faults 300. -/
def code : Error → Nat
  | invalidFilter _ | invalidOperation _ => 100
  | invalidColumnName _ => 101
  | invalidValue _ => 102
  | invalidDimensions _ | noDimensionLink _ _ => 205
  | columnNotFound _ | columnNotInAnyTable _ => 202
  | ambiguousColumn _ | ambiguousTableColumn _ | invalidIdentifier _ => 206
  | noValidDatabase | invalidDatabaseId _ | introspection _ | unreadableDatabase
  | invalidCatalog _ => 0
  | notAMetric _ => 204
  | parentMismatch | multipleDimensions => 300
  | unknownNode _ => 203
  | notImplemented _ => 1
  | invalidSql _ | unreadableSql => 201

end Error

/-- A computation that may fail with an `Error`. -/
abbrev Result (α : Type) := Except Error α

end SemanticLayer
