import SemanticLayer.Dialect
import SemanticLayer.Number.Binary64
import SemanticLayer.Sql.Name

/-!
# Databases and nodes

A node is a declared table of the semantic layer: raw, derived by an expression over its parents, a
dimension that columns of other nodes link to, or a metric. It may be materialized as physical
tables in several databases.
-/

namespace SemanticLayer.Catalog

/-- A database that queries can be run in. The one of lower cost is preferred. -/
structure Database where
  id : Int
  name : String
  uri : String
  cost : Number.Binary64 := .one
  readOnly : Bool := true
  description : String := ""
  deriving DecidableEq, Repr

/-- The dialect that queries for the database are written in. -/
def Database.dialect (database : Database) : Dialect :=
  Dialect.ofUri database.uri

/-- A node as a physical table in a database, with the columns it has there. -/
structure Materialization where
  database : Int
  catalog : Option String := none
  schema : Option String := none
  table : String
  cost : Number.Binary64 := .one
  columns : List String := []
  deriving DecidableEq, Repr

namespace Materialization

/-- The physical table. -/
def toTable (table : Materialization) : Sql.Table :=
  Sql.Table.inPath { name := { value := table.table } }
    ((table.catalog.toList ++ table.schema.toList).map fun part => { value := part })

/-- Whether a table has all of some columns. A table that declares none is taken to have all. -/
def holds (table : Materialization) (columns : List String) : Bool :=
  columns.all fun column => table.columns.isEmpty || table.columns.contains column

end Materialization

/-- The kinds of nodes. -/
inductive NodeKind where
  | source
  | transform
  | dimension
  | metric
  deriving DecidableEq, Repr

namespace NodeKind

/-- Every kind. -/
def all : List NodeKind := [source, transform, dimension, metric]

/-- The word for a kind. -/
def word : NodeKind → String
  | source => "source"
  | transform => "transform"
  | dimension => "dimension"
  | metric => "metric"

/-- The kind that a word is for. -/
def ofWord? (text : String) : Option NodeKind :=
  all.find? fun kind => kind.word == text

end NodeKind

/-- The logical types of columns. -/
inductive ColumnType where
  | bytes
  | str
  | float
  | int
  | decimal
  | bool
  | datetime
  | date
  | time
  | timedelta
  | list
  | dict
  | unknown
  deriving DecidableEq, Repr

namespace ColumnType

/-- Every type. -/
def all : List ColumnType :=
  [bytes, str, float, int, decimal, bool, datetime, date, time, timedelta, list, dict, unknown]

/-- The word for a type. -/
def word : ColumnType → String
  | bytes => "bytes"
  | str => "str"
  | float => "float"
  | int => "int"
  | decimal => "decimal"
  | bool => "bool"
  | datetime => "datetime"
  | date => "date"
  | time => "time"
  | timedelta => "timedelta"
  | list => "list"
  | dict => "dict"
  | unknown => "unknown"

/-- The type that a word is for. -/
def ofWord? (text : String) : Option ColumnType :=
  all.find? fun type => type.word == text

end ColumnType

/-- A column of a node, which may link to a dimension node. -/
structure NodeColumn where
  name : String
  type : ColumnType := .unknown
  dimension : Option String := none
  dimensionColumn : Option String := none
  deriving DecidableEq, Repr

/-- The column of the dimension that a link joins to. -/
def NodeColumn.joinColumn (column : NodeColumn) : String :=
  column.dimensionColumn.getD "id"

/-- A declared node. -/
structure Node where
  name : String
  version : String := "1"
  kind : NodeKind
  description : String := ""
  expression : Option String := none
  parents : List String := []
  columns : List NodeColumn := []
  tables : List Materialization := []
  deriving DecidableEq, Repr

/-- The first item of least key. -/
def firstLeast? {α : Type} (key : α → Int) : List α → Option α
  | [] => none
  | item :: rest =>
    match firstLeast? key rest with
    | some other => some (if key item ≤ key other then item else other)
    | none => some item

namespace Node

/-- Whether the node is a metric. -/
def isMetric (node : Node) : Bool :=
  node.kind == .metric

/-- The column of a name. -/
def column? (node : Node) (name : String) : Option NodeColumn :=
  node.columns.find? fun column => column.name == name

/-- Whether the node has a column of a name. -/
def hasColumn (node : Node) (name : String) : Bool :=
  (node.column? name).isSome

/-- The columns that link to a dimension. -/
def columnsWithDimension (node : Node) (dimension : String) : List NodeColumn :=
  node.columns.filter fun column => column.dimension == some dimension

/-- The cheapest materialization in a database, the first of several that cost the same. -/
def tableIn? (node : Node) (database : Int) : Option Materialization :=
  firstLeast? (fun table => table.cost.orderKey)
    (node.tables.filter fun table => table.database == database)

end Node
end SemanticLayer.Catalog
