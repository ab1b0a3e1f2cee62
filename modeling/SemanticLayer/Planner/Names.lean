import SemanticLayer.Catalog.Basic
import SemanticLayer.Sql.Expr
import SemanticLayer.Sql.Select

/-!
# Names of nodes in a SELECT

A node that stands in FROM goes by its alias, or else by its own name. Columns without an owner get
the one node in FROM that has them.
-/

namespace SemanticLayer.Planner

open SemanticLayer.Sql
open SemanticLayer.Catalog (Node)

/-- The names that nodes go by, one for each node. -/
abbrev NodeNames := List (String × Name)

namespace NodeNames

/-- The name that a node goes by. -/
def get? (names : NodeNames) (node : String) : Option Name :=
  (names.find? fun entry => entry.1 == node).map Prod.snd

/-- The name that a node goes by, which is its own if it has no other. -/
def nameOf (names : NodeNames) (node : String) : Name :=
  (names.get? node).getD { value := node }

/-- The names with another name for a node. -/
def put (node : String) (name : Name) (names : NodeNames) : NodeNames :=
  names.filter (fun entry => entry.1 != node) ++ [(node, name)]

/-- The names with that of a relation, if it is one of some nodes. -/
def addRelation (nodes : List Node) (names : NodeNames) : Relation → NodeNames
  | .table table =>
    match nodes.find? fun node => node.name == table.fullName with
    | some node => names.put node.name (table.aliasName.getD { value := node.name })
    | none => names
  | .derived _ _ => names

/-- The names that some nodes go by in a SELECT. Of several relations that are the same node the
last one counts. -/
def ofSelect (select : Select) (nodes : List Node) : NodeNames :=
  select.relations.foldl (addRelation nodes) []

end NodeNames

/-- A column of the relation of a name. -/
def columnOf (owner : Name) (column : String) : Column :=
  { name := { value := column }, table := some { name := owner } }

/-- The names of those nodes in FROM that have a column. -/
def owners (names : NodeNames) (nodes : List Node) (column : String) : List Name :=
  nodes.filterMap fun node => if node.hasColumn column then names.get? node.name else none

/-- A column with its owner. One that no node has may be an alias, and stays as it is. -/
def qualifyColumn (names : NodeNames) (nodes : List Node) (column : Column) : Result Column :=
  if column.isQualified then .ok column
  else
    match owners names nodes column.name.value with
    | [] => .ok column
    | [owner] => .ok (column.addTable { name := owner })
    | _ => .error (.ambiguousColumn column.name.value)

/-- A SELECT whose columns have owners among some nodes, join conditions last. -/
def qualifyColumns (select : Select) (nodes : List Node) : Result Select := do
  let change := Expr.mapColumnsM (qualifyColumn (NodeNames.ofSelect select nodes) nodes)
  let qualified ← select.mapExprsM change
  qualified.mapConditionsM change

end SemanticLayer.Planner
