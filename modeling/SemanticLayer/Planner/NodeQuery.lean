import SemanticLayer.Planner.Demand
import SemanticLayer.Planner.Filter
import SemanticLayer.Planner.Joins

/-!
# Queries for nodes

A node is computed in a database, grouped by dimensions and restricted by filters. Every name that
is asked for has to be a dimension of the node, and dimensions are joined along the links to them.
-/

namespace SemanticLayer.Planner

open SemanticLayer.Sql
open SemanticLayer.Catalog (Node Hop)

/-- A query, and the database it is for. -/
structure Compiled where
  database : Catalog.Database
  query : Query

/-- The query in the dialect of its database. -/
def Compiled.text (compiled : Compiled) : String :=
  compiled.query.text compiled.database.dialect

/-- The node and the column of a full name. -/
def splitName (name : String) : Result (String × String) :=
  match Text.splitLastDot? name with
  | some pair => .ok pair
  | none => .error (.invalidColumnName name)

/-- Refuses names that are not among the dimensions of a node. -/
def checkDimensions (catalog : Catalog) (node : Node) (names : List String) : Result Unit := do
  let valid ← catalog.dimensions node
  match names.filter fun name => !valid.contains name with
  | [] => pure ()
  | invalid => .error (.invalidDimensions invalid)

/-- The demand of a dimension of a node, and the path to it unless it belongs to one of the nodes to
start from. -/
def demandDimension (catalog : Catalog) (node : Node) (start : List Node)
    (found : Demand × List (List Hop)) (name : String) : Result (Demand × List (List Hop)) := do
  let (dimension, column) ← splitName name
  let demand := found.1.addColumn dimension column
  if start.any fun other => other.name == dimension then pure (demand, found.2)
  else
    match catalog.dimensionPath start dimension with
    | none => .error (.noDimensionLink node.name dimension)
    | some path => do
      let demand ← demand.addPath catalog path
      pure (demand, found.2 ++ [path])

/-- The names that the parents of a node go by in its query. Binding gives tables other names, so
the expression is asked as it is written. -/
def namesInQuery (catalog : Catalog) (node : Node) (query : Query) : Result NodeNames := do
  let parents := catalog.parents node
  match node.expression with
  | some expression => do
    let written ← Query.ofText expression none
    pure (NodeNames.ofSelect written.select parents)
  | none => pure (NodeNames.ofSelect query.select parents)

/-- A column as an expression, by the name that its node goes by. -/
def dimensionExpr (names : NodeNames) (dimension column : String) : Expr :=
  .column (columnOf (names.nameOf dimension) column)

/-- A SELECT restricted by a filter. -/
def addFilter (names : NodeNames) (select : Select) (filter : Filter) : Result Select := do
  let (dimension, column) ← filter.dimension
  pure (select.addFilter (filter.toExpr (columnOf (names.nameOf dimension) column)))

/-- Expressions with one more at their end, unless it is among them. -/
def addOnce (exprs : List Expr) (expr : Expr) : List Expr :=
  if exprs.any (· == expr) then exprs else exprs ++ [expr]

/-- A SELECT that shows a dimension and is grouped by it. -/
def addGroupBy (names : NodeNames) (select : Select) (name : String) : Result Select := do
  let (dimension, column) ← splitName name
  let expr := dimensionExpr names dimension column
  pure
    { select with
      projection := addOnce select.projection expr
      groupBy := addOnce select.groupBy expr }

/-- The query of a node grouped by dimensions and restricted by filters, in the requested database
or the cheapest one. The table of the node is read only if nothing is asked for. -/
def nodeQuery (catalog : Catalog) (node : Node) (groupBys filters : List String)
    (requested : Option Int) : Result Compiled := do
  let filters ← filters.mapM Filter.ofText
  let names := Catalog.sortedSet (groupBys ++ filters.map Filter.name)
  checkDimensions catalog node names
  let start := catalog.roots node
  let references ← catalog.nodeReferences node
  let (demand, paths) ←
    names.foldlM (demandDimension catalog node start) ({ nodes := start, references }, [])
  let stored := names.isEmpty
  let database ←
    (if stored then { demand with nodes := [node] } else demand).database catalog requested
  let query ← queryOf catalog database node stored
  let nodeNames ← namesInQuery catalog node query
  let joins ← paths.foldlM (Joins.addPath catalog database) (Joins.start query.select nodeNames)
  let restricted ← filters.foldlM (addFilter nodeNames) joins.select
  let select ← groupBys.foldlM (addGroupBy nodeNames) restricted
  pure { database, query := { query with select } }

end SemanticLayer.Planner
