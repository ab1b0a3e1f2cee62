import SemanticLayer.Planner.Names
import SemanticLayer.Sql.Reading

/-!
# Nodes as relations

A node is read from its cheapest table in a database, or from the query that its expression makes
of its parents. Parents are relations in turn; since no node is its own ancestor, that ends after
as many steps as there are nodes.
-/

namespace SemanticLayer.Planner

open SemanticLayer.Sql
open SemanticLayer.Catalog (Node Database Materialization)

/-- A table of a node under an alias, if one is given, or else under the name of the node unless the
table is called so. -/
def tableOf (node : Node) (stored : Materialization) (aliasName : Option Name) : Table :=
  let table := stored.toTable
  let own := if table.fullName = node.name then none else some { value := node.name }
  { table with aliasName := aliasName.or own }

/-- The query that reads a table of a node: the columns it declares, or else those of the node, or
else everything. -/
def storedQuery (node : Node) (stored : Materialization) : Query :=
  let columns :=
    if stored.columns.isEmpty then node.columns.map Catalog.NodeColumn.name else stored.columns
  let projection := if columns.isEmpty then [Expr.star] else columns.map Expr.col
  { select := { projection, sources := some [{ primary := .table (tableOf node stored none) }] } }

/-- A relation that takes the place of a table that is called like one of some nodes. -/
def bindRelation (bind : Node → Option Name → Result Relation) (nodes : List Node) :
    Relation → Result Relation
  | .table table =>
    match nodes.find? fun node => node.name == table.fullName with
    | some node => bind node table.aliasName
    | none => .ok (.table table)
  | .derived query aliasName => .ok (.derived query aliasName)

/-- A SELECT in which relations take the place of some nodes. -/
def bindRelations (bind : Node → Option Name → Result Relation) (select : Select)
    (nodes : List Node) : Result Select :=
  select.mapRelationsM (bindRelation bind nodes)

/-- The query that the expression of a node makes of its parents. -/
def expressionQuery (catalog : Catalog) (bind : Node → Option Name → Result Relation)
    (node : Node) : Result Query :=
  match node.expression with
  | none => .error .noValidDatabase
  | some expression => do
    let query ← Query.ofText expression none
    let parents := catalog.parents node
    let qualified ← qualifyColumns query.select parents
    let select ← bindRelations bind qualified parents
    pure { query with select }

/-- A node as a relation of a database, where expressions are entered so many deep at most. -/
def relationWithin (catalog : Catalog) (database : Database) :
    Nat → Node → Option Name → Result Relation
  | 0, _, _ => .error .noValidDatabase
  | depth + 1, node, aliasName =>
    match node.tableIn? database.id with
    | some stored => .ok (.table (tableOf node stored aliasName))
    | none => do
      let query ← expressionQuery catalog (relationWithin catalog database depth) node
      pure (.derived query (some (aliasName.getD { value := node.name })))

/-- A node as a relation of a database, under an alias if one is given. -/
def relationOf (catalog : Catalog) (database : Database) (node : Node) (aliasName : Option Name) :
    Result Relation :=
  relationWithin catalog database (catalog.nodes.length + 1) node aliasName

/-- The query that computes a node in a database. Its table is read if `stored` is set or if it has
no expression. -/
def queryOf (catalog : Catalog) (database : Database) (node : Node) (stored : Bool) :
    Result Query :=
  match if stored || node.expression.isNone then node.tableIn? database.id else none with
  | some table => .ok (storedQuery node table)
  | none => expressionQuery catalog (relationOf catalog database) node

end SemanticLayer.Planner
