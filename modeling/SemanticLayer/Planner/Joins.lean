import SemanticLayer.Catalog.Reach
import SemanticLayer.Planner.Relation

/-!
# Dimension joins

Dimensions are joined along the links that lead to them, each one once. A join goes to the entry of
FROM that holds the relation it starts from, since its condition sees no other entry.
-/

namespace SemanticLayer.Planner

open SemanticLayer.Sql
open SemanticLayer.Catalog (Database Hop)

/-- A SELECT that dimensions are joined to, the names that nodes go by in it, and the nodes that are
part of it. -/
structure Joins where
  select : Select
  names : NodeNames
  joined : List String

namespace Joins

/-- A SELECT in which nodes go by some names, and are part of it. -/
def start (select : Select) (names : NodeNames) : Joins :=
  { select, names, joined := names.map Prod.fst }

/-- Whether an entry of FROM holds a relation of a name. -/
def holds (name : Name) (source : Source) : Bool :=
  source.relations.any fun relation => relation.referenceName? == some name

/-- A join added to the entry at a position. -/
def addAt (join : Join) : Nat → List Source → List Source
  | _, [] => []
  | 0, source :: rest => { source with joins := source.joins ++ [join] } :: rest
  | position + 1, source :: rest => source :: addAt join position rest

/-- A join added to the first entry that holds a relation of a name, or else to the first one. -/
def attach (name : Name) (join : Join) (sources : List Source) : List Source :=
  addAt join ((sources.findIdx? (holds name)).getD 0) sources

/-- The condition that a hop joins on. -/
def condition (joins : Joins) (hop : Hop) : Expr :=
  Expr.combine (.column (columnOf (joins.names.nameOf hop.source) hop.column)) .eq
    (.column (columnOf (joins.names.nameOf hop.dimension) hop.dimensionColumn))

/-- Joins the dimension that a hop leads to, unless it is part of the SELECT. -/
def addHop (catalog : Catalog) (database : Database) (joins : Joins) (hop : Hop) :
    Result Joins := do
  if joins.joined.contains hop.dimension then pure joins
  else
    let dimension ← catalog.node hop.dimension
    let relation ← relationOf catalog database dimension none
    match joins.select.sources.getD [] with
    | [] => .error (.invalidSql .noFromClause)
    | first :: rest =>
      let join : Join := { kind := .inner, relation, on := some (joins.condition hop) }
      let sources := attach (joins.names.nameOf hop.source) join (first :: rest)
      pure
        { joins with
          select := { joins.select with sources := some sources }
          joined := hop.dimension :: joins.joined }

/-- Joins along a path up to the first hop that fails, and how it fails. -/
def along (catalog : Catalog) (database : Database) : List Hop → Joins → Joins × Option Error
  | [], joins => (joins, none)
  | hop :: path, joins =>
    match joins.addHop catalog database hop with
    | .ok next => along catalog database path next
    | .error error => (joins, some error)

/-- Joins along a whole path. -/
def addPath (catalog : Catalog) (database : Database) (joins : Joins) (path : List Hop) :
    Result Joins :=
  match joins.along catalog database path with
  | (all, none) => .ok all
  | (_, some error) => .error error

end Joins
end SemanticLayer.Planner
