import SemanticLayer.Planner.NodeQuery

/-!
# Queries over metrics

SQL over the table `metrics` selects metrics and dimensions by their names. A metric stands for
what its expression computes, a dimension for a column that is joined, and FROM becomes that of the
metric.
-/

namespace SemanticLayer.Planner

open SemanticLayer.Sql
open SemanticLayer.Catalog (Node)

/-- The table that metrics are selected from. -/
def metricsTable : String := "metrics"

/-- What a metric computes, what it computes it from, and the names its parents go by there. -/
structure Metric where
  node : Node
  expr : Expr
  sources : Option (List Source)
  names : NodeNames

namespace Metric

/-- The metric of a node, the columns of its expression with their owners. -/
def ofNode (catalog : Catalog) (node : Node) : Result Metric := do
  match node.expression with
  | none => .error (.notAMetric node.name)
  | some expression => do
    let query ← Query.ofText expression none
    let parents := catalog.parents node
    let select ← qualifyColumns query.select parents
    match select.projection with
    | [] => .error (.invalidSql (.noProjection node.name))
    | first :: _ =>
      pure
        { node, expr := first.unaliased, sources := select.sources
          names := NodeNames.ofSelect query.select parents }

/-- A column with the name that its owner goes by in `target` instead of the one in `own`. -/
def renameOwner (own target : NodeNames) (column : Column) : Column :=
  let owner? := column.qualifierName?.bind fun qualifier =>
    (own.find? fun entry => entry.2.value == qualifier || entry.1 == qualifier).bind fun entry =>
      target.get? entry.1
  match owner? with
  | some owner => { column with table := some { name := owner }, path := none }
  | none => column

/-- The metric with the names that its parents go by in `target`. -/
def renameOwners (target : NodeNames) (metric : Metric) : Metric :=
  { metric with expr := metric.expr.mapColumns (renameOwner metric.names target) }

/-- The parents by name, in order and without repetitions. -/
def parentSet (metric : Metric) : List String :=
  Catalog.sortedSet metric.node.parents

end Metric

/-! ## The table of metrics -/

/-- Whether entries of FROM are the table of metrics alone. -/
def isMetricsTable : List Source → Bool
  | [{ primary := .table table, joins := [] }] =>
    table.path.isNone && table.name.value == metricsTable
  | _ => false

/-- Refuses a FROM clause that is not the table of metrics. -/
def checkSources (select : Select) : Result Unit :=
  match select.sources with
  | none => .ok ()
  | some sources =>
    if isMetricsTable sources then .ok ()
    else
      let text := Tokens.text .standard (commaSeparated (sourcesTokens .standard sources))
      .error (.notImplemented ("FROM " ++ text))

/-! ## Metrics of the projection -/

/-- The items of a projection read so far, and the metrics among them. -/
structure Items where
  projection : List Expr := []
  metrics : List Metric := []

namespace Items

/-- The names that the parents go by: those of the first metric. -/
def names (items : Items) (metric : Metric) : NodeNames :=
  match items.metrics with
  | first :: _ => first.names
  | [] => metric.names

/-- The alias of an item, if it has one, and what it is the alias of. -/
def splitAlias : Expr → Option Name × Expr
  | .aliased name child => (some name, child)
  | other => (none, other)

/-- The node that an item names. -/
def nodeOf? (catalog : Catalog) : Expr → Option Node
  | .column column => if column.table.isNone then catalog.node? column.fullName else none
  | _ => none

/-- One more item. A metric gets its name as alias, if it has no other. -/
def add (catalog : Catalog) (items : Items) (item : Expr) : Result Items := do
  let (aliasName, inner) := splitAlias item
  match inner, nodeOf? catalog inner with
  | .wildcard _, _ => .error (.notImplemented "SELECT *")
  | _, none => pure { items with projection := items.projection ++ [item] }
  | _, some node =>
    if node.isMetric then do
      let metric ← Metric.ofNode catalog node
      let metric := metric.renameOwners (items.names metric)
      let named := Expr.aliased (aliasName.getD { value := node.name }) metric.expr
      pure
        { projection := items.projection ++ [named], metrics := items.metrics ++ [metric] }
    else .error (.notAMetric node.name)

end Items

/-- Refuses metrics whose parents differ. -/
def checkParents : List Metric → Result Unit
  | [] => .ok ()
  | first :: rest =>
    if rest.all fun metric => metric.parentSet == first.parentSet then .ok ()
    else .error .parentMismatch

/-- What a column stands for that names one of some metrics. A column stands for itself. -/
def metricExpr (metrics : List Metric) : Expr → Option Expr
  | .column column =>
    let metric? :=
      if column.table.isNone then
        metrics.reverse.find? fun metric => metric.node.name == column.fullName
      else none
    some ((metric?.map Metric.expr).getD (.column column))
  | _ => none

/-- An expression in which metrics stand for what they compute. -/
def replaceMetrics (metrics : List Metric) (expr : Expr) : Expr :=
  (Expr.rewriteM (m := Id) (fun inner => pure (metricExpr metrics inner)) expr).run

/-- A SELECT whose filter of groups and ordering say what metrics compute. -/
def replaceInSelect (metrics : List Metric) (select : Select) : Select :=
  { select with
    having := select.having.map (replaceMetrics metrics)
    orderBy := select.orderBy.map fun ordering =>
      { ordering with expr := replaceMetrics metrics ordering.expr } }

/-! ## Dimensions -/

/-- The node and the column that a column without a table names, in a path or by a name with a
dot. -/
def nodeAndColumn? (column : Column) : Option (String × String) :=
  match column.path with
  | some path => some (path.dotted, column.name.value)
  | none => Text.splitLastDot? column.name.value

/-- The nodes that the columns of a SELECT name, in order. -/
def namedNodes (select : Select) : List String :=
  let columns := (select.exprs.flatMap Expr.columns).filter fun column => column.table.isNone
  Catalog.sortedSet ((columns.filterMap nodeAndColumn?).map Prod.fst)

/-- The node of a name in SQL. -/
def identifiedNode (catalog : Catalog) (name : String) : Result Node :=
  match catalog.node? name with
  | some node => .ok node
  | none => .error (.invalidIdentifier name)

/-- The one node that a SELECT without metrics is about, if any. -/
def subject? (catalog : Catalog) (select : Select) : Result (Option Node) := do
  match ← (namedNodes select).mapM (identifiedNode catalog) with
  | [] => pure none
  | [node] => pure (some node)
  | _ => .error .multipleDimensions

/-- What columns can refer to: the nodes in FROM and their names, the dimensions that can be joined,
and the aliases of the projection. -/
structure Scope where
  parents : List Node := []
  names : NodeNames := []
  dimensions : List String := []
  aliases : List String := []

/-- What the columns of a SELECT were found to refer to: their demand, and the dimensions to join,
in the order they were met. -/
structure Found where
  references : Catalog.References
  joined : List String := []

/-- The name of the relation that a column belongs to, and whether that is a dimension to join. -/
def owner (catalog : Catalog) (scope : Scope) (node column : String) : Result (Name × Bool) :=
  let fullName := Text.dotted [node, column]
  match scope.parents.find? fun parent => parent.name == node with
  | some parent =>
    if !parent.columns.isEmpty && !parent.hasColumn column then
      .error (.invalidDimensions [fullName])
    else .ok (scope.names.nameOf node, false)
  | none =>
    if scope.dimensions.contains fullName then .ok ({ value := node }, true)
    else if catalog.contains node then .error (.invalidDimensions [fullName])
    else .error (.invalidIdentifier node)

/-- A column with its owner. A column of a table and an alias of the projection stay as they are. -/
def resolveColumn (catalog : Catalog) (scope : Scope) (column : Column) :
    StateT Found (Except Error) Column := do
  let isAlias := column.path.isNone && scope.aliases.contains column.name.value
  if column.table.isSome || isAlias then pure column
  else
    match nodeAndColumn? column with
    | none => throw (.invalidIdentifier column.name.value)
    | some (node, name) => do
      let (owner, isJoined) ← owner catalog scope node name
      modify fun found =>
        { references := found.references.add node name
          joined :=
            if isJoined && !found.joined.contains node then found.joined ++ [node]
            else found.joined }
      pure
        { name := if column.path.isNone then { value := name } else column.name
          table := some { name := owner } }

/-- The FROM clause of a SELECT over metrics, and what its columns can refer to. -/
def scopeOf (catalog : Catalog) (metrics : List Metric) (select : Select) :
    Result (Option (List Source) × Scope) := do
  let aliases := (select.projection.filterMap Expr.aliasName?).map Name.value
  match metrics with
  | metric :: _ => do
    let dimensions ← catalog.dimensions metric.node
    let parents := catalog.parents metric.node
    let names := NodeNames.ofSelect { select with sources := metric.sources } parents
    pure (metric.sources, { parents, names, dimensions, aliases })
  | [] => do
    match ← subject? catalog select with
    | some node =>
      let sources := some [{ primary := .table { name := { value := node.name } } }]
      let names := NodeNames.ofSelect { select with sources } [node]
      pure (sources, { parents := [node], names, aliases })
    | none => pure (none, { aliases })

/-- The columns that metrics take from their parents. -/
def metricReferences (catalog : Catalog) (metrics : List Metric) : Result Catalog.References :=
  metrics.foldlM (fun references metric => do
    let found ← catalog.nodeReferences metric.node
    pure (references.merge found)) []

/-- The demand of a dimension that is joined, and the path to it. -/
def demandJoin (catalog : Catalog) (subject : String) (start : List Node)
    (found : Demand × List (List Catalog.Hop)) (dimension : String) :
    Result (Demand × List (List Catalog.Hop)) := do
  match catalog.dimensionPath start dimension with
  | none => .error (.noDimensionLink subject dimension)
  | some path => do
    let demand ← found.1.addPath catalog path
    pure (demand, found.2 ++ [path])

/-- The query that SQL over metrics stands for, in the requested database or the cheapest one. -/
def metricQuery (catalog : Catalog) (sql : String) (requested : Option Int) : Result Compiled := do
  let query ← Query.ofText sql none
  if !query.ctes.isEmpty then throw (.notImplemented "WITH")
  checkSources query.select
  let items ← query.select.projection.foldlM (Items.add catalog) {}
  checkParents items.metrics
  let select := replaceInSelect items.metrics
    { query.select with projection := items.projection, sources := none }
  let (sources, scope) ← scopeOf catalog items.metrics select
  let references ← metricReferences catalog items.metrics
  let (select, found) ←
    ({ select with sources }.mapExprsM
      (Expr.mapColumnsM (resolveColumn catalog scope))).run { references }
  let subject := (items.metrics.head?.map fun metric => metric.node.name).getD metricsTable
  let (demand, paths) ← found.joined.foldlM (demandJoin catalog subject scope.parents)
    ({ nodes := scope.parents, references := found.references }, [])
  let database ← demand.database catalog requested
  let joins ← paths.foldlM (Joins.addPath catalog database) (Joins.start select scope.names)
  let bound ← bindRelations (relationOf catalog database) joins.select scope.parents
  pure { database, query := { query with select := bound } }

end SemanticLayer.Planner
