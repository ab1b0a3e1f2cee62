import SemanticLayer.Planner.MetricQuery
import SemanticLayer.Proofs.Outcomes

/-!
# Plans

What happens on the way to a query that is compiled: every step of the planner for nodes and of the
rewriter of SQL over metrics, with what it gave.
-/

namespace SemanticLayer.Planner

open SemanticLayer.Sql
open Catalog (Node Hop References)

/-- The names that a query for a node asks for, each one once and in order. -/
def askedNames (groupBys : List String) (filters : List Filter) : List String :=
  Catalog.sortedSet (groupBys ++ filters.map Filter.name)

/-- The steps of a query for a node before its database is chosen. -/
structure NodeStart (catalog : Catalog) (node : Node) (groupBys filters : List String) where
  parsed : List Filter
  parses : filters.mapM Filter.ofText = .ok parsed
  valid : checkDimensions catalog node (askedNames groupBys parsed) = .ok ()
  references : References
  refers : catalog.nodeReferences node = .ok references
  demand : Demand
  paths : List (List Hop)
  demands : (askedNames groupBys parsed).foldlM (demandDimension catalog node (catalog.roots node))
    ({ nodes := catalog.roots node, references }, []) = .ok (demand, paths)

/-- The steps of a query for a node. -/
structure NodePlan (catalog : Catalog) (node : Node) (groupBys filters : List String)
    (requested : Option Int) (compiled : Compiled)
    extends NodeStart catalog node groupBys filters where
  chooses : (if (askedNames groupBys parsed).isEmpty then { demand with nodes := [node] }
    else demand).database catalog requested = .ok compiled.database
  query : Query
  computes : queryOf catalog compiled.database node (askedNames groupBys parsed).isEmpty = .ok query
  names : NodeNames
  calls : namesInQuery catalog node query = .ok names
  joins : Joins
  joined : paths.foldlM (Joins.addPath catalog compiled.database)
    (Joins.start query.select names) = .ok joins
  restricted : Select
  restricts : parsed.foldlM (addFilter names) joins.select = .ok restricted
  select : Select
  groups : groupBys.foldlM (addGroupBy names) restricted = .ok select
  compiles : compiled.query = { query with select }

/-- A query that is compiled for a node was planned. -/
theorem nonempty_nodePlan
    {catalog : Catalog} {node : Node} {groupBys filters : List String} {requested : Option Int}
    {compiled : Compiled} (done : nodeQuery catalog node groupBys filters requested = .ok compiled) :
    Nonempty (NodePlan catalog node groupBys filters requested compiled) := by
  obtain ⟨parsed, parses, rest⟩ := Result.bind_eq_ok.1 done
  obtain ⟨_, valid, rest⟩ := Result.bind_eq_ok.1 rest
  obtain ⟨references, refers, rest⟩ := Result.bind_eq_ok.1 rest
  obtain ⟨⟨demand, paths⟩, demands, rest⟩ := Result.bind_eq_ok.1 rest
  obtain ⟨database, chooses, rest⟩ := Result.bind_eq_ok.1 rest
  obtain ⟨query, computes, rest⟩ := Result.bind_eq_ok.1 rest
  obtain ⟨names, calls, rest⟩ := Result.bind_eq_ok.1 rest
  obtain ⟨joins, joined, rest⟩ := Result.bind_eq_ok.1 rest
  obtain ⟨restricted, restricts, rest⟩ := Result.bind_eq_ok.1 rest
  obtain ⟨select, groups, rest⟩ := Result.bind_eq_ok.1 rest
  cases Result.pure_eq_ok.1 rest
  exact ⟨{ parsed, parses, valid, references, refers, demand, paths, demands, chooses, query,
           computes, names, calls, joins, joined, restricted, restricts, select, groups
           compiles := rfl }⟩

/-- A SELECT over metrics with the items of its projection, before it has a FROM. -/
def withItems (select : Select) (items : Items) : Select :=
  replaceInSelect items.metrics { select with projection := items.projection, sources := none }

/-- What a query over metrics is about, in messages. -/
def subjectName (items : Items) : String :=
  (items.metrics.head?.map fun metric => metric.node.name).getD metricsTable

/-- The steps of SQL over metrics before a database is chosen. -/
structure MetricStart (catalog : Catalog) (sql : String) where
  query : Query
  reads : Query.ofText sql none = .ok query
  alone : query.ctes = []
  overMetrics : checkSources query.select = .ok ()
  items : Items
  finds : query.select.projection.foldlM (Items.add catalog) {} = .ok items
  agree : checkParents items.metrics = .ok ()
  sources : Option (List Source)
  scope : Scope
  scopes : scopeOf catalog items.metrics (withItems query.select items) = .ok (sources, scope)
  references : References
  refers : metricReferences catalog items.metrics = .ok references
  select : Select
  found : Found
  resolves : ({ withItems query.select items with sources }.mapExprsM
    (Expr.mapColumnsM (resolveColumn catalog scope))).run { references } = .ok (select, found)
  demand : Demand
  paths : List (List Hop)
  demands : found.joined.foldlM (demandJoin catalog (subjectName items) scope.parents)
    ({ nodes := scope.parents, references := found.references }, []) = .ok (demand, paths)

/-- The steps of SQL over metrics. -/
structure MetricPlan (catalog : Catalog) (sql : String) (requested : Option Int)
    (compiled : Compiled) extends MetricStart catalog sql where
  chooses : demand.database catalog requested = .ok compiled.database
  joins : Joins
  joined : paths.foldlM (Joins.addPath catalog compiled.database)
    (Joins.start select scope.names) = .ok joins
  bound : Select
  binds : bindRelations (relationOf catalog compiled.database) joins.select scope.parents = .ok bound
  compiles : compiled.query = { query with select := bound }

/-- SQL over metrics that is compiled was planned. -/
theorem nonempty_metricPlan
    {catalog : Catalog} {sql : String} {requested : Option Int} {compiled : Compiled}
    (done : metricQuery catalog sql requested = .ok compiled) :
    Nonempty (MetricPlan catalog sql requested compiled) := by
  obtain ⟨query, reads, rest⟩ := Result.bind_eq_ok.1 done
  by_cases alone : query.ctes = []
  · simp only [alone, List.isEmpty_nil, Bool.not_true, Bool.false_eq_true, if_false] at rest
    obtain ⟨_, overMetrics, rest⟩ := Result.bind_eq_ok.1 rest
    obtain ⟨items, finds, rest⟩ := Result.bind_eq_ok.1 rest
    obtain ⟨_, agree, rest⟩ := Result.bind_eq_ok.1 rest
    obtain ⟨⟨sources, scope⟩, scopes, rest⟩ := Result.bind_eq_ok.1 rest
    obtain ⟨references, refers, rest⟩ := Result.bind_eq_ok.1 rest
    obtain ⟨⟨select, found⟩, resolves, rest⟩ := Result.bind_eq_ok.1 rest
    obtain ⟨⟨demand, paths⟩, demands, rest⟩ := Result.bind_eq_ok.1 rest
    obtain ⟨database, chooses, rest⟩ := Result.bind_eq_ok.1 rest
    obtain ⟨joins, joined, rest⟩ := Result.bind_eq_ok.1 rest
    obtain ⟨bound, binds, rest⟩ := Result.bind_eq_ok.1 rest
    cases Result.pure_eq_ok.1 rest
    exact ⟨{ query, reads, alone, overMetrics, items, finds, agree, sources, scope, scopes,
             references, refers, select, found, resolves, demand, paths, demands, chooses, joins,
             joined, bound, binds, compiles := by rw [alone] }⟩
  · have some : query.ctes.isEmpty = false := by simpa using alone
    simp only [some, Bool.not_false, if_true] at rest
    cases rest

/-- The steps of the query that an expression makes of parents. -/
structure ExpressionPlan (catalog : Catalog) (bind : Node → Option Name → Result Relation)
    (node : Node) (query : Query) where
  text : String
  expression : node.expression = some text
  written : Query
  reads : Query.ofText text none = .ok written
  qualified : Select
  owned : qualifyColumns written.select (catalog.parents node) = .ok qualified
  bound : Select
  binds : bindRelations bind qualified (catalog.parents node) = .ok bound
  compiles : query = { written with select := bound }

/-- An expression that is compiled was planned. -/
theorem nonempty_expressionPlan
    {catalog : Catalog} {bind : Node → Option Name → Result Relation} {node : Node} {query : Query}
    (done : expressionQuery catalog bind node = .ok query) :
    Nonempty (ExpressionPlan catalog bind node query) := by
  rw [expressionQuery] at done
  split at done
  next => cases done
  next text expression =>
    obtain ⟨written, reads, rest⟩ := Result.bind_eq_ok.1 done
    obtain ⟨qualified, owned, rest⟩ := Result.bind_eq_ok.1 rest
    obtain ⟨bound, binds, last⟩ := Result.bind_eq_ok.1 rest
    exact ⟨{ text, expression, written, reads, qualified, owned, bound, binds
             compiles := (Result.pure_eq_ok.1 last).symm }⟩

end SemanticLayer.Planner
