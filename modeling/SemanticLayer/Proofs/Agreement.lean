import SemanticLayer.Proofs.Binding
import SemanticLayer.Proofs.Plans
import SemanticLayer.Proofs.Values

/-!
# The two ways to ask for a metric

A metric can be computed by dimensions as a node, or selected from the table of metrics with SQL.
-/

namespace SemanticLayer.Planner

open SemanticLayer.Sql
open Catalog (Node Database Hop References)

/-! ## Requests -/

/-- A name in double quotes. -/
def quoted (text : String) : Name :=
  { value := text, quote := some '"' }

/-- The column that SQL over metrics writes for a dimension, node and column in double quotes. -/
def requestColumn (name : String) : Column :=
  match Text.splitLastDot? name with
  | some (node, column) => { name := quoted column, path := some [quoted node] }
  | none => { name := quoted name }

/-- A metric by dimensions, selected from the table of metrics and grouped by the dimensions. -/
def metricRequest (metric : String) (names : List String) : Query :=
  let dimensions := names.map fun name => Expr.column (requestColumn name)
  { select :=
      { projection := .column { name := quoted metric } :: dimensions
        sources := some [{ primary := .table { name := { value := metricsTable } } }]
        groupBy := dimensions } }

/-- The columns that expressions are, if all of them are columns. -/
def columns? : List Expr → Option (List Column)
  | [] => some []
  | .column first :: rest => (columns? rest).map (first :: ·)
  | _ :: _ => none

theorem eq_map_of_columns? {exprs : List Expr} {columns : List Column}
    (found : columns? exprs = some columns) : exprs = columns.map .column := by
  induction exprs generalizing columns with
  | nil =>
      cases found
      rfl
  | cons expr rest ih =>
      cases expr with
      | column first =>
          obtain ⟨others, later, rfl⟩ := Option.map_eq_some_iff.1 found
          rw [List.map_cons, ih later]
      | _ => cases found

/-- Whether a query is a metric by dimensions. -/
def isMetricRequest (metric : String) (names : List String) : Query → Bool
  | ⟨[], ⟨false, projection, some [⟨.table table, []⟩], none, groupBy, none, [], none, none⟩⟩ =>
    decide (columns? projection = some ({ name := quoted metric } :: names.map requestColumn)) &&
      decide (table = { name := { value := metricsTable } }) &&
      decide (columns? groupBy = some (names.map requestColumn))
  | _ => false

theorem eq_metricRequest {metric : String} {names : List String} {query : Query}
    (found : isMetricRequest metric names query = true) : query = metricRequest metric names := by
  unfold isMetricRequest at found
  split at found
  next projection table groupBy =>
    simp only [Bool.and_eq_true, decide_eq_true_eq] at found
    obtain ⟨⟨items, rfl⟩, groups⟩ := found
    rw [eq_map_of_columns? items, eq_map_of_columns? groups, metricRequest]
    simp only [List.map_cons, List.map_map]
    rfl
  next => cases found

variable {catalog : Catalog} {name node column : String}

theorem requestColumn_of_split (split : Text.splitLastDot? name = some (node, column)) :
    requestColumn name = { name := quoted column, path := some [quoted node] } := by
  rw [requestColumn, split]

theorem fullName_requestColumn (split : Text.splitLastDot? name = some (node, column)) :
    (requestColumn name).fullName = name := by
  rw [requestColumn_of_split split, ← Text.dotted_of_splitLastDot? split]
  rfl

/-! ## The query for the node -/

/-- The columns of some dimensions, by the names that their nodes go by. -/
def dimensionColumns (names : NodeNames) (pairs : List (String × String)) : List Column :=
  pairs.map fun pair => columnOf (names.nameOf pair.1) pair.2

/-- Every dimension is shown and grouped by once. -/
theorem select_of_addGroupBys
    {nodeNames : NodeNames} {names : List String} {pairs : List (String × String)}
    {start final : Select} (splits : names.map Text.splitLastDot? = pairs.map some)
    (done : names.foldlM (addGroupBy nodeNames) start = .ok final) :
    final =
      { start with
        projection := ((dimensionColumns nodeNames pairs).map Expr.column).foldl addOnce
          start.projection
        groupBy := ((dimensionColumns nodeNames pairs).map Expr.column).foldl addOnce
          start.groupBy } := by
  induction names generalizing start pairs with
  | nil =>
      cases List.map_eq_nil_iff.1 splits.symm
      cases Result.pure_eq_ok.1 done
      cases final
      rfl
  | cons name names ih =>
      obtain ⟨pair, others, rfl, split, splits⟩ := List.map_eq_cons_iff.1 splits.symm
      rw [List.foldlM_cons, Result.bind_eq_ok] at done
      obtain ⟨next, step, later⟩ := done
      rw [addGroupBy, splitName, ← split] at step
      cases Result.pure_eq_ok.1 step
      have rest := ih splits.symm later
      exact rest

/-! ## The query for the SQL -/

/-- Items that name no node are kept as they are. -/
theorem items_of_dimensions
    {names : List String} {pairs : List (String × String)} {items after : Items}
    (splits : names.map Text.splitLastDot? = pairs.map some)
    (unknown : ∀ name ∈ names, catalog.node? name = none)
    (done : (names.map fun name => Expr.column (requestColumn name)).foldlM (Items.add catalog)
      items = .ok after) :
    after =
      { items with
        projection := items.projection ++ names.map fun name => .column (requestColumn name) } := by
  induction names generalizing items pairs with
  | nil =>
      cases Result.pure_eq_ok.1 done
      simp
  | cons name names ih =>
      obtain ⟨⟨node, column⟩, others, rfl, split, splits⟩ := List.map_eq_cons_iff.1 splits.symm
      rw [List.map_cons, List.foldlM_cons, Result.bind_eq_ok] at done
      obtain ⟨next, step, later⟩ := done
      have none : Items.nodeOf? catalog (.column (requestColumn name)) = none := by
        rw [Items.nodeOf?, fullName_requestColumn split.symm, unknown name List.mem_cons_self]
        simp
      rw [Items.add] at step
      simp only [Items.splitAlias, none] at step
      cases Result.pure_eq_ok.1 step
      rw [ih splits.symm (fun other member => unknown other (List.mem_cons_of_mem name member)) later]
      simp

/-- A column of a table stays as it is. -/
theorem resolveColumn_of_table {scope : Scope} {column : Column} (owned : column.table.isSome) :
    resolveColumn catalog scope column = pure column := by
  simp [resolveColumn, owned]

/-- The owner of a column is called as its node is, and is joined unless it is a parent. -/
theorem owner_eq_ok {scope : Scope} {found : Name × Bool} (proper : scope.names.For scope.parents)
    (done : owner catalog scope node column = .ok found) :
    found = (scope.names.nameOf node, !isStart scope.parents node) := by
  rw [owner] at done
  split at done
  next parent known =>
    have start : isStart scope.parents node = true := by
      rw [isStart, List.any_eq_true]
      exact ⟨parent, List.mem_of_find?_eq_some known, by simpa using List.find?_some known⟩
    split at done
    · cases done
    · cases done
      rw [start]
      rfl
  next unknown =>
    have absent : ∀ parent ∈ scope.parents, parent.name ≠ node := by
      intro parent member same
      exact List.find?_eq_none.1 unknown parent member (beq_iff_eq.2 same)
    have start : isStart scope.parents node = false := by
      rw [isStart, List.any_eq_false]
      intro parent member
      simpa using absent parent member
    split at done
    · cases done
      rw [start, proper.nameOf_of_not_mem absent]
      rfl
    · split at done
      · cases done
      · cases done

/-- What the columns of a request were found to refer to, with one more column. -/
def Found.refer (parents : List Node) (found : Found) (pair : String × String) : Found :=
  { references := found.references.add pair.1 pair.2
    joined := if isStart parents pair.1 then found.joined else Joins.meet found.joined pair.1 }

/-- A dimension of a request gets the name that its node goes by as owner. Its column is demanded,
and its node is joined unless it is a parent. -/
theorem run_resolveColumn_requestColumn
    {scope : Scope} {found : Found} {result : Column × Found}
    (proper : scope.names.For scope.parents)
    (split : Text.splitLastDot? name = some (node, column))
    (done : (resolveColumn catalog scope (requestColumn name)).run found = .ok result) :
    result =
      ({ name := quoted column, table := some { name := scope.names.nameOf node } },
        found.refer scope.parents (node, column)) := by
  rw [requestColumn_of_split split] at done
  simp only [resolveColumn, Option.isNone_some, Bool.false_and, Option.isSome_none,
    Bool.false_eq_true, if_false, Bool.or_self, nodeAndColumn?] at done
  cases known : owner catalog scope (Path.dotted [quoted node]) (quoted column).value with
  | error failure =>
      rw [known] at done
      cases done
  | ok owned =>
      rw [known] at done
      have called : owned = (scope.names.nameOf node, !isStart scope.parents node) :=
        owner_eq_ok proper known
      cases called
      cases done
      cases start : isStart scope.parents node with
      | true => simp [Found.refer, start, Path.dotted, Text.dotted, quoted]
      | false => simp [Found.refer, Joins.meet, start, Path.dotted, Text.dotted, quoted]

/-- Dimensions with their owners, as SQL over metrics writes them. -/
def ownedColumns (names : NodeNames) (pairs : List (String × String)) : List Column :=
  pairs.map fun pair =>
    { name := quoted pair.2, table := some { name := names.nameOf pair.1 } }

/-- The dimensions of a request get their owners one after the other. -/
theorem run_resolve_dimensions
    {scope : Scope} {names : List String} {pairs : List (String × String)} {found : Found}
    {result : List Expr × Found} (proper : scope.names.For scope.parents)
    (splits : names.map Text.splitLastDot? = pairs.map some)
    (done : ((names.map fun name => Expr.column (requestColumn name)).mapM
      (Expr.mapColumnsM (resolveColumn catalog scope))).run found = .ok result) :
    result =
      ((ownedColumns scope.names pairs).map Expr.column,
        pairs.foldl (Found.refer scope.parents) found) := by
  induction names generalizing pairs found result with
  | nil =>
      cases List.map_eq_nil_iff.1 splits.symm
      cases Result.pure_eq_ok.1 done
      rfl
  | cons name names ih =>
      obtain ⟨⟨node, column⟩, others, rfl, split, splits⟩ := List.map_eq_cons_iff.1 splits.symm
      rw [List.map_cons, List.mapM_cons, StateT.run_bind, Result.bind_eq_ok] at done
      obtain ⟨⟨first, next⟩, step, rest⟩ := done
      rw [StateT.run_bind, Result.bind_eq_ok] at rest
      obtain ⟨⟨more, last⟩, later, same⟩ := rest
      cases Result.pure_eq_ok.1 same
      rw [Expr.mapColumnsM, StateT.run_bind, Result.bind_eq_ok] at step
      obtain ⟨⟨resolved, state⟩, inner, same⟩ := step
      cases Result.pure_eq_ok.1 same
      cases run_resolveColumn_requestColumn proper split.symm inner
      cases ih splits.symm later
      rfl

/-- What columns refer to does not depend on what was joined before. -/
theorem references_foldl_refer {parents : List Node} {pairs : List (String × String)}
    (found : Found) :
    (pairs.foldl (Found.refer parents) found).references =
      pairs.foldl (fun all pair => all.add pair.1 pair.2) found.references := by
  induction pairs generalizing found with
  | nil => rfl
  | cons pair rest ih => exact ih (found.refer parents pair)

/-- The dimensions that are joined, each one where it was first met. -/
theorem joined_foldl_refer {parents : List Node} {pairs : List (String × String)}
    (found : Found) :
    (pairs.foldl (Found.refer parents) found).joined =
      ((pairs.map Prod.fst).filter fun name => !isStart parents name).foldl Joins.meet
        found.joined := by
  induction pairs generalizing found with
  | nil => rfl
  | cons pair rest ih =>
      rw [List.foldl_cons, ih, List.map_cons, Found.refer]
      cases start : isStart parents pair.1 with
      | true => simp [start]
      | false => simp [start]

/-- A SELECT with nothing but a projection and groups is resolved in that order. -/
theorem run_mapExprsM
    {change : Expr → StateT Found Result Expr} {select : Select} {start : Found}
    {result : Select × Found} (filter : select.filter = none) (having : select.having = none)
    (orderBy : select.orderBy = []) (done : (select.mapExprsM change).run start = .ok result) :
    ∃ projection middle groupBy, (select.projection.mapM change).run start = .ok (projection, middle) ∧
      (select.groupBy.mapM change).run middle = .ok (groupBy, result.2) ∧
      result.1 = { select with projection, groupBy } := by
  simp only [Select.mapExprsM, filter, having, orderBy, Option.mapM_none, List.mapM_nil,
    pure_bind] at done
  rw [StateT.run_bind, Result.bind_eq_ok] at done
  obtain ⟨⟨projection, middle⟩, first, rest⟩ := done
  rw [StateT.run_bind, Result.bind_eq_ok] at rest
  obtain ⟨⟨groupBy, last⟩, second, same⟩ := rest
  cases Result.pure_eq_ok.1 same
  exact ⟨projection, middle, groupBy, first, second, by rw [filter, having, orderBy]⟩

/-! ## What a metric is made of -/

/-- A metric, its expression as it is written, the SELECT of that with the owners of its columns,
and the one item that it projects. -/
structure ProjectsOne (catalog : Catalog) (node : Node) (written : Query) (select : Select)
    (item : Expr) : Prop where
  known : catalog.node? node.name = some node
  metric : node.isMetric = true
  derived : node.parents ≠ []
  reads : ∃ expression, node.expression = some expression ∧
    Query.ofText expression none = .ok written
  owned : qualifyColumns written.select (catalog.parents node) = .ok select
  one : select.projection = [item]

/-- The names that the parents of a metric go by in its expression. -/
def parentNames (catalog : Catalog) (node : Node) (written : Query) : NodeNames :=
  NodeNames.ofSelect written.select (catalog.parents node)

/-- What a metric computes, its parents under the names that they go by. -/
def metricItem (names : NodeNames) (item : Expr) : Expr :=
  item.unaliased.mapColumns (Metric.renameOwner names names)

variable {metric : Node} {written : Query} {select : Select} {item : Expr}

theorem ProjectsOne.ofNode (projects : ProjectsOne catalog metric written select item) :
    Metric.ofNode catalog metric = .ok
      { node := metric, expr := item.unaliased, sources := select.sources
        names := parentNames catalog metric written } := by
  obtain ⟨expression, text, reads⟩ := projects.reads
  rw [Metric.ofNode, text]
  simp only [reads, bind, Except.bind, projects.owned, projects.one]
  rfl

/-- The one metric of a request. -/
def soleMetric (catalog : Catalog) (metric : Node) (written : Query) (select : Select)
    (item : Expr) : Metric :=
  { node := metric, expr := metricItem (parentNames catalog metric written) item
    sources := select.sources, names := parentNames catalog metric written }

/-- The request names one metric, by its name. -/
theorem ProjectsOne.items
    (projects : ProjectsOne catalog metric written select item) {names : List String}
    {pairs : List (String × String)} {items : Items}
    (splits : names.map Text.splitLastDot? = pairs.map some)
    (unknown : ∀ name ∈ names, catalog.node? name = none)
    (done : (metricRequest metric.name names).select.projection.foldlM (Items.add catalog) {} =
      .ok items) :
    items =
      { projection := .aliased { value := metric.name }
          (metricItem (parentNames catalog metric written) item) ::
            names.map fun name => .column (requestColumn name)
        metrics := [soleMetric catalog metric written select item] } := by
  rw [metricRequest, List.foldlM_cons, Result.bind_eq_ok] at done
  obtain ⟨next, step, later⟩ := done
  have found : Items.nodeOf? catalog (.column { name := quoted metric.name }) = some metric :=
    projects.known
  rw [Items.add] at step
  simp only [Items.splitAlias, found, projects.metric, if_true, projects.ofNode] at step
  cases step
  exact items_of_dimensions splits unknown later

/-- A metric is selected from what its expression selects from. -/
theorem ProjectsOne.scope
    (projects : ProjectsOne catalog metric written select item) {request : Select}
    {sources : Option (List Source)} {scope : Scope}
    (done : scopeOf catalog [soleMetric catalog metric written select item] request =
      .ok (sources, scope)) :
    sources = select.sources ∧ scope.parents = catalog.parents metric ∧
      scope.names = parentNames catalog metric written := by
  obtain ⟨dimensions, _, last⟩ := Result.bind_eq_ok.1 done
  cases Result.pure_eq_ok.1 last
  refine ⟨rfl, rfl, NodeNames.ofSelect_congr ?_⟩
  rw [← relations_of_qualifyColumns projects.owned]
  exact Select.relations_congr rfl

/-- The metrics of a request take what the one metric takes from its parents. -/
theorem references_of_soleMetric {references : References}
    (done : metricReferences catalog [soleMetric catalog metric written select item] =
      .ok references) :
    ∃ used, catalog.nodeReferences metric = .ok used ∧ references = References.merge [] used := by
  obtain ⟨merged, step, last⟩ := Result.bind_eq_ok.1 done
  cases Result.pure_eq_ok.1 last
  obtain ⟨used, uses, same⟩ := Result.bind_eq_ok.1 step
  cases Result.pure_eq_ok.1 same
  exact ⟨used, uses, rfl⟩

/-- The column belongs to a parent in FROM, called by its name or by the one it goes by. -/
def OwnedByParent (names : NodeNames) (column : Column) : Prop :=
  ∃ entry ∈ names, column.qualifierName? = some entry.2.value ∨
    column.qualifierName? = some entry.1

instance (names : NodeNames) (column : Column) : Decidable (OwnedByParent names column) :=
  inferInstanceAs (Decidable (∃ entry ∈ names, _))

theorem table_renameOwner {names : NodeNames} {column : Column}
    (owned : OwnedByParent names column) :
    (Metric.renameOwner names names column).table.isSome := by
  obtain ⟨entry, member, called⟩ := owned
  have qualified : ∃ qualifier, column.qualifierName? = some qualifier ∧
      (entry.2.value = qualifier ∨ entry.1 = qualifier) := by
    rcases called with goesBy | own
    · exact ⟨_, goesBy, .inl rfl⟩
    · exact ⟨_, own, .inr rfl⟩
  obtain ⟨qualifier, known, called⟩ := qualified
  have some : (names.find? fun entry => entry.2.value == qualifier || entry.1 == qualifier).isSome := by
    rw [List.find?_isSome]
    exact ⟨entry, member, by simpa using called⟩
  obtain ⟨first, found⟩ := Option.isSome_iff_exists.1 some
  obtain ⟨owner, goesBy⟩ :=
    Option.isSome_iff_exists.1 (NodeNames.get?_of_mem (List.mem_of_find?_eq_some found))
  rw [Metric.renameOwner, known]
  simp only [Option.bind_some, found, goesBy]
  rfl

/-- An item whose columns belong to parents is resolved already. -/
theorem mapColumnsM_resolveColumn_metricItem {names : NodeNames} {scope : Scope} (name : Name)
    (owned : ∀ column ∈ item.columns, OwnedByParent names column) :
    Expr.mapColumnsM (resolveColumn catalog scope) (.aliased name (metricItem names item)) =
      pure (.aliased name (metricItem names item)) := by
  apply Expr.mapColumnsM_eq_pure
  intro column member
  rw [Expr.columns, metricItem, Expr.columns_mapColumns, Expr.columns_unaliased] at member
  obtain ⟨written, there, rfl⟩ := List.mem_map.1 member
  exact resolveColumn_of_table (table_renameOwner (owned written there))

/-- The SELECT of a request that dimensions are joined to. -/
def resolvedSelect (metric : Node) (names : NodeNames) (item : Expr)
    (pairs : List (String × String)) (sources : Option (List Source)) : Select :=
  let dimensions := (ownedColumns names pairs).map Expr.column
  { projection := .aliased { value := metric.name } (metricItem names item) :: dimensions
    sources
    groupBy := dimensions }

/-- In a request the columns of the metric are resolved already, and dimensions are met twice. -/
theorem run_resolve_request
    (metric : Node) (sources : Option (List Source)) {scope : Scope} {names : List String}
    {pairs : List (String × String)} {request : Select} {start : Found} {result : Select × Found}
    (proper : scope.names.For scope.parents)
    (splits : names.map Text.splitLastDot? = pairs.map some)
    (owned : ∀ column ∈ item.columns, OwnedByParent scope.names column)
    (shape : request =
      { projection := .aliased { value := metric.name } (metricItem scope.names item) ::
          names.map fun name => Expr.column (requestColumn name)
        sources
        groupBy := names.map fun name => Expr.column (requestColumn name) })
    (done : (request.mapExprsM (Expr.mapColumnsM (resolveColumn catalog scope))).run start =
      .ok result) :
    result =
      (resolvedSelect metric scope.names item pairs sources,
        (pairs ++ pairs).foldl (Found.refer scope.parents) start) := by
  subst shape
  obtain ⟨projection, middle, groupBy, first, second, same⟩ := run_mapExprsM rfl rfl rfl done
  rw [List.mapM_cons, mapColumnsM_resolveColumn_metricItem _ owned, pure_bind,
    StateT.run_bind, Result.bind_eq_ok] at first
  obtain ⟨⟨rest, state⟩, later, last⟩ := first
  cases Result.pure_eq_ok.1 last
  cases run_resolve_dimensions proper splits later
  have groups := run_resolve_dimensions proper splits second
  obtain ⟨selected, found⟩ := result
  cases groups
  cases same
  rw [List.foldl_append]
  rfl

/-! ## The same database -/

/-- The dimensions that have to be joined, as often as they are asked for. -/
def joinedDimensions (parents : List Node) (pairs : List (String × String)) : List String :=
  (pairs.map Prod.fst).filter fun name => !isStart parents name

/-- Meeting the dimensions a second time changes nothing. -/
theorem joined_of_request {parents : List Node} {pairs : List (String × String)}
    (references : References) :
    ((pairs ++ pairs).foldl (Found.refer parents) { references }).joined =
      (joinedDimensions parents pairs).foldl Joins.meet [] := by
  rw [joined_foldl_refer, List.map_append, List.filter_append, List.foldl_append]
  apply Joins.foldl_meet_of_subset
  intro dimension member
  exact Joins.mem_foldl_meet.2 (.inr member)

/-- The columns of a request are added to the demand. -/
theorem extends_addPairs {nodes : List Node} {references : References}
    (pairs : List (String × String)) (sound : Demand.Sound catalog { nodes, references }) :
    Demand.Extends catalog [] pairs { nodes, references }
      { nodes, references := pairs.foldl (fun all pair => all.add pair.1 pair.2) references } := by
  induction pairs generalizing references with
  | nil => exact sound.extends_self
  | cons pair rest ih =>
      have here := sound.extends_addColumn pair.1 pair.2
      exact here.trans (ih here.sound)

/-- Paths to the same dimensions are made of the same hops. -/
theorem mem_flatten_of_ways
    {start : List Node} {dimensions others : List String} {paths more : List (List Hop)}
    (ways : dimensions.map (catalog.dimensionPath start) = paths.map some)
    (waysToo : others.map (catalog.dimensionPath start) = more.map some)
    (same : ∀ dimension, dimension ∈ dimensions ↔ dimension ∈ others) (hop : Hop) :
    hop ∈ paths.flatten ↔ hop ∈ more.flatten := by
  have listed (names : List String) (found : List (List Hop))
      (ways : names.map (catalog.dimensionPath start) = found.map some) (path : List Hop) :
      path ∈ found ↔ ∃ name ∈ names, catalog.dimensionPath start name = some path := by
    have member : path ∈ found ↔ some path ∈ found.map some := by simp
    rw [member, ← ways, List.mem_map]
  simp only [List.mem_flatten, listed _ _ ways, listed _ _ waysToo, same]

/-! ## The same SELECT -/

/-- The metric's own SELECT restates nothing but its item: it has no clause that the rewriter drops,
its groups are the first dimensions of the request, no dimension is shown twice, and columns are
written with the names that parents go by. -/
structure Restates (names : NodeNames) (select : Select) (pairs : List (String × String)) :
    Prop where
  distinct : select.distinct = false
  filter : select.filter = none
  having : select.having = none
  orderBy : select.orderBy = []
  limit : select.limit = none
  offset : select.offset = none
  owners : ∀ item ∈ select.projection, ∀ column ∈ item.columns,
    (Metric.renameOwner names names column == column) = true
  groups : select.groupBy.map Expr.byValue <+:
    ((dimensionColumns names pairs).map Expr.column).map Expr.byValue
  apart : ((select.projection ++ (dimensionColumns names pairs).map Expr.column).map
    Expr.byValue).Nodup

theorem byValue_ownedColumns (names : NodeNames) (pairs : List (String × String)) :
    ((ownedColumns names pairs).map Expr.column).map Expr.byValue =
      ((dimensionColumns names pairs).map Expr.column).map Expr.byValue := by
  simp only [ownedColumns, dimensionColumns, List.map_map]
  rfl

theorem map_unaliased_columns (columns : List Column) :
    (columns.map Expr.column).map (fun item => item.unaliased.byValue) =
      (columns.map Expr.column).map Expr.byValue := by
  simp only [List.map_map]
  rfl

/-- The SELECT for the node, its FROM apart. -/
def plannedSelect (names : NodeNames) (select : Select) (pairs : List (String × String))
    (sources : Option (List Source)) : Select :=
  let dimensions := (dimensionColumns names pairs).map Expr.column
  { select with
    projection := dimensions.foldl addOnce select.projection
    sources
    groupBy := dimensions.foldl addOnce select.groupBy }

/-- The two projections are the same just if the item is, and nothing is shown twice. -/
theorem projections_eq_iff {names : NodeNames} {pairs : List (String × String)} :
    (((dimensionColumns names pairs).map Expr.column).foldl addOnce [item]).map
          (fun item => item.unaliased.byValue) =
        (metricItem names item).byValue ::
          ((dimensionColumns names pairs).map Expr.column).map Expr.byValue ↔
      (∀ column ∈ item.columns, (Metric.renameOwner names names column == column) = true) ∧
        (([item] ++ (dimensionColumns names pairs).map Expr.column).map Expr.byValue).Nodup := by
  have owners : (metricItem names item).byValue = item.unaliased.byValue ↔
      ∀ column ∈ item.columns, (Metric.renameOwner names names column == column) = true := by
    rw [metricItem, Expr.byValue_mapColumns_eq_iff, Expr.columns_unaliased]
  rw [← owners]
  constructor
  · intro same
    have apart : (([item] ++ (dimensionColumns names pairs).map Expr.column).map
        Expr.byValue).Nodup := by
      apply nodup_of_length_foldl_addOnce (by simp)
      have length := congrArg List.length same
      simp only [List.length_map, List.length_cons] at length
      rw [length, List.length_singleton, Nat.add_comm]
    rw [foldl_addOnce_of_nodup apart, List.singleton_append, List.map_cons, List.cons.injEq] at same
    exact ⟨same.1.symm, apart⟩
  · rintro ⟨same, apart⟩
    rw [foldl_addOnce_of_nodup apart, List.singleton_append, List.map_cons,
      map_unaliased_columns, same]

/-- The two ways give the same SELECT just if the metric restates nothing but its item. -/
theorem byValue_plannedSelect_iff
    {names : NodeNames} {pairs : List (String × String)} {sources : Option (List Source)}
    (one : select.projection = [item]) :
    (plannedSelect names select pairs sources).byValue =
        (resolvedSelect metric names item pairs sources).byValue ↔
      Restates names select pairs := by
  have whole : (plannedSelect names select pairs sources).byValue =
        (resolvedSelect metric names item pairs sources).byValue ↔
      select.distinct = false ∧
      (((dimensionColumns names pairs).map Expr.column).foldl addOnce [item]).map
          (fun item => item.unaliased.byValue) =
        (metricItem names item).byValue ::
          ((dimensionColumns names pairs).map Expr.column).map Expr.byValue ∧
      select.filter = none ∧
      (((dimensionColumns names pairs).map Expr.column).foldl addOnce select.groupBy).map
          Expr.byValue =
        ((dimensionColumns names pairs).map Expr.column).map Expr.byValue ∧
      select.having = none ∧ select.orderBy = [] ∧ select.limit = none ∧ select.offset = none := by
    simp only [Select.byValue, plannedSelect, resolvedSelect, one, Select.mk.injEq, List.map_cons,
      map_unaliased_columns, byValue_ownedColumns, Option.map_none, Option.map_eq_none_iff,
      List.map_nil, List.map_eq_nil_iff, Expr.unaliased_aliased, true_and]
  rw [whole, projections_eq_iff]
  constructor
  · rintro ⟨distinct, ⟨owners, apart⟩, filter, groups, having, orderBy, limit, offset⟩
    have dimensions : (((dimensionColumns names pairs).map Expr.column).map Expr.byValue).Nodup := by
      rw [List.singleton_append, List.map_cons] at apart
      exact (List.nodup_cons.1 apart).2
    refine ⟨distinct, filter, having, orderBy, limit, offset, ?_,
      (foldl_addOnce_eq_iff_isPrefixOf dimensions).1 groups, by rwa [one]⟩
    rw [one]
    intro only member
    cases List.mem_singleton.1 member
    exact owners
  · intro restates
    have apart := restates.apart
    rw [one] at apart
    have dimensions : (((dimensionColumns names pairs).map Expr.column).map Expr.byValue).Nodup := by
      rw [List.singleton_append, List.map_cons] at apart
      exact (List.nodup_cons.1 apart).2
    exact ⟨restates.distinct, ⟨restates.owners item (by simp [one]), apart⟩, restates.filter,
      (foldl_addOnce_eq_iff_isPrefixOf dimensions).2 restates.groups, restates.having,
      restates.orderBy, restates.limit, restates.offset⟩

/-! ## The two plans -/

variable {names : List String} {requested : Option Int} {compiled : Compiled}

theorem ProjectsOne.roots (projects : ProjectsOne catalog metric written select item) :
    catalog.roots metric = catalog.parents metric := by
  rw [Catalog.roots, if_neg (by simpa using projects.derived)]

/-- A request in order asks for its names as they are. -/
theorem NodePlan.asked (plan : NodePlan catalog metric names [] requested compiled)
    (sorted : names.Pairwise (· < ·)) : askedNames names plan.parsed = names := by
  have parsed : plan.parsed = [] := (Result.pure_eq_ok.1 plan.parses).symm
  rw [parsed, askedNames, List.map_nil, List.append_nil, Catalog.sortedSet_of_sorted sorted]

/-- The query for a metric starts from its SELECT with the parents bound. -/
theorem ProjectsOne.computes
    (projects : ProjectsOne catalog metric written select item)
    (plan : NodePlan catalog metric names [] requested compiled)
    (sorted : names.Pairwise (· < ·)) (some : names ≠ []) :
    ∃ bound, bindRelations (relationOf catalog compiled.database) select (catalog.parents metric) =
        .ok bound ∧ plan.query = { written with select := bound } ∧
      plan.names = parentNames catalog metric written := by
  obtain ⟨expression, text, reads⟩ := projects.reads
  have computes := plan.computes
  have stored : names.isEmpty = false := by simpa using some
  rw [plan.asked sorted, stored, queryOf, text, Option.isNone_some, Bool.or_self,
    if_neg Bool.false_ne_true] at computes
  rw [expressionQuery, text] at computes
  obtain ⟨read, first, rest⟩ := Result.bind_eq_ok.1 computes
  cases Except.ok.inj (first.symm.trans reads)
  obtain ⟨qualified, owners, rest⟩ := Result.bind_eq_ok.1 rest
  cases Except.ok.inj (owners.symm.trans projects.owned)
  obtain ⟨bound, binds, last⟩ := Result.bind_eq_ok.1 rest
  refine ⟨bound, binds, (Result.pure_eq_ok.1 last).symm, ?_⟩
  have calls := plan.calls
  rw [namesInQuery, text] at calls
  obtain ⟨again, second, last⟩ := Result.bind_eq_ok.1 calls
  cases Except.ok.inj (second.symm.trans reads)
  exact (Result.pure_eq_ok.1 last).symm

/-- The database has the parents, the dimensions on the paths, and what is taken from them. -/
theorem ProjectsOne.demands
    (projects : ProjectsOne catalog metric written select item)
    (plan : NodePlan catalog metric names [] requested compiled)
    (sorted : names.Pairwise (· < ·)) :
    ∃ pairs references, names.map Text.splitLastDot? = pairs.map some ∧
      catalog.nodeReferences metric = .ok references ∧
      (joinedDimensions (catalog.parents metric) pairs).map
        (catalog.dimensionPath (catalog.parents metric)) = plan.paths.map some ∧
      Demand.Extends catalog plan.paths.flatten pairs
        { nodes := catalog.parents metric, references } plan.demand := by
  have demands := plan.demands
  rw [plan.asked sorted, projects.roots] at demands
  have sound : Demand.Sound catalog
      { nodes := catalog.parents metric, references := plan.references } :=
    ⟨Catalog.ordered_nodeReferences plan.refers, named_parents metric⟩
  obtain ⟨pairs, more, splits, all, ways, extended⟩ := extends_demandDimensions sound demands
  rw [List.nil_append] at all
  rw [← all] at ways extended
  exact ⟨pairs, plan.references, splits, plan.refers, ways, extended⟩

/-- Names that keep the two ways apart from accidents: no node is called like a requested column,
the item takes its columns from parents in FROM, an entry of FROM holds the same names once parents
are bound, and no dimension has a table that is called like a parent. -/
structure WellNamed (catalog : Catalog) (metric : Node) (written : Query) (select : Select)
    (names : List String) : Prop where
  dimensions : ∀ name ∈ names, catalog.node? name = none
  columns : ∀ item ∈ select.projection, ∀ column ∈ item.columns,
    OwnedByParent (parentNames catalog metric written) column
  entries : (select.sources.getD []).length ≤ 1 ∨
    ∀ relation ∈ select.relations, PlainlyNamed (catalog.parents metric) relation
  tables : ∀ node ∈ catalog.nodes, (∀ parent ∈ catalog.parents metric, parent.name ≠ node.name) →
    ∀ table ∈ node.tables, ∀ parent ∈ catalog.parents metric,
      parent.name ≠ table.toTable.fullName

/-- Dimensions on a path from the parents are bound to themselves. -/
theorem WellNamed.fixed {written : Query} {database : Database}
    (wellNamed : WellNamed catalog metric written select names)
    {dimension : String} {path : List Hop}
    (way : catalog.dimensionPath (catalog.parents metric) dimension = some path) :
    ∀ hop ∈ path, ∀ node relation, catalog.node hop.dimension = .ok node →
      relationOf catalog database node none = .ok relation →
        bindRelation (relationOf catalog database) (catalog.parents metric) relation =
          .ok relation := by
  intro hop member node relation found related
  apply bindRelation_relationOf _ related
  have known : catalog.node? hop.dimension = some node := by
    rw [Catalog.node] at found
    split at found
    · cases found
      assumption
    · cases found
  apply wellNamed.tables node (List.mem_of_find?_eq_some known)
  intro parent there same
  apply Catalog.avoids_dimensionPath way hop member
  rw [← Demand.name_of_node? known, ← same]
  exact List.mem_map_of_mem there

/-- What the rewriter makes of a request, before dimensions are joined. -/
theorem ProjectsOne.rewrites
    {sql : String} (projects : ProjectsOne catalog metric written select item)
    (request : Query.ofText sql none = .ok (metricRequest metric.name names))
    (wellNamed : WellNamed catalog metric written select names)
    {pairs : List (String × String)} (splits : names.map Text.splitLastDot? = pairs.map some)
    (plan : MetricPlan catalog sql requested compiled) :
    plan.scope.parents = catalog.parents metric ∧
      plan.scope.names = parentNames catalog metric written ∧
      (∃ used, catalog.nodeReferences metric = .ok used ∧
        plan.references = References.merge [] used) ∧
      plan.select =
        resolvedSelect metric (parentNames catalog metric written) item pairs select.sources ∧
      plan.found = (pairs ++ pairs).foldl (Found.refer (catalog.parents metric))
        { references := plan.references } := by
  have read : plan.query = metricRequest metric.name names :=
    Except.ok.inj (plan.reads.symm.trans request)
  have items := projects.items splits wellNamed.dimensions (read ▸ plan.finds)
  have metrics : plan.items.metrics = [soleMetric catalog metric written select item] := by
    rw [items]
  obtain ⟨sources, parents, called⟩ := projects.scope (metrics ▸ plan.scopes)
  refine ⟨parents, called, references_of_soleMetric (metrics ▸ plan.refers), ?_⟩
  have proper : plan.scope.names.For plan.scope.parents := by
    rw [called, parents]
    exact NodeNames.for_ofSelect written.select (catalog.parents metric)
  have owned : ∀ column ∈ item.columns, OwnedByParent plan.scope.names column := by
    rw [called]
    exact wellNamed.columns item (by simp [projects.one])
  have resolved := run_resolve_request metric plan.sources proper splits owned
    (by rw [read, items, called]; rfl) plan.resolves
  rw [called, parents, sources] at resolved
  exact Prod.mk.inj resolved

/-- The rewriter demands every column twice, and every path once. -/
theorem ProjectsOne.redemands
    {sql : String} (projects : ProjectsOne catalog metric written select item)
    (request : Query.ofText sql none = .ok (metricRequest metric.name names))
    (wellNamed : WellNamed catalog metric written select names)
    {pairs : List (String × String)} (splits : names.map Text.splitLastDot? = pairs.map some)
    (plan : MetricPlan catalog sql requested compiled) :
    ∃ used, catalog.nodeReferences metric = .ok used ∧
      ((joinedDimensions (catalog.parents metric) pairs).foldl Joins.meet []).map
        (catalog.dimensionPath (catalog.parents metric)) = plan.paths.map some ∧
      Demand.Extends catalog plan.paths.flatten (pairs ++ pairs)
        { nodes := catalog.parents metric, references := References.merge [] used }
        plan.demand := by
  obtain ⟨parents, _, ⟨used, uses, merged⟩, _, found⟩ :=
    projects.rewrites request wellNamed splits plan
  have none : References.Ordered [] := List.Pairwise.nil
  have ordered := (none.merge (Catalog.ordered_nodeReferences uses)).1
  have sound : Demand.Sound catalog
      { nodes := catalog.parents metric, references := References.merge [] used } :=
    ⟨ordered, named_parents metric⟩
  have columns := extends_addPairs (pairs ++ pairs) sound
  have demands := plan.demands
  rw [parents, found, references_foldl_refer, joined_of_request, merged] at demands
  obtain ⟨more, all, ways, joins⟩ := extends_demandJoins columns.sound demands
  rw [List.nil_append] at all
  rw [← all] at ways joins
  have both := columns.trans joins
  rw [List.nil_append, List.append_nil] at both
  exact ⟨used, uses, ways, both⟩

/-- Both ways demand the same of the database. -/
theorem ProjectsOne.same_database
    {sql : String} {rewritten : Compiled}
    (projects : ProjectsOne catalog metric written select item)
    (some : names ≠ []) (sorted : names.Pairwise (· < ·))
    (request : Query.ofText sql none = .ok (metricRequest metric.name names))
    (wellNamed : WellNamed catalog metric written select names)
    (plan : NodePlan catalog metric names [] requested compiled)
    (other : MetricPlan catalog sql requested rewritten) :
    compiled.database = rewritten.database := by
  obtain ⟨pairs, references, splits, refers, ways, extended⟩ := projects.demands plan sorted
  obtain ⟨used, uses, waysToo, extendedToo⟩ := projects.redemands request wellNamed splits other
  cases Except.ok.inj (uses.symm.trans refers)
  have none : References.Ordered [] := List.Pairwise.nil
  have members := (none.merge (Catalog.ordered_nodeReferences refers)).2
  have nonempty : names.isEmpty = false := by simpa using some
  have chooses := plan.chooses
  rw [plan.asked sorted, nonempty, if_neg Bool.false_ne_true] at chooses
  apply Demand.database_congr extended extendedToo _ _ _ _ chooses other.chooses
  · intro node
    rfl
  · intro node name
    rw [members]
    simp [References.of]
  · apply mem_flatten_of_ways ways waysToo
    intro dimension
    rw [Joins.mem_foldl_meet]
    simp
  · intro pair
    simp

/-- Both ways join the same dimensions in the same places. -/
theorem ProjectsOne.same_selects
    {sql : String} {rewritten : Compiled}
    (projects : ProjectsOne catalog metric written select item)
    (some : names ≠ []) (sorted : names.Pairwise (· < ·))
    (request : Query.ofText sql none = .ok (metricRequest metric.name names))
    (wellNamed : WellNamed catalog metric written select names)
    (plan : NodePlan catalog metric names [] requested compiled)
    (other : MetricPlan catalog sql requested rewritten) :
    ∃ pairs sources, names.map Text.splitLastDot? = pairs.map Option.some ∧
      compiled.query.select =
        plannedSelect (parentNames catalog metric written) select pairs sources ∧
      rewritten.query.select =
        resolvedSelect metric (parentNames catalog metric written) item pairs sources := by
  obtain ⟨pairs, references, splits, refers, ways, extended⟩ := projects.demands plan sorted
  obtain ⟨bound, binds, query, called⟩ := projects.computes plan sorted some
  obtain ⟨parents, calledToo, _, shape, _⟩ := projects.rewrites request wellNamed splits other
  obtain ⟨_, _, waysToo, _⟩ := projects.redemands request wellNamed splits other
  -- the planner may as well join along the paths of the rewriter, which come once each
  have joined := plan.joined
  rw [query, called] at joined
  obtain ⟨fresh, met, runs⟩ := Joins.exists_fresh_of_addPaths [] (by simp) ways joined
  rw [met, List.nil_append] at waysToo
  have once := runs other.paths waysToo
  -- and joining before the parents are bound mirrors joining afterwards
  obtain ⟨bound_eq, related⟩ := binds_of_bindRelations wellNamed.entries binds
  have mirrors : Joins.Mirrors (bindRelation (relationOf catalog compiled.database)
      (catalog.parents metric)) (Joins.start other.select other.scope.names)
      (Joins.start bound (parentNames catalog metric written)) := by
    refine ⟨calledToo, by rw [calledToo]; rfl, ?_⟩
    rw [shape]
    exact related
  have fixed : ∀ path ∈ other.paths, ∀ hop ∈ path, ∀ node relation,
      catalog.node hop.dimension = .ok node →
        relationOf catalog compiled.database node none = .ok relation →
          bindRelation (relationOf catalog compiled.database) (catalog.parents metric) relation =
            .ok relation := by
    intro path member
    have way : Option.some path ∈ other.paths.map Option.some := List.mem_map_of_mem member
    rw [← waysToo] at way
    obtain ⟨dimension, _, found⟩ := List.mem_map.1 way
    exact wellNamed.fixed found
  obtain ⟨next, runsToo, mirrored⟩ := mirrors.addPaths fixed once
  have joinedToo := other.joined
  rw [← projects.same_database some sorted request wellNamed plan other, runsToo] at joinedToo
  cases joinedToo
  refine ⟨pairs, plan.joins.select.sources, splits, ?_, ?_⟩
  · have parsed : plan.parsed = [] := (Result.pure_eq_ok.1 plan.parses).symm
    have restricts := plan.restricts
    rw [parsed] at restricts
    have kept : plan.joins.select = plan.restricted := Result.pure_eq_ok.1 restricts
    have start := Joins.select_of_addPaths joined
    have groups := select_of_addGroupBys splits plan.groups
    rw [plan.compiles, groups, ← kept, start, called]
    rw [bound_eq]
    rfl
  · have binds := other.binds
    rw [← projects.same_database some sorted request wellNamed plan other, parents] at binds
    have last := Except.ok.inj (binds.symm.trans mirrored.mapRelationsM)
    have start := Joins.select_of_addPaths runsToo
    rw [other.compiles, last, start]
    show Joins.withSources (Joins.withSources other.select _) _ = _
    rw [shape]
    rfl

/-- A metric by dimensions and the same metric selected with SQL are computed in the same database,
and by the same SELECT just if the metric's own SELECT restates nothing but its item. -/
theorem planners_agree_iff
    {sql : String} {rewritten : Compiled}
    (projects : ProjectsOne catalog metric written select item)
    (some : names ≠ []) (sorted : names.Pairwise (· < ·))
    (request : Query.ofText sql none = .ok (metricRequest metric.name names))
    (wellNamed : WellNamed catalog metric written select names)
    (planned : nodeQuery catalog metric names [] requested = .ok compiled)
    (selected : metricQuery catalog sql requested = .ok rewritten) :
    compiled.database = rewritten.database ∧
      (compiled.query.select.byValue = rewritten.query.select.byValue ↔
        Restates (parentNames catalog metric written) select
          (names.filterMap Text.splitLastDot?)) := by
  obtain ⟨plan⟩ := nonempty_nodePlan planned
  obtain ⟨other⟩ := nonempty_metricPlan selected
  obtain ⟨pairs, sources, splits, here, there⟩ :=
    projects.same_selects some sorted request wellNamed plan other
  have listed : names.filterMap Text.splitLastDot? = pairs := by
    have same := congrArg (List.filterMap id) splits
    rwa [List.filterMap_map, List.filterMap_map, Function.id_comp, Function.id_comp,
      List.filterMap_some] at same
  rw [listed, here, there]
  exact ⟨projects.same_database some sorted request wellNamed plan other,
    byValue_plannedSelect_iff projects.one⟩

/-- The sum over orders that are paid. -/
def paidExpression : String :=
  "SELECT SUM(amount) FROM orders WHERE status = 'paid'"

/-- The revenue from orders that are paid. -/
def paidRevenue : Node :=
  { name := "revenue", kind := .metric, parents := ["orders"], expression := some paidExpression }

/-- Orders in a database, and the revenue from them. -/
def shop : Catalog :=
  { databases := [{ id := 1, name := "a", uri := "duckdb://x" }]
    nodes :=
      [{ name := "orders", kind := .source, columns := [{ name := "amount" }, { name := "status" }]
         tables := [{ database := 1, table := "orders" }] }, paidRevenue] }

/-- The revenue by status, selected with SQL. -/
def revenueByStatus : String :=
  "SELECT \"revenue\", \"orders\".\"status\" FROM metrics GROUP BY \"orders\".\"status\""

/-- The expression of the revenue as it is read, and its SELECT with the owners of columns. -/
def paidQuery : Query :=
  (Query.ofText paidExpression none).toOption.getD default

def paidSelect : Select :=
  (qualifyColumns paidQuery.select (shop.parents paidRevenue)).toOption.getD default

/-- Selected with SQL, the revenue from paid orders is that from all orders. -/
theorem planners_disagree_on_paidRevenue :
    ∃ compiled rewritten, nodeQuery shop paidRevenue ["orders.status"] [] none = .ok compiled ∧
      metricQuery shop revenueByStatus none = .ok rewritten ∧
      compiled.database = rewritten.database ∧
      compiled.query.select.byValue ≠ rewritten.query.select.byValue := by
  obtain ⟨compiled, planned⟩ := Result.exists_eq_ok
    (by decide +kernel : (nodeQuery shop paidRevenue ["orders.status"] [] none).toOption.isSome)
  obtain ⟨rewritten, selected⟩ := Result.exists_eq_ok
    (by decide +kernel : (metricQuery shop revenueByStatus none).toOption.isSome)
  have reads : Query.ofText paidExpression none = .ok paidQuery :=
    Result.eq_ok_getD default (by decide +kernel)
  have owned : qualifyColumns paidQuery.select (shop.parents paidRevenue) = .ok paidSelect :=
    Result.eq_ok_getD default (by decide +kernel)
  obtain ⟨item, one⟩ := List.length_eq_one_iff.1 (by decide +kernel : paidSelect.projection.length = 1)
  have projects : ProjectsOne shop paidRevenue paidQuery paidSelect item :=
    ⟨by decide +kernel, by decide, by decide, ⟨paidExpression, rfl, reads⟩, owned, one⟩
  have wellNamed : WellNamed shop paidRevenue paidQuery paidSelect ["orders.status"] :=
    ⟨by decide +kernel, by decide +kernel, .inl (by decide +kernel), by decide +kernel⟩
  have request : Query.ofText revenueByStatus none =
      .ok (metricRequest paidRevenue.name ["orders.status"]) := by
    rw [Result.eq_ok_getD default (by decide +kernel :
      (Query.ofText revenueByStatus none).toOption.isSome)]
    exact congrArg Except.ok (eq_metricRequest (by decide +kernel))
  obtain ⟨same, agree⟩ := planners_agree_iff projects (by decide) (by decide) request wellNamed
    planned selected
  refine ⟨compiled, rewritten, planned, selected, same, fun equal => ?_⟩
  have filter := (agree.1 equal).filter
  have restricted : paidSelect.filter.isSome := by decide +kernel
  rw [filter] at restricted
  cases restricted

end SemanticLayer.Planner
