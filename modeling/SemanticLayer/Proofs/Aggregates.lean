import SemanticLayer.Proofs.Physical

/-!
# Metrics that filter and order groups

A metric that HAVING or ORDER BY names is put there as the projection shows it, if the projection
selects it. A metric that is not selected is taken for any other column, so a bare name is refused:
the table of what names stand for is made of the projection alone.
-/

namespace SemanticLayer

namespace Sql

/-- The expressions that say which groups are shown, and in which order. -/
def Select.arranging (select : Select) : List Expr :=
  select.having.toList ++ select.orderBy.map Ordering.expr

/-- An ordering by an expression with expressions put for its columns. -/
def Ordering.substitute (stands : Column → Expr) (ordering : Ordering) : Ordering :=
  { ordering with expr := ordering.expr.substitute stands }

end Sql

namespace Planner

open SemanticLayer.Sql
open Catalog (Node)

variable {catalog : Catalog} {sql : String} {logical : Logical}

/-! ## Selected metrics -/

/-- The nodes that the items of a projection name. -/
def selectedNodes (catalog : Catalog) (projection : List Expr) : List Node :=
  projection.filterMap fun item => Items.nodeOf? catalog (Items.splitAlias item).2

/-- Every item that names a node is read as a metric of that node, in order. -/
theorem Items.nodes_of_adds {written : List Expr} {items after : Items}
    (done : written.foldlM (Items.add catalog) items = .ok after) :
    after.metrics.map Metric.node =
      items.metrics.map Metric.node ++ selectedNodes catalog written := by
  induction written generalizing items with
  | nil =>
      cases Result.pure_eq_ok.1 done
      exact (List.append_nil _).symm
  | cons item rest ih =>
      rw [List.foldlM_cons, Result.bind_eq_ok] at done
      obtain ⟨next, step, later⟩ := done
      rw [ih later]
      rcases Items.add_cases step with ⟨unnamed, rfl⟩ | ⟨node, own, name, named, _, made, rfl⟩
      · have skipped : selectedNodes catalog (item :: rest) = selectedNodes catalog rest :=
          List.filterMap_cons_none unnamed
        rw [skipped]
      · have taken : selectedNodes catalog (item :: rest) = node :: selectedNodes catalog rest :=
          List.filterMap_cons_some named
        obtain ⟨made⟩ := Metric.nonempty_of made
        rw [taken, List.map_append, List.append_assoc, ← made.isOf]
        rfl

/-- Every metric is shown under an alias. -/
theorem Items.shown_of_adds {written : List Expr} {items : Items}
    (done : written.foldlM (Items.add catalog) {} = .ok items) :
    ∀ metric ∈ items.metrics, ∃ name, .aliased name metric.expr ∈ items.projection := by
  refine Result.foldlM_induction (fun items : Items =>
    ∀ metric ∈ items.metrics, ∃ name, .aliased name metric.expr ∈ items.projection)
    (fun _ none => (List.not_mem_nil none).elim) ?_ done
  intro item _ before after shown step metric member
  rcases Items.add_cases step with ⟨_, rfl⟩ | ⟨_, own, name, _, _, _, rfl⟩
  · exact (shown metric member).imp fun _ => List.mem_append_left _
  · rcases List.mem_append.1 member with earlier | last
    · exact (shown metric earlier).imp fun _ => List.mem_append_left _
    · cases List.mem_singleton.1 last
      exact ⟨name, List.mem_append_right _ List.mem_cons_self⟩

/-- The metrics of SQL over metrics are those of the selected nodes. -/
theorem Logical.Of.nodes (begun : logical.Of catalog sql) :
    logical.items.metrics.map Metric.node =
      selectedNodes catalog logical.query.select.projection :=
  Items.nodes_of_adds begun.finds

theorem node?_of_mem_selectedNodes {projection : List Expr} {node : Node}
    (selected : node ∈ selectedNodes catalog projection) : catalog.node? node.name = some node := by
  obtain ⟨_, _, named⟩ := List.mem_filterMap.1 selected
  exact Items.node?_of_nodeOf? named

section

variable {column : Column} {node : Node}

/-- A column that names a selected metric is found. -/
theorem Logical.Of.namedMetric?_eq_some (begun : logical.Of catalog sql) (bare : column.table = none)
    (known : catalog.node? column.fullName = some node)
    (selected : node ∈ selectedNodes catalog logical.query.select.projection) :
    ∃ metric, namedMetric? logical.items.metrics column = some metric ∧ metric.node = node := by
  have called := (Catalog.mem_of_node? known).2
  have some : (namedMetric? logical.items.metrics column).isSome := by
    rw [← begun.nodes] at selected
    obtain ⟨metric, isMetric, rfl⟩ := List.mem_map.1 selected
    rw [namedMetric?, bare, if_pos (by rfl), List.find?_isSome]
    exact ⟨metric, List.mem_reverse.2 isMetric, beq_iff_eq.2 called⟩
  obtain ⟨metric, named⟩ := Option.isSome_iff_exists.1 some
  obtain ⟨isMetric, same⟩ := mem_of_namedMetric? named
  have isNode : catalog.node? metric.node.name = Option.some metric.node :=
    node?_of_mem_selectedNodes (begun.nodes ▸ List.mem_map_of_mem isMetric)
  rw [same, known] at isNode
  exact ⟨metric, named, (Option.some.inj isNode).symm⟩

/-- A column that names a metric which is not selected is not found. -/
theorem Logical.Of.namedMetric?_eq_none (begun : logical.Of catalog sql)
    (known : catalog.node? column.fullName = some node)
    (unselected : node ∉ selectedNodes catalog logical.query.select.projection) :
    namedMetric? logical.items.metrics column = none := by
  cases named : namedMetric? logical.items.metrics column with
  | none => rfl
  | some metric =>
      obtain ⟨isMetric, same⟩ := mem_of_namedMetric? named
      have among : metric.node ∈ selectedNodes catalog logical.query.select.projection :=
        begun.nodes ▸ List.mem_map_of_mem isMetric
      have isNode := node?_of_mem_selectedNodes among
      rw [same, known] at isNode
      exact (unselected (Option.some.inj isNode ▸ among)).elim

end

/-! ## What names stand for -/

/-- What a column of HAVING or ORDER BY stands for, unless it is refused: what a selected metric of
that name computes, or else the column, with columns resolved. -/
def Logical.meaning (catalog : Catalog) (logical : Logical) (column : Column) : Result Expr :=
  Expr.mapColumnsM (ownedColumn catalog logical.scope) (metricFor logical.items.metrics column)

/-- A walk that succeeds on an expression succeeds on what is put for each of its columns. -/
theorem exists_carried {change : Column → Result Column} {stands : Column → Expr}
    {expr after : Expr} (done : Expr.mapColumnsM change (expr.substitute stands) = .ok after)
    {column : Column} (member : column ∈ expr.columns) :
    Expr.mapColumnsM change (stands column) = .ok (Expr.carried change stands column) := by
  have each := Expr.columns_of_mapColumnsM done
  rw [Expr.columns_substitute, Expr.columnsPut] at each
  have never : (Expr.mapColumnsM change (stands column)).FailsWith fun _ => False := by
    refine Expr.mapColumnsM_failsWith fun inner inside failure failed => ?_
    obtain ⟨_, _, changed⟩ :=
      Result.exists_result_of_forall₂ each (List.mem_flatMap.2 ⟨column, member, inside⟩)
    rw [failed] at changed
    cases changed
  obtain ⟨walked, here⟩ := never.exists_ok
  rw [Expr.carried, here]
  rfl

section

variable {change : Column → Result Column} {stands : Column → Expr}

theorem having_of_carried {expr? after : Option Expr}
    (done : (expr?.map (Expr.substitute stands)).mapM (Expr.mapColumnsM change) = .ok after) :
    after = expr?.map (Expr.substitute (Expr.carried change stands)) ∧
      ∀ expr ∈ expr?, ∃ walked, Expr.mapColumnsM change (expr.substitute stands) = .ok walked := by
  cases expr? with
  | none =>
      cases Result.pure_eq_ok.1 done
      exact ⟨rfl, nofun⟩
  | some expr =>
      obtain ⟨walked, here, rfl⟩ := Result.map_eq_ok.1 done
      refine ⟨congrArg some (Expr.substitute_of_mapColumnsM expr here), ?_⟩
      rintro _ ⟨⟩
      exact ⟨walked, here⟩

theorem orderBy_of_carried {orderings after : List Sql.Ordering}
    (done : (orderings.map (Ordering.substitute stands)).mapM (fun ordering => do
      pure { ordering with expr := ← Expr.mapColumnsM change ordering.expr }) = .ok after) :
    after = orderings.map (Ordering.substitute (Expr.carried change stands)) ∧
      ∀ ordering ∈ orderings,
        ∃ walked, Expr.mapColumnsM change (ordering.expr.substitute stands) = .ok walked := by
  induction orderings generalizing after with
  | nil =>
      cases Result.pure_eq_ok.1 done
      exact ⟨rfl, nofun⟩
  | cons ordering rest ih =>
      rw [List.map_cons, List.mapM_cons, Result.bind_eq_ok] at done
      obtain ⟨first, here, others⟩ := done
      obtain ⟨walked, changed, same⟩ := Result.bind_eq_ok.1 here
      obtain ⟨later, step, last⟩ := Result.bind_eq_ok.1 others
      cases Result.pure_eq_ok.1 same
      cases Result.pure_eq_ok.1 last
      obtain ⟨rfl, each⟩ := ih step
      obtain rfl := Expr.substitute_of_mapColumnsM ordering.expr changed
      exact ⟨rfl, List.forall_mem_cons.2 ⟨⟨_, changed⟩, each⟩⟩

end

section

variable {requested : Option Int} {compiled : Compiled}

/-- HAVING and ORDER BY of the query that is compiled say what their columns stand for. -/
theorem Logical.Of.arranging_of_compiled (begun : logical.Of catalog sql) {select : Select}
    {found : Found} (resolved : logical.resolve catalog = .ok (select, found))
    (done : logical.finish catalog requested select found = .ok compiled) :
    ∃ stands : Column → Expr,
      (∀ column ∈ logical.query.select.arranging.flatMap Expr.columns,
        logical.meaning catalog column = .ok (stands column)) ∧
      compiled.query.select.having =
        logical.query.select.having.map (Expr.substitute stands) ∧
      compiled.query.select.orderBy =
        logical.query.select.orderBy.map (Ordering.substitute stands) := by
  obtain ⟨sources, clauses⟩ := Logical.select_of_finish done
  have changes := (Logical.settles_of_resolve resolved).changes
  rw [begun.select, withItems, replaceInSelect] at changes
  simp only [replaceMetrics_eq] at changes
  obtain ⟨_, _, rest⟩ := Result.bind_eq_ok.1 changes
  obtain ⟨_, _, rest⟩ := Result.bind_eq_ok.1 rest
  obtain ⟨_, _, rest⟩ := Result.bind_eq_ok.1 rest
  obtain ⟨having, kept, rest⟩ := Result.bind_eq_ok.1 rest
  obtain ⟨orderBy, ordered, last⟩ := Result.bind_eq_ok.1 rest
  cases Result.pure_eq_ok.1 last
  obtain ⟨rfl, each⟩ := having_of_carried kept
  obtain ⟨rfl, eachToo⟩ := orderBy_of_carried ordered
  rw [clauses]
  refine ⟨_, fun column member => ?_, rfl, rfl⟩
  obtain ⟨expr, isExpr, inside⟩ := List.mem_flatMap.1 member
  obtain ⟨walked, there⟩ : ∃ walked, Expr.mapColumnsM (ownedColumn catalog logical.scope)
      (expr.substitute (metricFor logical.items.metrics)) = .ok walked := by
    rcases List.mem_append.1 isExpr with isHaving | isOrdering
    · exact each expr (Option.mem_toList.1 isHaving)
    · obtain ⟨ordering, listed, rfl⟩ := List.mem_map.1 isOrdering
      exact eachToo ordering listed
  exact exists_carried there inside

/-- A column of HAVING or ORDER BY that stands for itself is one of the SELECT. -/
theorem Logical.Of.mem_columns_of_arranging (begun : logical.Of catalog sql) {column : Column}
    (member : column ∈ logical.query.select.arranging.flatMap Expr.columns)
    (kept : metricFor logical.items.metrics column = .column column) :
    column ∈ logical.columns := by
  obtain ⟨expr, isExpr, inside⟩ := List.mem_flatMap.1 member
  refine List.mem_flatMap.2 ⟨replaceMetrics logical.items.metrics expr, ?_, ?_⟩
  · rw [begun.select]
    simp only [Select.exprs, Joins.withSources, withItems, replaceInSelect, List.mem_append]
    rcases List.mem_append.1 isExpr with isHaving | isOrdering
    · refine .inl (.inr (Option.mem_toList.2 ?_))
      exact Option.mem_map_of_mem _ (Option.mem_toList.1 isHaving)
    · obtain ⟨ordering, listed, rfl⟩ := List.mem_map.1 isOrdering
      exact .inr (List.mem_map.2 ⟨_, List.mem_map_of_mem listed, rfl⟩)
  · rw [replaceMetrics_eq, Expr.columns_substitute, Expr.columnsPut]
    refine List.mem_flatMap.2 ⟨column, inside, ?_⟩
    rw [kept]
    exact List.mem_singleton_self column

/-- SQL over metrics with an unknown name is refused, and for no other reason than that name if every
other column is resolved. -/
theorem Logical.refused_of_unknown (begun : logicalOf catalog sql = .ok logical) {column : Column}
    (member : column ∈ logical.columns) (unknown : logical.scope.IsUnknown column) :
    ∃ failure, metricQuery catalog sql requested = .error failure ∧
      ((∀ other ∈ logical.columns, other ≠ column →
          ∃ owned, ownedColumn catalog logical.scope other = .ok owned) →
        failure = .invalidIdentifier column.name.value) := by
  obtain ⟨failure, failed, refused, isColumn, here⟩ :=
    logical.resolve_of_unknown catalog ⟨column, member, unknown⟩
  refine ⟨failure, ?_, fun others => ?_⟩
  · rw [metricQuery_eq, Result.bind_of_ok begun, failed]
    rfl
  · by_cases same : refused = column
    · rw [same, ownedColumn_of_unknown unknown] at here
      exact (Except.error.inj here).symm
    · obtain ⟨owned, resolved⟩ := others refused isColumn same
      rw [resolved] at here
      cases here

/-- HAVING and ORDER BY of the query that SQL over metrics is compiled to are those that are written,
with each column outside of subqueries standing for what it means. A name of a metric that the
projection selects means what that metric computes, just as the projection shows it. The name of any
other metric, whatever its parents are, means what it would mean if there was no such metric: if it
is a bare name that is no alias of the projection, the SQL is refused, and with that name where
nothing else is refused. -/
theorem metric_names_mean_selected_metrics (begun : logicalOf catalog sql = .ok logical)
    (requested : Option Int) :
    (∀ compiled, metricQuery catalog sql requested = .ok compiled →
      ∃ stands : Column → Expr,
        (∀ column ∈ logical.query.select.arranging.flatMap Expr.columns,
          logical.meaning catalog column = .ok (stands column)) ∧
        compiled.query.select.having =
          logical.query.select.having.map (Expr.substitute stands) ∧
        compiled.query.select.orderBy =
          logical.query.select.orderBy.map (Ordering.substitute stands)) ∧
    ∀ column ∈ logical.query.select.arranging.flatMap Expr.columns, ∀ metric,
      catalog.node? column.fullName = some metric →
      (metric ∈ selectedNodes catalog logical.query.select.projection →
        ∃ own name, Metric.ofNode catalog metric = .ok own ∧
          .aliased name (own.renameOwners logical.scope.names).expr ∈ logical.select.projection ∧
          logical.meaning catalog column =
            Expr.mapColumnsM (ownedColumn catalog logical.scope)
              (own.renameOwners logical.scope.names).expr) ∧
      (metric ∉ selectedNodes catalog logical.query.select.projection →
        logical.meaning catalog column = Expr.column <$> ownedColumn catalog logical.scope column ∧
        (logical.scope.IsUnknown column →
          ∃ failure, metricQuery catalog sql requested = .error failure ∧
            ((∀ other ∈ logical.columns, other ≠ column →
                ∃ owned, ownedColumn catalog logical.scope other = .ok owned) →
              failure = .invalidIdentifier column.name.value))) := by
  have known := Logical.of_logicalOf begun
  constructor
  · intro compiled done
    rw [metricQuery_eq, Result.bind_of_ok begun] at done
    obtain ⟨⟨select, found⟩, resolved, finished⟩ := Result.bind_eq_ok.1 done
    exact known.arranging_of_compiled resolved finished
  · intro column member metric named
    constructor
    · intro selected
      have bare : column.table = none := by
        refine table_of_ofText known.reads column (Select.mem_columns.2 (.inl ?_))
        obtain ⟨expr, isExpr, inside⟩ := List.mem_flatMap.1 member
        refine ⟨expr, ?_, inside⟩
        rw [Select.arranging, List.mem_append] at isExpr
        rw [Select.exprs, List.mem_append, List.mem_append, or_assoc]
        exact .inr isExpr
      obtain ⟨found, isFound, rfl⟩ := known.namedMetric?_eq_some bare named selected
      have isMetric := (mem_of_namedMetric? isFound).1
      obtain ⟨own, made, renamed⟩ := known.metric isMetric
      obtain ⟨name, shown⟩ := Items.shown_of_adds known.finds found isMetric
      refine ⟨own, name, made, ?_, ?_⟩
      · rw [← renamed, known.select]
        exact shown
      · rw [← renamed, Logical.meaning, metricFor, isFound]
        rfl
    · intro unselected
      have kept : metricFor logical.items.metrics column = .column column := by
        rw [metricFor, known.namedMetric?_eq_none named unselected]
        rfl
      refine ⟨?_, fun unknown => ?_⟩
      · rw [Logical.meaning, kept, map_eq_pure_bind]
        rfl
      · exact Logical.refused_of_unknown begun (known.mem_columns_of_arranging member kept) unknown

end

/-- Orders, and two metrics over them. -/
def marginBooks : Catalog :=
  { databases := [tillDatabase]
    nodes :=
      [{ name := "orders", kind := .source, columns := [{ name := "amount" }, { name := "price" }]
         tables := [{ database := 1, table := "orders" }] },
       { name := "revenue", kind := .metric, parents := ["orders"]
         expression := some "SELECT SUM(amount) FROM orders" },
       { name := "cost", kind := .metric, parents := ["orders"]
         expression := some "SELECT SUM(price) FROM orders" }] }

/-- Revenue that is kept where costs are high. -/
def costlyRevenue : String := "SELECT revenue FROM metrics HAVING cost > 10"

/-- The same beside costs. -/
def costlyRevenueAndCost : String :=
  "SELECT revenue, cost AS spent FROM metrics HAVING cost > 10"

/-- A metric with the same parents as the selected one is an unknown name in HAVING, unless it is
selected as well. -/
theorem metric_names_mean_selected_metrics_marginBooks :
    metricQuery marginBooks costlyRevenue none = .error (.invalidIdentifier "cost") ∧
      ∃ compiled, metricQuery marginBooks costlyRevenueAndCost none = .ok compiled ∧
        compiled.query.select.having.map Expr.columns =
          some [{ name := { value := "price" }, table := some { name := { value := "orders" } } }] := by
  constructor
  · have found : (logicalOf marginBooks costlyRevenue).toOption.map (fun logical =>
        decide (∃ column ∈ logical.query.select.arranging.flatMap Expr.columns,
          column.name.value = "cost" ∧ logical.scope.IsUnknown column ∧
          marginBooks.node? column.fullName = some marginBooks.nodes[2] ∧
          marginBooks.nodes[2] ∉ selectedNodes marginBooks logical.query.select.projection ∧
          ∀ other ∈ logical.columns, other ≠ column → other.table.isSome)) = some true := by
      decide +kernel
    obtain ⟨logical, known, holds⟩ := Option.map_eq_some_iff.1 found
    obtain ⟨column, member, called, unknown, named, unselected, others⟩ := of_decide_eq_true holds
    obtain ⟨failure, failed, only⟩ :=
      (((metric_names_mean_selected_metrics (Result.eq_ok_of_toOption known) none).2 column member _
        named).2 unselected).2 unknown
    rw [failed, only, called]
    intro other isColumn differs
    refine ⟨other, ?_⟩
    rw [ownedColumn, if_pos (.inl (others other isColumn differs))]
  · obtain ⟨_, compiled, _, done, kept⟩ := exists_run marginBooks costlyRevenueAndCost none
      (fun _ compiled => compiled.query.select.having.map Expr.columns =
        some [{ name := { value := "price" }, table := some { name := { value := "orders" } } }])
      (by decide +kernel)
    exact ⟨compiled, done, kept⟩

end Planner
end SemanticLayer
