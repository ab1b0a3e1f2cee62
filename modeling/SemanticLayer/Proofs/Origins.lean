import SemanticLayer.Proofs.Resolution
import SemanticLayer.Proofs.Substitution

/-!
# Where columns of SQL over metrics come from

Columns of the SELECT that SQL over metrics stands for are written in the text, or come from what
its metrics compute. Those of a metric have the names that its parents go by in the FROM of the
first metric, since all metrics have the same parents.
-/

namespace SemanticLayer.Planner

open SemanticLayer.Sql
open Catalog (Node)

variable {catalog : Catalog} {node : Node}

/-! ## Owners -/

/-- Whether a column, if it is one of a table, is one of a node by the name the node goes by. -/
def Called (names : NodeNames) (column : Column) : Prop :=
  ∀ table ∈ column.table, ∃ entry ∈ names, table = { name := entry.2 }

theorem called_of_bare {names : NodeNames} {column : Column} (bare : column.table = none) :
    Called names column := by
  intro table owns
  rw [bare] at owns
  cases owns

theorem called_of_qualifyColumn {names : NodeNames} {nodes : List Node} {column after : Column}
    (bare : column.table = none) (done : qualifyColumn names nodes column = .ok after) :
    Called names after := by
  rw [qualifyColumn] at done
  split at done
  next =>
    cases done
    exact called_of_bare bare
  next unqualified =>
    split at done
    next =>
      cases done
      exact called_of_bare bare
    next owner one =>
      cases done
      have among : owner ∈ owners names nodes column.name.value := by
        rw [one]
        exact List.mem_singleton_self owner
      obtain ⟨node, _, found⟩ := List.mem_filterMap.1 among
      split at found
      next =>
        obtain ⟨entry, first, rfl⟩ := Option.map_eq_some_iff.1 found
        rw [Column.addTable, if_neg unqualified]
        rintro table ⟨⟩
        exact ⟨entry, List.mem_of_find?_eq_some first, rfl⟩
      next => cases found
    next => cases done

/-- A column with another name for its owner is called so, if every node has another name. -/
theorem called_renameOwner {own target : NodeNames} {column : Column} (called : Called own column)
    (known : ∀ entry ∈ own, (target.get? entry.1).isSome) :
    Called target (Metric.renameOwner own target column) := by
  rw [Metric.renameOwner]
  split
  next owner renamed =>
    rintro table ⟨⟩
    obtain ⟨qualifier, _, found⟩ := Option.bind_eq_some_iff.1 renamed
    obtain ⟨entry, _, goesBy⟩ := Option.bind_eq_some_iff.1 found
    obtain ⟨other, first, rfl⟩ := Option.map_eq_some_iff.1 goesBy
    exact ⟨other, List.mem_of_find?_eq_some first, rfl⟩
  next kept =>
    intro table owns
    obtain ⟨entry, member, rfl⟩ := called table owns
    have qualifier : column.qualifierName? = some entry.2.value := by
      rw [Column.qualifierName?, Column.qualifier, Option.mem_def.1 owns]
      simp [Table.reference, Path.dotted, Text.dotted]
    have some : (own.find? fun other =>
        other.2.value == entry.2.value || other.1 == entry.2.value).isSome := by
      rw [List.find?_isSome]
      exact ⟨entry, member, by simp⟩
    obtain ⟨other, first⟩ := Option.isSome_iff_exists.1 some
    obtain ⟨owner, goesBy⟩ :=
      Option.isSome_iff_exists.1 (known other (List.mem_of_find?_eq_some first))
    rw [qualifier, Option.bind_some, first, Option.bind_some, goesBy] at kept
    cases kept

/-! ## Metrics -/

/-- How a metric comes about: its expression is read, the columns of that get their owners, and it
computes the first item. -/
structure Metric.Of (catalog : Catalog) (node : Node) (metric : Metric) where
  text : String
  expression : node.expression = some text
  query : Query
  reads : Query.ofText text none = .ok query
  select : Select
  owned : qualifyColumns query.select (catalog.parents node) = .ok select
  item : Expr
  shown : item ∈ select.projection
  isOf : metric.node = node
  expr : metric.expr = item.unaliased
  sources : metric.sources = select.sources
  names : metric.names = NodeNames.ofSelect query.select (catalog.parents node)

theorem Metric.nonempty_of {metric : Metric} (done : Metric.ofNode catalog node = .ok metric) :
    Nonempty (Metric.Of catalog node metric) := by
  rw [Metric.ofNode] at done
  split at done
  next => cases done
  next text expression =>
    obtain ⟨query, reads, rest⟩ := Result.bind_eq_ok.1 done
    obtain ⟨select, owned, last⟩ := Result.bind_eq_ok.1 rest
    split at last
    next => cases last
    next item others items =>
      cases Result.pure_eq_ok.1 last
      have shown : item ∈ select.projection := by
        rw [items]
        exact List.mem_cons_self
      exact ⟨{ text, expression, query, reads, select, owned, item, shown, isOf := rfl
               expr := rfl, sources := rfl, names := rfl }⟩

/-- Metrics with the same set of parents have the same parents. -/
theorem Metric.mem_parents_of_parentSet {metric other : Metric}
    (alike : metric.parentSet = other.parentSet) {parent : Node}
    (isParent : parent ∈ catalog.parents metric.node) : parent ∈ catalog.parents other.node := by
  have named : parent.name ∈ other.parentSet := by
    rw [← alike, Metric.parentSet, Catalog.mem_sortedSet]
    exact (Catalog.mem_of_mem_parents isParent).2
  exact List.mem_filterMap.2
    ⟨parent.name, Catalog.mem_sortedSet.1 named, named_parents metric.node parent isParent⟩

/-- The parents of a metric go by the names that they have in its own FROM. -/
theorem Metric.Of.names_eq {metric : Metric} (made : Metric.Of catalog node metric) :
    metric.names = NodeNames.ofSelect made.select (catalog.parents node) := by
  rw [made.names]
  exact NodeNames.ofSelect_congr (relations_of_qualifyColumns made.owned).symm

/-- The columns of a metric are called as its parents are. -/
theorem Metric.Of.called {metric : Metric} (made : Metric.Of catalog node metric) :
    ∀ column ∈ metric.expr.columns, Called metric.names column := by
  intro column member
  rw [made.expr, Expr.columns_unaliased] at member
  have inside : column ∈ made.select.columns := by
    refine Select.mem_columns.2 (.inl ⟨made.item, ?_, member⟩)
    simp [Select.exprs, made.shown]
  obtain ⟨written, there, changed⟩ :=
    Result.exists_of_forall₂ (columns_of_qualifyColumns made.owned) inside
  rw [made.names]
  exact called_of_qualifyColumn (table_of_ofText made.reads written there) changed

/-- An item that names a node names it by the name of the node. -/
theorem Items.node?_of_nodeOf? {expr : Expr} (named : Items.nodeOf? catalog expr = some node) :
    catalog.node? node.name = some node := by
  rw [Items.nodeOf?.eq_def] at named
  split at named
  · split at named
    · rw [(Catalog.mem_of_node? named).2, named]
    · cases named
  · cases named

theorem Items.add_of_wildcard {items : Items} {item : Expr} {path : Option Path}
    (all : (splitAlias item).2 = .wildcard path) :
    items.add catalog item = .error (.notImplemented "SELECT *") := by
  rw [add]
  generalize splitAlias item = parts at all ⊢
  obtain ⟨aliasName, inner⟩ := parts
  cases all
  rfl

theorem Items.add_of_unnamed {items : Items} {item : Expr}
    (unnamed : nodeOf? catalog (splitAlias item).2 = none)
    (single : ∀ path, (splitAlias item).2 ≠ .wildcard path) :
    items.add catalog item = .ok { items with projection := items.projection ++ [item] } := by
  rw [add]
  generalize splitAlias item = parts at unnamed single ⊢
  obtain ⟨aliasName, inner⟩ := parts
  dsimp only at unnamed single ⊢
  rw [unnamed]
  split
  next => exact (single _ rfl).elim
  next => rfl
  next found => cases found

theorem Items.add_of_named {items : Items} {item : Expr}
    (named : nodeOf? catalog (splitAlias item).2 = some node) :
    items.add catalog item =
      if node.isMetric then do
        let metric ← Metric.ofNode catalog node
        let metric := metric.renameOwners (items.names metric)
        pure
          { projection := items.projection ++
              [.aliased ((splitAlias item).1.getD { value := node.name }) metric.expr]
            metrics := items.metrics ++ [metric] }
      else .error (.notAMetric node.name) := by
  rw [add]
  generalize splitAlias item = parts at named ⊢
  obtain ⟨aliasName, inner⟩ := parts
  dsimp only at named ⊢
  rw [named]
  split
  next path _ => cases named
  next found => cases found
  next found =>
    cases found
    rfl

/-- An item that names no node is kept. Any other one names a metric, and what that computes is shown
under an alias. -/
theorem Items.add_cases {items after : Items} {item : Expr}
    (done : items.add catalog item = .ok after) :
    (Items.nodeOf? catalog (Items.splitAlias item).2 = none ∧
        after = { items with projection := items.projection ++ [item] }) ∨
      ∃ node own name, Items.nodeOf? catalog (Items.splitAlias item).2 = some node ∧
        node.isMetric = true ∧ Metric.ofNode catalog node = .ok own ∧
        after =
          { projection :=
              items.projection ++ [.aliased name (own.renameOwners (items.names own)).expr]
            metrics := items.metrics ++ [own.renameOwners (items.names own)] } := by
  rw [Items.add] at done
  dsimp only at done
  split at done
  next => cases done
  next unnamed _ =>
    cases Result.pure_eq_ok.1 done
    exact .inl ⟨unnamed, rfl⟩
  next node named _ =>
    split at done
    next isMetric =>
      obtain ⟨own, known, last⟩ := Result.bind_eq_ok.1 done
      cases Result.pure_eq_ok.1 last
      exact .inr ⟨node, own, _, named, isMetric, known, rfl⟩
    next => cases done

/-- What items are, once those in front of a text were read: each entry is written or computes a
metric under an alias, and a metric is that of a node, with the names of the first one. -/
structure Items.Reads (catalog : Catalog) (written : List Expr) (items : Items) : Prop where
  projection : ∀ expr ∈ items.projection, expr ∈ written ∨
    ∃ metric ∈ items.metrics, ∃ name, expr = .aliased name metric.expr
  metrics : ∀ metric ∈ items.metrics, ∃ own, Metric.ofNode catalog own.node = .ok own ∧
    metric = own.renameOwners (items.names metric)

theorem Items.Reads.add {written : List Expr} {items after : Items}
    (reads : items.Reads catalog written) {item : Expr} (member : item ∈ written)
    (done : items.add catalog item = .ok after) : after.Reads catalog written := by
  rcases Items.add_cases done with ⟨_, rfl⟩ | ⟨node, own, name, _, _, known, rfl⟩
  · refine ⟨fun expr there => ?_, reads.metrics⟩
    rcases List.mem_append.1 there with before | last
    · exact reads.projection expr before
    · cases List.mem_singleton.1 last
      exact .inl member
  · obtain ⟨made⟩ := Metric.nonempty_of known
    have same := made.isOf
    constructor
    · intro expr there
      rcases List.mem_append.1 there with before | last
      · refine (reads.projection expr before).imp_right ?_
        rintro ⟨metric, inside, found⟩
        exact ⟨metric, List.mem_append_left _ inside, found⟩
      · cases List.mem_singleton.1 last
        exact .inr ⟨_, List.mem_append_right _ List.mem_cons_self, _, rfl⟩
    · intro metric there
      rcases List.mem_append.1 there with before | last
      · obtain ⟨other, made, renamed⟩ := reads.metrics metric before
        refine ⟨other, made, ?_⟩
        cases listed : items.metrics with
        | nil =>
            rw [listed] at before
            cases before
        | cons first rest =>
            rw [Items.names, listed] at renamed
            simpa only [Items.names, listed, List.cons_append] using renamed
      · cases List.mem_singleton.1 last
        refine ⟨own, same ▸ known, ?_⟩
        cases listed : items.metrics with
        | nil => simp only [Items.names, listed, List.nil_append, Metric.renameOwners]
        | cons first rest => simp only [Items.names, listed, List.cons_append]

/-- Every item is read. -/
theorem Items.reads_of_add {written : List Expr} {items : Items}
    (done : written.foldlM (Items.add catalog) {} = .ok items) : items.Reads catalog written :=
  Result.foldlM_induction (fun items => items.Reads catalog written) ⟨nofun, nofun⟩
    (fun _ member _ _ reads step => reads.add member step) done

/-! ## Columns of the SELECT -/

/-- The metric that a column names, the last one of several. -/
def namedMetric? (metrics : List Metric) (column : Column) : Option Metric :=
  if column.table.isNone then
    metrics.reverse.find? fun metric => metric.node.name == column.fullName
  else none

/-- What a column stands for that may name a metric. -/
def metricFor (metrics : List Metric) (column : Column) : Expr :=
  ((namedMetric? metrics column).map Metric.expr).getD (.column column)

theorem mem_of_namedMetric? {metrics : List Metric} {column : Column} {metric : Metric}
    (named : namedMetric? metrics column = some metric) :
    metric ∈ metrics ∧ metric.node.name = column.fullName := by
  rw [namedMetric?] at named
  split at named
  · exact ⟨List.mem_reverse.1 (List.mem_of_find?_eq_some named),
      by simpa using List.find?_some named⟩
  · cases named

/-- Metrics are put for the columns that name them, and nothing else is changed. -/
theorem replaceMetrics_eq (metrics : List Metric) (expr : Expr) :
    replaceMetrics metrics expr = expr.substitute (metricFor metrics) := by
  have visits : metricExpr metrics = Expr.atColumn (metricFor metrics) := by
    funext inner
    cases inner <;> rfl
  rw [replaceMetrics, visits]
  rfl

/-- Where metrics stand for what they compute, columns are written ones or those of a metric. -/
theorem mem_columns_of_replaceMetrics {metrics : List Metric} {expr : Expr} {column : Column}
    (member : column ∈ (replaceMetrics metrics expr).columns) :
    column ∈ expr.columns ∨ ∃ metric ∈ metrics, column ∈ metric.expr.columns := by
  rw [replaceMetrics_eq, Expr.columns_substitute, Expr.columnsPut] at member
  obtain ⟨written, isWritten, inside⟩ := List.mem_flatMap.1 member
  rw [metricFor] at inside
  cases named : namedMetric? metrics written with
  | none =>
      rw [named] at inside
      cases List.mem_singleton.1 inside
      exact .inl isWritten
  | some metric =>
      rw [named] at inside
      exact .inr ⟨metric, (mem_of_namedMetric? named).1, inside⟩

/-- What is known of the SELECT that a text stands for. -/
structure Logical.Of (catalog : Catalog) (sql : String) (logical : Logical) : Prop where
  reads : Query.ofText sql none = .ok logical.query
  alone : logical.query.ctes = []
  finds : logical.query.select.projection.foldlM (Items.add catalog) {} = .ok logical.items
  agree : checkParents logical.items.metrics = .ok ()
  scopes : scopeOf catalog logical.items.metrics (withItems logical.query.select logical.items) =
    .ok (logical.select.sources, logical.scope)
  select : logical.select =
    Joins.withSources (withItems logical.query.select logical.items) logical.select.sources
  refers : metricReferences catalog logical.items.metrics = .ok logical.references

theorem Logical.of_logicalOf {sql : String} {logical : Logical}
    (begun : logicalOf catalog sql = .ok logical) : logical.Of catalog sql := by
  obtain ⟨query, reads, rest⟩ := Result.bind_eq_ok.1 begun
  cases ctes : query.ctes with
  | cons cte others =>
      rw [ctes] at rest
      cases rest
  | nil =>
      rw [ctes] at rest
      obtain ⟨_, _, rest⟩ := Result.bind_eq_ok.1 rest
      obtain ⟨items, finds, rest⟩ := Result.bind_eq_ok.1 rest
      obtain ⟨_, agree, rest⟩ := Result.bind_eq_ok.1 rest
      obtain ⟨⟨sources, scope⟩, scopes, rest⟩ := Result.bind_eq_ok.1 rest
      obtain ⟨references, refers, last⟩ := Result.bind_eq_ok.1 rest
      cases Result.pure_eq_ok.1 last
      exact ⟨reads, ctes, finds, agree, scopes, rfl, refers⟩

section

variable {sql : String} {logical : Logical}

/-- A column of the SELECT is one of no table, or one of what a metric computes. -/
theorem Logical.Of.origin (begun : logical.Of catalog sql) {column : Column}
    (member : column ∈ logical.columns) :
    column.table = none ∨ ∃ metric ∈ logical.items.metrics, column ∈ metric.expr.columns := by
  have written {expr : Expr} (isExpr : expr ∈ logical.query.select.exprs) {other : Column}
      (inside : other ∈ expr.columns) : other.table = none :=
    table_of_ofText begun.reads other (Select.mem_columns.2 (.inl ⟨expr, isExpr, inside⟩))
  have replaced {expr : Expr} (isExpr : expr ∈ logical.query.select.exprs)
      (inside : column ∈ (replaceMetrics logical.items.metrics expr).columns) :
      column.table = none ∨ ∃ metric ∈ logical.items.metrics, column ∈ metric.expr.columns :=
    (mem_columns_of_replaceMetrics inside).imp_left (written isExpr)
  rw [Logical.columns, begun.select] at member
  obtain ⟨expr, isExpr, inside⟩ := List.mem_flatMap.1 member
  simp only [Select.exprs, Joins.withSources, withItems, replaceInSelect, List.mem_append,
    Option.mem_toList, Option.map_eq_some_iff, List.mem_map] at isExpr
  rcases isExpr with (((projected | filtered) | grouped) | ⟨having, isHaving, rfl⟩) |
    ⟨_, ⟨ordering, isOrdering, rfl⟩, rfl⟩
  · rcases (Items.reads_of_add begun.finds).projection expr projected with
      isWritten | ⟨metric, isMetric, name, rfl⟩
    · exact .inl (written (by simp [Select.exprs, isWritten]) inside)
    · exact .inr ⟨metric, isMetric, inside⟩
  · exact .inl (written (by simp [Select.exprs, filtered]) inside)
  · exact .inl (written (by simp [Select.exprs, grouped]) inside)
  · exact replaced (by simp [Select.exprs, isHaving]) inside
  · have isExpr : ordering.expr ∈ logical.query.select.exprs := by
      rw [Select.exprs, List.mem_append]
      exact .inr (List.mem_map_of_mem isOrdering)
    exact replaced isExpr inside

/-- Nodes are called as they are in FROM, and aliases are those of the projection. -/
theorem Logical.Of.scope (begun : logical.Of catalog sql) :
    logical.scope.names = NodeNames.ofSelect logical.select logical.scope.parents ∧
      logical.scope.aliases =
        (logical.select.projection.filterMap Expr.aliasName?).map Name.value := by
  have scopes := begun.scopes
  rw [begun.select]
  rw [scopeOf.eq_def] at scopes
  dsimp only at scopes
  split at scopes
  next metric _ _ =>
    obtain ⟨_, _, last⟩ := Result.bind_eq_ok.1 scopes
    obtain ⟨sources, scope⟩ := Prod.mk.inj (Result.pure_eq_ok.1 last)
    rw [← scope, ← sources]
    exact ⟨rfl, rfl⟩
  next =>
    obtain ⟨subject, _, last⟩ := Result.bind_eq_ok.1 scopes
    split at last
    next node =>
      obtain ⟨sources, scope⟩ := Prod.mk.inj (Result.pure_eq_ok.1 last)
      rw [← scope, ← sources]
      exact ⟨rfl, rfl⟩
    next =>
      obtain ⟨sources, scope⟩ := Prod.mk.inj (Result.pure_eq_ok.1 last)
      rw [← scope, ofSelect_eq_nil]
      exact ⟨rfl, rfl⟩

/-- FROM is that of the first metric, and columns refer to its parents. -/
theorem Logical.Of.first (begun : logical.Of catalog sql) {first : Metric} {rest : List Metric}
    (listed : logical.items.metrics = first :: rest) :
    logical.select.sources = first.sources ∧
      logical.scope.parents = catalog.parents first.node := by
  have scopes := begun.scopes
  rw [scopeOf.eq_def, listed] at scopes
  obtain ⟨_, _, last⟩ := Result.bind_eq_ok.1 scopes
  obtain ⟨sources, scope⟩ := Prod.mk.inj (Result.pure_eq_ok.1 last)
  rw [← sources, ← scope]
  exact ⟨rfl, rfl⟩

/-- Columns refer to the parents of every metric. -/
theorem Logical.Of.parents (begun : logical.Of catalog sql) {metric : Metric}
    (member : metric ∈ logical.items.metrics) {parent : Node}
    (isParent : parent ∈ catalog.parents metric.node) : parent ∈ logical.scope.parents := by
  have agree := begun.agree
  obtain ⟨first, rest, listed⟩ := List.exists_cons_of_ne_nil (List.ne_nil_of_mem member)
  rw [listed] at agree member
  have alike : metric.parentSet = first.parentSet := by
    rw [checkParents] at agree
    split at agree
    next all =>
      rcases List.mem_cons.1 member with rfl | later
      · rfl
      · exact beq_iff_eq.1 (List.all_eq_true.1 all metric later)
    next => cases agree
  rw [(begun.first listed).2]
  exact Metric.mem_parents_of_parentSet alike isParent

/-- A metric is that of a node, with the names that nodes go by in FROM. -/
theorem Logical.Of.metric (begun : logical.Of catalog sql) {metric : Metric}
    (member : metric ∈ logical.items.metrics) :
    ∃ own, Metric.ofNode catalog metric.node = .ok own ∧
      metric = own.renameOwners logical.scope.names := by
  obtain ⟨first, rest, listed⟩ := List.exists_cons_of_ne_nil (List.ne_nil_of_mem member)
  have reads := (Items.reads_of_add begun.finds).metrics
  have names : first.names = logical.scope.names := by
    obtain ⟨inFrom, parents⟩ := begun.first listed
    obtain ⟨own, known, renamed⟩ := reads first (by rw [listed]; exact List.mem_cons_self)
    obtain ⟨made⟩ := Metric.nonempty_of known
    have kept : first.names = own.names ∧ first.node = own.node ∧
        first.sources = own.sources := by
      rw [renamed]
      exact ⟨rfl, rfl, rfl⟩
    obtain ⟨sameNames, sameNode, sameSources⟩ := kept
    rw [begun.scope.1, parents, sameNames, made.names_eq, sameNode]
    refine NodeNames.ofSelect_congr (Select.relations_congr ?_)
    rw [inFrom, sameSources, made.sources]
  obtain ⟨own, known, renamed⟩ := reads metric member
  rw [Items.names, listed] at renamed
  have same : metric.node = own.node := by
    rw [renamed]
    rfl
  exact ⟨own, same ▸ known, renamed.trans (congrArg (own.renameOwners ·) names)⟩

/-- Whether every node that columns can refer to stands in FROM. -/
def Logical.ParentsInFrom (logical : Logical) : Prop :=
  ∀ parent ∈ logical.scope.parents,
    ∃ relation ∈ logical.select.relations, relation.tableName? = some parent.name

instance (logical : Logical) : Decidable logical.ParentsInFrom :=
  inferInstanceAs (Decidable (∀ parent ∈ logical.scope.parents,
    ∃ relation ∈ logical.select.relations, relation.tableName? = some parent.name))

/-- A node in FROM has a name. -/
theorem Logical.Of.isSome_get? (begun : logical.Of catalog sql) (present : logical.ParentsInFrom)
    {parent : Node} (isParent : parent ∈ logical.scope.parents) :
    (logical.scope.names.get? parent.name).isSome := by
  obtain ⟨relation, inFrom, same⟩ := present parent isParent
  cases relation with
  | derived query aliasName => cases same
  | table table =>
      rw [begun.scope.1]
      exact NodeNames.isSome_get?_of_table inFrom isParent (Option.some.inj same).symm

/-- Where all parents stand in FROM, a column of a table is called as a node in FROM is. -/
theorem Logical.Of.called (begun : logical.Of catalog sql) (present : logical.ParentsInFrom)
    {column : Column} (member : column ∈ logical.columns) : Called logical.scope.names column := by
  rcases begun.origin member with bare | ⟨metric, isMetric, inside⟩
  · exact called_of_bare bare
  · obtain ⟨own, known, renamed⟩ := begun.metric isMetric
    obtain ⟨made⟩ := Metric.nonempty_of known
    rw [renamed, Metric.renameOwners, Expr.columns_mapColumns] at inside
    obtain ⟨before, there, rfl⟩ := List.mem_map.1 inside
    refine called_renameOwner (made.called before there) fun entry known => ?_
    rw [made.names_eq] at known
    obtain ⟨parent, isParent, named⟩ := (NodeNames.for_ofSelect _ _).known entry known
    rw [← named]
    exact begun.isSome_get? present (begun.parents isMetric isParent)

/-- Where all parents stand in FROM, join conditions have no bare columns. -/
theorem Logical.Of.isQualified (begun : logical.Of catalog sql) (present : logical.ParentsInFrom)
    {expr : Expr} (isCondition : expr ∈ logical.select.conditions) {column : Column}
    (member : column ∈ expr.columns) : column.isQualified = true := by
  cases listed : logical.items.metrics with
  | nil =>
      have scopes := begun.scopes
      rw [scopeOf.eq_def, listed] at scopes
      obtain ⟨subject, _, last⟩ := Result.bind_eq_ok.1 scopes
      split at last
      all_goals
        obtain ⟨sources, _⟩ := Prod.mk.inj (Result.pure_eq_ok.1 last)
        rw [Select.conditions, ← sources] at isCondition
        cases isCondition
  | cons first rest =>
      have isFirst : first ∈ logical.items.metrics := by
        rw [listed]
        exact List.mem_cons_self
      obtain ⟨own, isOwn, renamed⟩ := begun.metric isFirst
      obtain ⟨made⟩ := Metric.nonempty_of isOwn
      obtain ⟨inFrom, parents⟩ := begun.first listed
      have refers := begun.refers
      rw [listed, metricReferences, List.foldlM_cons] at refers
      obtain ⟨_, step, _⟩ := Result.bind_eq_ok.1 refers
      obtain ⟨references, found, _⟩ := Result.bind_eq_ok.1 step
      have sources : logical.select.sources = made.select.sources := by
        rw [inFrom, ← made.sources]
        exact (congrArg Metric.sources renamed :)
      have attached := attached_of_qualifyColumns made.expression found made.reads made.owned
      have inside : column ∈ made.select.columns := by
        refine Select.mem_columns.2 (.inr ⟨expr, ?_, member⟩)
        rwa [Select.conditions, ← sources]
      obtain ⟨_, _, gets⟩ := Result.exists_of_forall₂ attached inside
      apply gets.isQualified
      rw [← parents, ← relations_of_qualifyColumns made.owned, ← Select.relations_congr sources]
      exact present

end

end SemanticLayer.Planner
