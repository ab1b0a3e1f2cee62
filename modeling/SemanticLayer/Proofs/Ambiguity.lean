import SemanticLayer.Proofs.Overlaps
import SemanticLayer.Proofs.Requests
import SemanticLayer.Proofs.Scoping

/-!
# Columns without an owner

What joins, filters and groups add to a query has an owner in every column. The query of a source
shows the columns of its table without one, before it is known what is joined to it. So each of them
is clear as long as no dimension that is joined declares a column of that name, and nothing refuses
the other requests.
-/

namespace SemanticLayer

/-! ## Expressions and their columns -/

namespace Sql

/-- The columns of expressions that have no owner. -/
def bareColumns (exprs : List Expr) : List Column :=
  (exprs.flatMap Expr.columns).filter fun column => !column.isQualified

/-- The columns of a SELECT that have no owner, those of its join conditions included. -/
def Select.bareColumns (select : Select) : List Column :=
  Sql.bareColumns (select.exprs ++ select.conditions)

/-- What a relation of FROM is known as: its alias, or else the full name of its table. -/
def Relation.knownAs? : Relation → Option String
  | .table t => some (t.aliasName.elim t.fullName Name.value)
  | .derived _ aliasName => aliasName.map Name.value

variable {exprs others : List Expr} {expr : Expr}

theorem bareColumns_append (exprs others : List Expr) :
    bareColumns (exprs ++ others) = bareColumns exprs ++ bareColumns others := by
  rw [bareColumns, List.flatMap_append, List.filter_append]
  rfl

theorem bareColumns_perm (perm : exprs.Perm others) :
    (bareColumns exprs).Perm (bareColumns others) :=
  (perm.flatMap_right Expr.columns).filter _

theorem bareColumns_combine (left : Expr) (op : BinaryOp) (right : Expr) :
    bareColumns [Expr.combine left op right] = bareColumns [left] ++ bareColumns [right] := by
  rw [← bareColumns_append, bareColumns, bareColumns, List.flatMap_singleton,
    Planner.columns_combine, List.flatMap_append, List.flatMap_singleton, List.flatMap_singleton]

/-- Columns that stand for themselves. -/
theorem bareColumns_map_col (names : List String) :
    bareColumns (names.map Expr.col) = names.map fun name => { name := { value := name } } := by
  induction names with
  | nil => rfl
  | cons name names ih =>
      rw [List.map_cons, ← List.singleton_append, bareColumns_append, ih]
      rfl

/-- A condition whose columns have owners adds no column without one. -/
theorem Select.bareColumns_addFilter (select : Select) (owned : Sql.bareColumns [expr] = []) :
    (select.addFilter expr).bareColumns = select.bareColumns := by
  have same : Sql.bareColumns (select.addFilter expr).filter.toList =
      Sql.bareColumns select.filter.toList := by
    rw [addFilter]
    cases select.filter with
    | none => exact owned
    | some filter =>
        show Sql.bareColumns [Expr.combine filter .and expr] = _
        rw [bareColumns_combine, owned, List.append_nil]
        rfl
  simp only [bareColumns, exprs, bareColumns_append, same]
  rfl

/-- Joins that are put in other places of FROM leave the same columns without an owner. -/
theorem Select.bareColumns_withSources (select : Select) {sources nexts : List Source}
    {joins : List Join} (listed : select.sources = some sources)
    (appends : Planner.Appends joins sources nexts)
    (owned : Sql.bareColumns (joins.filterMap Join.on) = []) :
    (Planner.Joins.withSources select (some nexts)).bareColumns.Perm select.bareColumns := by
  have conditions (entries : List Source) :
      entries.flatMap Source.conditions = (entries.flatMap Source.joins).filterMap Join.on := by
    rw [List.filterMap_flatMap]
    rfl
  have perm := bareColumns_perm (appends.all.filterMap Join.on)
  rw [List.filterMap_append, bareColumns_append, owned, List.append_nil, ← conditions,
    ← conditions] at perm
  rw [bareColumns, bareColumns, bareColumns_append, bareColumns_append, Select.conditions,
    Select.conditions, listed]
  exact perm.append_left _

end Sql

namespace Planner

open SemanticLayer.Sql
open Catalog (Node Database Hop Materialization)

variable {catalog : Catalog} {database : Database} {node : Node} {names : NodeNames}
  {select after : Select}

/-! ## What is added has owners -/

theorem bareColumns_columnOf (owner : Name) (column : String) :
    bareColumns [.column (columnOf owner column)] = [] := rfl

/-- A hop joins on columns with owners. -/
theorem Joins.perm_bareColumns_of_addHop {joins next : Joins} {hop : Hop}
    (done : joins.addHop catalog database hop = .ok next) :
    next.select.bareColumns.Perm joins.select.bareColumns := by
  by_cases joined : hop.dimension ∈ joins.joined
  · rw [addHop_of_joined joined] at done
    cases done
    rfl
  · obtain ⟨_, relation, first, rest, _, _, listed, rfl⟩ := addHop_eq_ok joined done
    refine joins.select.bareColumns_withSources listed (appends_attach _ _ first rest) ?_
    exact bareColumns_combine _ _ _

theorem Joins.perm_bareColumns_of_addPaths {joins last : Joins} {paths : List (List Hop)}
    (done : paths.foldlM (Joins.addPath catalog database) joins = .ok last) :
    last.select.bareColumns.Perm joins.select.bareColumns := by
  rw [foldlM_addPath] at done
  refine Result.foldlM_induction
    (fun state : Joins => state.select.bareColumns.Perm joins.select.bareColumns) (.refl _) ?_ done
  exact fun _ _ _ _ kept step => (perm_bareColumns_of_addHop step).trans kept

/-- A filter restricts by a column with an owner. -/
theorem bareColumns_of_addFilter {filter : Filter}
    (done : addFilter names select filter = .ok after) :
    after.bareColumns = select.bareColumns := by
  obtain ⟨_, _, last⟩ := Result.bind_eq_ok.1 done
  cases Result.pure_eq_ok.1 last
  exact select.bareColumns_addFilter (bareColumns_combine _ _ _)

theorem bareColumns_addOnce {exprs : List Expr} {expr : Expr} (owned : bareColumns [expr] = []) :
    bareColumns (addOnce exprs expr) = bareColumns exprs := by
  rw [addOnce]
  split
  · rfl
  · rw [bareColumns_append, owned, List.append_nil]

/-- A group is a column with an owner. -/
theorem bareColumns_of_addGroupBy {name : String}
    (done : addGroupBy names select name = .ok after) :
    after.bareColumns = select.bareColumns := by
  obtain ⟨⟨dimension, column⟩, _, last⟩ := Result.bind_eq_ok.1 done
  cases Result.pure_eq_ok.1 last
  have owned := bareColumns_columnOf (names.nameOf dimension) column
  simp only [Select.bareColumns, Select.exprs, bareColumns_append, dimensionExpr,
    bareColumns_addOnce owned]
  rfl

section

variable {groupBys texts : List String} {requested : Option Int} {compiled : Compiled}

/-- The columns without an owner in a query for a node are those of its own query. -/
theorem NodePlan.perm_bareColumns
    (plan : NodePlan catalog node groupBys texts requested compiled) :
    compiled.query.select.bareColumns.Perm plan.query.select.bareColumns := by
  have joined := Joins.perm_bareColumns_of_addPaths plan.joined
  have restricted : plan.restricted.bareColumns = plan.joins.select.bareColumns :=
    Result.foldlM_induction
      (fun state : Select => state.bareColumns = plan.joins.select.bareColumns) rfl
      (fun _ _ _ _ kept step => (bareColumns_of_addFilter step).trans kept) plan.restricts
  have grouped : plan.select.bareColumns = plan.restricted.bareColumns :=
    Result.foldlM_induction
      (fun state : Select => state.bareColumns = plan.restricted.bareColumns) rfl
      (fun _ _ _ _ kept step => (bareColumns_of_addGroupBy step).trans kept) plan.groups
  rw [plan.select_eq, grouped, restricted]
  exact joined

end

/-! ## What a source shows -/

/-- The columns that the query of a table shows: those it declares, or else those of its node. -/
def shownColumns (node : Node) (stored : Materialization) : List String :=
  if stored.columns.isEmpty then node.columns.map Catalog.NodeColumn.name else stored.columns

/-- The query of a table shows columns without owners and nothing else. -/
theorem bareColumns_storedQuery (node : Node) (stored : Materialization) :
    (storedQuery node stored).select.bareColumns.map (fun column => column.name.value) =
      shownColumns node stored := by
  have whole : (storedQuery node stored).select.bareColumns =
      bareColumns (if (shownColumns node stored).isEmpty then [Expr.star]
        else (shownColumns node stored).map Expr.col) := by
    rw [Select.bareColumns, bareColumns_append, Select.exprs]
    simp [storedQuery, shownColumns, Select.conditions, Source.conditions, bareColumns]
  rw [whole]
  split
  next none =>
    rw [List.isEmpty_iff.1 none]
    rfl
  next =>
    rw [bareColumns_map_col, List.map_map]
    exact List.map_id _

/-- A source is read from a table of its own. -/
theorem exists_stored_of_queryOf {stored : Bool} {query : Query} (source : node.expression = none)
    (done : queryOf catalog database node stored = .ok query) :
    ∃ table, node.tableIn? database.id = some table ∧ query = storedQuery node table := by
  rw [queryOf, source, Option.isNone_none, Bool.or_true, if_pos rfl] at done
  split at done
  next table found => exact ⟨table, found, (Except.ok.inj done).symm⟩
  next =>
    rw [expressionQuery, source] at done
    cases done

/-! ## What is joined to a source -/

/-- The paths from the roots of a node to the dimensions of some full names. -/
def pathsTo (catalog : Catalog) (node : Node) (asked : List String) : List (List Hop) :=
  asked.filterMap fun name => (Text.splitLastDot? name).bind fun pair =>
    catalog.dimensionPath (catalog.roots node) pair.1

/-- The nodes that are joined to a node if some full names are asked for: those on the paths to their
dimensions, each one once. -/
def joinedNodes (catalog : Catalog) (node : Node) (asked : List String) : List Node :=
  (Catalog.newHops [] (pathsTo catalog node asked).flatten).filterMap fun hop =>
    catalog.node? hop.dimension

/-- The node that a relation of FROM is known as. -/
def nodeOf? (catalog : Catalog) (relation : Relation) : Option Node :=
  relation.knownAs?.bind catalog.node?

/-- The nodes that relations of FROM are known as, in their order. -/
def nodesOf (catalog : Catalog) (relations : List Relation) : List Node :=
  relations.filterMap (nodeOf? catalog)

/-- A node is known by its name where it has no alias. -/
theorem knownAs?_relationOf {relation : Relation}
    (done : relationOf catalog database node none = .ok relation) :
    relation.knownAs? = some node.name := by
  rcases relationOf_cases done with ⟨stored, _, rfl⟩ | ⟨query, rfl⟩
  · rw [Relation.knownAs?, tableOf, Option.none_or]
    by_cases same : stored.toTable.fullName = node.name
    · rw [if_pos same]
      exact congrArg some same
    · rw [if_neg same]
      rfl
  · rfl

/-- Joins along hops bring the nodes that the hops lead to. -/
theorem nodesOf_of_isJoinOf {hops : List Hop} {joins : List Join}
    (each : List.Forall₂ (IsJoinOf catalog database names) hops joins) :
    nodesOf catalog (joins.map Join.relation) =
      hops.filterMap fun hop => catalog.node? hop.dimension := by
  induction each with
  | nil => rfl
  | @cons hop join hops joins here _ ih =>
      obtain ⟨other, relation, known, read, rfl⟩ := here
      have found := Demand.node?_of_node known
      have called : nodeOf? catalog relation = some other := by
        rw [nodeOf?, knownAs?_relationOf read, Option.bind_some, Demand.name_of_node? found, found]
      rw [List.filterMap_cons, found, ← ih]
      exact List.filterMap_cons_some called

/-- The relations of the only entry of FROM, with those that are joined behind them. -/
theorem relations_of_appends {source : Source} {nexts : List Source} {joins : List Join}
    (appends : Appends joins [source] nexts) :
    nexts.flatMap Source.relations = source.relations ++ joins.map Join.relation := by
  obtain ⟨next, ⟨primary, more, grown, inOrder⟩, rfl⟩ : ∃ next, Grows joins source next ∧
      nexts = [next] := by
    cases appends.entries with
    | cons here none =>
        cases none
        exact ⟨_, here, rfl⟩
  -- All the joins stand behind those of the entry, so those behind it are all of them.
  have count : more.length = joins.length := by
    have lengths := appends.all.length_eq
    simp only [List.flatMap_singleton, grown, List.length_append] at lengths
    omega
  rw [List.flatMap_singleton, Source.relations, Source.relations, primary, grown, List.map_append,
    inOrder.eq_of_length count, List.cons_append]

/-- Hops that avoid what is joined by then are new as if nothing was joined. -/
theorem newHops_of_avoids {hops : List Hop} {avoided : List String}
    (avoids : ∀ hop ∈ hops, hop.dimension ∉ avoided) (met : List String) :
    Catalog.newHops (met ++ avoided) hops = Catalog.newHops met hops := by
  induction hops generalizing met with
  | nil => rfl
  | cons hop hops ih =>
      rw [List.forall_mem_cons] at avoids
      have fresh : hop.dimension ∈ met ++ avoided ↔ hop.dimension ∈ met := by
        rw [List.mem_append, or_iff_left avoids.1]
      simp only [Catalog.newHops, fresh, ← List.cons_append, ih avoids.2]

/-- No path leads to a node to start from. -/
theorem dimensionPath_of_start {start : List Node} {dimension : String}
    (root : dimension ∈ start.map Node.name) : catalog.dimensionPath start dimension = none := by
  cases found : catalog.dimensionPath start dimension with
  | none => rfl
  | some path =>
      obtain ⟨_, hop, onPath, same⟩ := Catalog.route_dimensionPath found
      exact (Catalog.avoids_dimensionPath found hop onPath (same ▸ root)).elim

section

variable {groupBys texts : List String} {requested : Option Int} {compiled : Compiled}

/-- The paths of a plan are those to the dimensions of the names that are asked for. -/
theorem NodeStart.paths_eq (accepted : catalog.Accepted) (member : node ∈ catalog.nodes)
    (start : NodeStart catalog node groupBys texts) :
    start.paths = pathsTo catalog node (askedNames groupBys start.parsed) := by
  have sound : Demand.Sound catalog
      { nodes := catalog.roots node, references := start.references } :=
    ⟨Catalog.ordered_nodeReferences start.refers, named_roots accepted member⟩
  obtain ⟨pairs, more, splits, all, ways, _⟩ := extends_demandDimensions sound start.demands
  rw [List.nil_append] at all
  have paths := congrArg (List.filterMap id) ways
  rw [List.filterMap_map, List.filterMap_map, Function.id_comp, Function.id_comp,
    List.filterMap_some] at paths
  have unrooted : ((pairs.map Prod.fst).filter
      fun name => !isStart (catalog.roots node) name).filterMap
        (catalog.dimensionPath (catalog.roots node)) =
      (pairs.map Prod.fst).filterMap (catalog.dimensionPath (catalog.roots node)) := by
    rw [List.filterMap_filter]
    refine List.filterMap_congr fun name _ => ?_
    by_cases root : isStart (catalog.roots node) name
    · obtain ⟨other, isRoot, same⟩ := List.any_eq_true.1 root
      have among : name ∈ (catalog.roots node).map Node.name :=
        beq_iff_eq.1 same ▸ List.mem_map_of_mem isRoot
      rw [if_neg (by simpa using root), dimensionPath_of_start among]
    · rw [if_pos (by simpa using root)]
  have named : pathsTo catalog node (askedNames groupBys start.parsed) =
      (pairs.map some).filterMap fun pair? => pair?.bind fun pair =>
        catalog.dimensionPath (catalog.roots node) pair.1 := by
    rw [← splits, List.filterMap_map]
    rfl
  rw [all, ← paths, unrooted, named, List.filterMap_map, List.filterMap_map]
  rfl

/-- FROM of a query for a source reads the source and the nodes that are joined to it. -/
theorem NodePlan.nodesOf_relations (accepted : catalog.Accepted) (member : node ∈ catalog.nodes)
    (source : node.expression = none)
    (plan : NodePlan catalog node groupBys texts requested compiled) :
    nodesOf catalog compiled.query.select.relations =
      node :: joinedNodes catalog node (askedNames groupBys plan.parsed) := by
  obtain ⟨stored, found, query⟩ := exists_stored_of_queryOf source plan.computes
  have calls := plan.calls
  rw [namesInQuery, source, query] at calls
  have names : plan.names = NodeNames.ofSelect (storedQuery node stored).select
      (catalog.parents node) := (Except.ok.inj calls).symm
  have paths := plan.paths_eq accepted member
  -- Only parents have names in FROM, and no path leads back to one of them.
  have avoids : ∀ hop ∈ plan.paths.flatten, hop.dimension ∉ plan.names.map Prod.fst := by
    intro hop onPath isNamed
    obtain ⟨path, onPaths, there⟩ := List.mem_flatten.1 onPath
    obtain ⟨_, way⟩ := (plan.ways accepted member).1 path onPaths
    refine Catalog.avoids_dimensionPath way hop there ?_
    obtain ⟨entry, isEntry, same⟩ := List.mem_map.1 isNamed
    rw [names] at isEntry
    obtain ⟨parent, isParent, called⟩ := (NodeNames.for_ofSelect _ _).known entry isEntry
    have some : catalog.parents node ≠ [] := List.ne_nil_of_mem isParent
    rw [roots_eq_parents some, ← same, ← called]
    exact List.mem_map_of_mem isParent
  have joined := plan.joined
  rw [Joins.foldlM_addPath] at joined
  have listed : (Joins.start plan.query.select plan.names).select.sources =
      some [{ primary := .table (tableOf node stored none) }] := by
    rw [query]
    rfl
  obtain ⟨joins, nexts, same, appends, each⟩ := Joins.appends_of_addHops joined listed avoids
  have new : Catalog.newHops (plan.names.map Prod.fst) plan.paths.flatten =
      Catalog.newHops [] plan.paths.flatten := newHops_of_avoids avoids []
  have relations : compiled.query.select.relations =
      .table (tableOf node stored none) :: joins.map Join.relation := by
    rw [Select.relations, plan.sources, same]
    exact relations_of_appends appends
  have own : nodeOf? catalog (.table (tableOf node stored none)) = some node := by
    have read : relationOf catalog compiled.database node none =
        .ok (.table (tableOf node stored none)) := by
      rw [relationOf, relationWithin, found]
    rw [nodeOf?, knownAs?_relationOf read, Option.bind_some, accepted.node?_name member]
  rw [relations, nodesOf, List.filterMap_cons_some own]
  refine congrArg (node :: ·) ?_
  rw [joinedNodes, ← paths, ← new]
  exact nodesOf_of_isJoinOf each

/-- A query for a source leaves without owners the columns that its table shows and no others, and
FROM reads the source and the dimensions on the paths to what is asked for, each one once. So every
column without an owner is declared by exactly one relation of FROM if and only if every column that
the table shows is declared by exactly one of the source and the dimensions that are joined. -/
theorem bare_columns_are_clear_iff {databases : List Database} {nodes : List Node}
    (built : Catalog.build databases nodes = .ok catalog) (member : node ∈ catalog.nodes)
    (source : node.expression = none)
    (done : nodeQuery catalog node groupBys texts requested = .ok compiled) :
    ∃ filters stored, texts.mapM Filter.ofText = .ok filters ∧
      node.tableIn? compiled.database.id = some stored ∧
      (compiled.query.select.bareColumns.map fun column => column.name.value).Perm
        (shownColumns node stored) ∧
      nodesOf catalog compiled.query.select.relations =
        node :: joinedNodes catalog node (askedNames groupBys filters) ∧
      ((∀ column ∈ compiled.query.select.bareColumns,
          (nodesOf catalog compiled.query.select.relations).countP
            (fun other => other.hasColumn column.name.value) = 1) ↔
        ∀ name ∈ shownColumns node stored,
          (node :: joinedNodes catalog node (askedNames groupBys filters)).countP
            (fun other => other.hasColumn name) = 1) := by
  obtain ⟨plan⟩ := nonempty_nodePlan done
  obtain ⟨stored, found, query⟩ := exists_stored_of_queryOf source plan.computes
  have reads := plan.nodesOf_relations (Catalog.accepted_of_build built) member source
  have shows := plan.perm_bareColumns.map fun column => column.name.value
  rw [query, bareColumns_storedQuery] at shows
  refine ⟨plan.parsed, stored, plan.parses, found, shows, reads, ?_⟩
  rw [reads]
  constructor
  · intro clear name isShown
    obtain ⟨column, isBare, rfl⟩ := List.mem_map.1 (shows.mem_iff.2 isShown)
    exact clear column isBare
  · intro clear column isBare
    exact clear _ (shows.mem_iff.1 (List.mem_map_of_mem isBare))

end

/-- Orders of users; both have an `id`. -/
def userOrders : Catalog :=
  { databases := [{ id := 1, name := "a", uri := "duckdb://x" }]
    nodes :=
      [{ name := "users", kind := .source, tables := [{ database := 1, table := "users" }]
         columns := [{ name := "id" }, { name := "country" }] },
       { name := "orders", kind := .source, tables := [{ database := 1, table := "orders" }]
         columns := [{ name := "id" }, { name := "user_id", dimension := some "users" }] }] }

/-- Orders by the country of their user are not refused, and show an `id` that both relations
have. -/
theorem bare_columns_are_clear_iff_userOrders :
    ∃ compiled, nodeQuery userOrders userOrders.nodes[1] ["users.country"] [] none = .ok compiled ∧
      nodesOf userOrders compiled.query.select.relations = userOrders.nodes.reverse ∧
      ∃ column ∈ compiled.query.select.bareColumns,
        (nodesOf userOrders compiled.query.select.relations).countP
          (fun other => other.hasColumn column.name.value) = 2 := by
  have built : Catalog.build userOrders.databases userOrders.nodes = .ok userOrders := by
    decide +kernel
  have member : userOrders.nodes[1] ∈ userOrders.nodes := List.getElem_mem _
  obtain ⟨compiled, done⟩ := Result.exists_eq_ok (by decide +kernel :
    (nodeQuery userOrders userOrders.nodes[1] ["users.country"] [] none).toOption.isSome)
  obtain ⟨filters, stored, parses, found, shows, reads, _⟩ :=
    bare_columns_are_clear_iff built member rfl done
  obtain rfl : filters = [] := (Except.ok.inj parses).symm
  have isTable : stored = { database := 1, table := "orders" } :=
    List.mem_singleton.1 (List.mem_filter.1 (mem_of_firstLeast? found)).1
  have joined : userOrders.nodes[1] :: joinedNodes userOrders userOrders.nodes[1]
      (askedNames ["users.country"] []) = userOrders.nodes.reverse := by
    decide +kernel
  replace reads := reads.trans joined
  have isShown : "id" ∈ shownColumns userOrders.nodes[1] stored := by
    rw [isTable]
    decide
  obtain ⟨column, isBare, named⟩ := List.mem_map.1 (shows.mem_iff.2 isShown)
  refine ⟨compiled, done, reads, column, isBare, ?_⟩
  rw [reads, named]
  decide

end Planner
end SemanticLayer
