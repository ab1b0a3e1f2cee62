import Mathlib.Data.List.Perm.Basic
import Mathlib.Data.List.Sort
import SemanticLayer.Proofs.Joining
import SemanticLayer.Proofs.Plans
import SemanticLayer.Proofs.Reachability
import SemanticLayer.Proofs.Values

/-!
# The order of a request

What a query for a node reads depends on the set of names that are asked for: the database, the
query of the node and the dimensions that are joined to it. Only then the query is restricted and
grouped, by one condition for each filter and one column for each dimension, in the order of the
request.
-/

namespace SemanticLayer

/-- Texts in order are determined by which they are. -/
theorem Catalog.sortedSet_congr {texts others : List String}
    (same : ∀ text, text ∈ texts ↔ text ∈ others) :
    Catalog.sortedSet texts = Catalog.sortedSet others := by
  refine (pairwise_sortedSet texts).eq_of_mem_iff (pairwise_sortedSet others) fun text => ?_
  rw [mem_sortedSet, mem_sortedSet, same]

namespace Planner

open SemanticLayer.Sql
open Catalog (Node Hop Database)

variable {catalog : Catalog} {node : Node} {requested : Option Int} {names : NodeNames}
  {groupBys groupBysToo : List String} {filters filtersToo : List Filter}

/-! ## Groundwork -/

/-- A query before it is restricted and grouped, its database, and the names that nodes go by in
it. -/
structure Groundwork where
  database : Database
  query : Query
  names : NodeNames

/-- The query of a node with the dimensions joined that are asked for. -/
def groundwork (catalog : Catalog) (node : Node) (asked : List String) (requested : Option Int) :
    Result Groundwork := do
  checkDimensions catalog node asked
  let references ← catalog.nodeReferences node
  let (demand, paths) ← asked.foldlM (demandDimension catalog node (catalog.roots node))
    ({ nodes := catalog.roots node, references }, [])
  let database ←
    (if asked.isEmpty then { demand with nodes := [node] } else demand).database catalog requested
  let query ← queryOf catalog database node asked.isEmpty
  let names ← namesInQuery catalog node query
  let joins ← paths.foldlM (Joins.addPath catalog database) (Joins.start query.select names)
  pure { database, query := { query with select := joins.select }, names }

/-- The query restricted by filters and grouped by dimensions. -/
def Groundwork.finish (work : Groundwork) (groupBys : List String) (filters : List Filter) :
    Result Compiled := do
  let restricted ← filters.foldlM (addFilter work.names) work.query.select
  let select ← groupBys.foldlM (addGroupBy work.names) restricted
  pure { database := work.database, query := { work.query with select } }

/-- The query of a node is its groundwork for the set of names, finished in the order of the
request. -/
theorem nodeQuery_of_parsed {texts : List String}
    (parses : texts.mapM Filter.ofText = .ok filters) :
    nodeQuery catalog node groupBys texts requested =
      groundwork catalog node (askedNames groupBys filters) requested >>= fun work =>
        work.finish groupBys filters := by
  rw [nodeQuery, Result.bind_of_ok parses]
  simp only [groundwork, Groundwork.finish, askedNames, bind_assoc, pure_bind]
  rfl

theorem askedNames_congr
    (same : ∀ name, name ∈ groupBys ++ filters.map Filter.name ↔
      name ∈ groupBysToo ++ filtersToo.map Filter.name) :
    askedNames groupBys filters = askedNames groupBysToo filtersToo :=
  Catalog.sortedSet_congr same

/-- Names whose demand is known have a node and a column. -/
theorem isSome_splitLastDot?_of_demandDimensions {start : List Node} {asked : List String}
    {begun found : Demand × List (List Hop)}
    (demands : asked.foldlM (demandDimension catalog node start) begun = .ok found) :
    ∀ name ∈ asked, (Text.splitLastDot? name).isSome := by
  intro name member
  obtain ⟨_, _, step⟩ := Result.exists_step_of_foldlM demands member
  obtain ⟨pair, split, _⟩ := Result.bind_eq_ok.1 step
  rw [splitLastDot?_of_splitName split]
  rfl

/-- The groundwork is the query of the node with joins: of its clauses only FROM differs. All names
that are asked for have a node and a column. -/
theorem exists_own_of_groundwork {asked : List String} {work : Groundwork}
    (done : groundwork catalog node asked requested = .ok work) :
    (∃ own, queryOf catalog work.database node asked.isEmpty = .ok own ∧
      work.query = { own with select := Joins.withSources own.select work.query.select.sources }) ∧
    ∀ name ∈ asked, (Text.splitLastDot? name).isSome := by
  obtain ⟨_, _, rest⟩ := Result.bind_eq_ok.1 done
  obtain ⟨references, _, rest⟩ := Result.bind_eq_ok.1 rest
  obtain ⟨⟨demand, paths⟩, demands, rest⟩ := Result.bind_eq_ok.1 rest
  obtain ⟨database, _, rest⟩ := Result.bind_eq_ok.1 rest
  obtain ⟨own, computes, rest⟩ := Result.bind_eq_ok.1 rest
  obtain ⟨names, _, rest⟩ := Result.bind_eq_ok.1 rest
  obtain ⟨joins, joined, last⟩ := Result.bind_eq_ok.1 rest
  cases Result.pure_eq_ok.1 last
  refine ⟨⟨own, computes, ?_⟩, isSome_splitLastDot?_of_demandDimensions demands⟩
  exact congrArg (fun select => { own with select }) (Joins.select_of_addPaths joined)

/-! ## Restrictions and groups -/

/-- The column of a full name, if it has a node and a column. -/
def columnNamed? (names : NodeNames) (name : String) : Option Column :=
  (Text.splitLastDot? name).map fun pair => columnOf (names.nameOf pair.1) pair.2

/-- The columns that dimensions are grouped by. -/
def groupColumns (names : NodeNames) (groupBys : List String) : List Column :=
  groupBys.filterMap (columnNamed? names)

/-- The conditions that filters restrict by. -/
def conditions (names : NodeNames) (filters : List Filter) : List Expr :=
  filters.filterMap fun filter => (columnNamed? names filter.name).map filter.toExpr

/-- A WHERE clause with more conditions. -/
def conjoin (filter : Option Expr) (conditions : List Expr) : Option Expr :=
  conditions.foldl (fun filter condition => some <|
    match filter with
    | some filter => Expr.combine filter .and condition
    | none => condition) filter

/-- Expressions with columns at their end, each unless the same column is there. -/
def addColumns (exprs : List Expr) (columns : List Column) : List Expr :=
  (columns.map Expr.column).foldl addOnce exprs

theorem columnNamed?_eq_some {name : String} {pair : String × String}
    (found : Text.splitLastDot? name = some pair) :
    columnNamed? names name = some (columnOf (names.nameOf pair.1) pair.2) := by
  rw [columnNamed?, found, Option.map_some]

theorem groupColumns_cons {name : String} {pair : String × String}
    (found : Text.splitLastDot? name = some pair) :
    groupColumns names (name :: groupBys) =
      columnOf (names.nameOf pair.1) pair.2 :: groupColumns names groupBys := by
  rw [groupColumns, List.filterMap_cons, columnNamed?_eq_some found]
  rfl

theorem conditions_cons {filter : Filter} {pair : String × String}
    (found : Text.splitLastDot? filter.name = some pair) :
    conditions names (filter :: filters) =
      filter.toExpr (columnOf (names.nameOf pair.1) pair.2) :: conditions names filters := by
  rw [conditions, List.filterMap_cons, columnNamed?_eq_some found]
  rfl

/-- Filters on columns of nodes restrict without failure. -/
theorem foldlM_addFilter (names : NodeNames)
    (split : ∀ filter ∈ filters, (Text.splitLastDot? filter.name).isSome) (select : Select) :
    filters.foldlM (addFilter names) select =
      .ok { select with filter := conjoin select.filter (conditions names filters) } := by
  induction filters generalizing select with
  | nil =>
      cases select
      rfl
  | cons filter filters ih =>
      rw [List.forall_mem_cons] at split
      obtain ⟨pair, found⟩ := Option.isSome_iff_exists.1 split.1
      have first : addFilter names select filter =
          .ok (select.addFilter (filter.toExpr (columnOf (names.nameOf pair.1) pair.2))) := by
        rw [addFilter, Filter.dimension, found]
        rfl
      rw [List.foldlM_cons, Result.bind_of_ok first, ih split.2, conditions_cons found]
      rfl

/-- Dimensions that are columns of nodes are grouped by without failure. -/
theorem foldlM_addGroupBy (names : NodeNames)
    (split : ∀ name ∈ groupBys, (Text.splitLastDot? name).isSome) (select : Select) :
    groupBys.foldlM (addGroupBy names) select =
      .ok { select with
        projection := addColumns select.projection (groupColumns names groupBys)
        groupBy := addColumns select.groupBy (groupColumns names groupBys) } := by
  induction groupBys generalizing select with
  | nil =>
      cases select
      rfl
  | cons name groupBys ih =>
      rw [List.forall_mem_cons] at split
      obtain ⟨pair, found⟩ := Option.isSome_iff_exists.1 split.1
      have first : splitName name = .ok pair := by rw [splitName, found]
      rw [List.foldlM_cons, addGroupBy, Result.bind_of_ok first,
        groupColumns_cons found]
      exact ih split.2 _

/-- What finishing gives, where it does not fail. -/
def Groundwork.complete (work : Groundwork) (groupBys : List String) (filters : List Filter) :
    Compiled where
  database := work.database
  query :=
    { work.query with
      select :=
        { work.query.select with
          projection :=
            addColumns work.query.select.projection (groupColumns work.names groupBys)
          filter := conjoin work.query.select.filter (conditions work.names filters)
          groupBy := addColumns work.query.select.groupBy (groupColumns work.names groupBys) } }

/-- Groundwork for the names of a request is finished without failure. -/
theorem Groundwork.finish_eq {work : Groundwork}
    (done : groundwork catalog node (askedNames groupBys filters) requested = .ok work) :
    work.finish groupBys filters = .ok (work.complete groupBys filters) := by
  obtain ⟨_, split⟩ := exists_own_of_groundwork done
  simp only [askedNames, Catalog.mem_sortedSet, List.mem_append] at split
  have restricts := foldlM_addFilter work.names
    (fun filter member => split _ (.inr (List.mem_map_of_mem member))) work.query.select
  have groups := fun select => foldlM_addGroupBy work.names
    (fun name member => split name (.inl member)) select
  rw [Groundwork.finish, Result.bind_of_ok restricts, Result.bind_of_ok (groups _)]
  rfl

/-! ## Columns that are added -/

/-- What columns add to expressions: in the order of the columns those that are not among the
expressions, each of them once. -/
structure Added (exprs : List Expr) (columns : List Column) (added : List Expr) : Prop where
  order : added.Sublist (columns.map Expr.column)
  nodup : (added.map Expr.byValue).Nodup
  members : ∀ value, value ∈ added.map Expr.byValue ↔
    value ∈ (columns.map Expr.column).map Expr.byValue ∧ value ∉ exprs.map Expr.byValue

variable {exprs added addedToo : List Expr} {columns columnsToo : List Column}

/-- Adding columns puts what they add behind what is there. -/
theorem exists_added (exprs : List Expr) (columns : List Column) :
    ∃ added, addColumns exprs columns = exprs ++ added ∧ Added exprs columns added := by
  induction columns generalizing exprs with
  | nil => exact ⟨[], (List.append_nil _).symm, .slnil, List.nodup_nil, by simp⟩
  | cons column columns ih =>
      rw [addColumns, List.map_cons, List.foldl_cons]
      by_cases there : (Expr.column column).byValue ∈ exprs.map Expr.byValue
      · obtain ⟨added, whole, fits⟩ := ih exprs
        rw [addOnce_of_mem there]
        refine ⟨added, whole, fits.order.cons _, fits.nodup, fun value => ?_⟩
        rw [fits.members, List.map_cons, List.map_cons, List.mem_cons, or_and_right,
          or_iff_right fun here => here.2 (here.1 ▸ there)]
      · obtain ⟨added, whole, fits⟩ := ih (exprs ++ [.column column])
        have members := fits.members
        simp only [List.map_append, List.map_singleton, List.mem_append, List.mem_singleton,
          not_or] at members
        rw [addOnce_of_not_mem there]
        refine ⟨.column column :: added, ?_, fits.order.cons_cons _, ?_, fun value => ?_⟩
        · rw [List.append_assoc] at whole
          exact whole
        · rw [List.map_cons, List.nodup_cons]
          exact ⟨fun again => ((members _).1 again).2.2 rfl, fits.nodup⟩
        · rw [List.map_cons, List.map_cons, List.map_cons, List.mem_cons, List.mem_cons, members]
          by_cases same : value = (Expr.column column).byValue
          · simp [same, there]
          · simp [same]

/-- Columns in another order add the same columns. -/
theorem Added.perm (first : Added exprs columns added) (second : Added exprs columnsToo addedToo)
    (perm : columns.Perm columnsToo) :
    (added.map Expr.byValue).Perm (addedToo.map Expr.byValue) := by
  refine (List.perm_ext_iff_of_nodup first.nodup second.nodup).2 fun value => ?_
  rw [first.members, second.members, ((perm.map Expr.column).map Expr.byValue).mem_iff]

/-- A column that was added before adds nothing. -/
theorem addColumns_of_mem {before after : List Column} {column : Column}
    (member : column ∈ before) :
    addColumns exprs (before ++ column :: after) = addColumns exprs (before ++ after) := by
  obtain ⟨added, whole, fits⟩ := exists_added exprs before
  have there : (Expr.column column).byValue ∈ (exprs ++ added).map Expr.byValue := by
    rw [List.map_append, List.mem_append, fits.members]
    by_cases known : (Expr.column column).byValue ∈ exprs.map Expr.byValue
    · exact .inl known
    · exact .inr ⟨List.mem_map_of_mem (List.mem_map_of_mem member), known⟩
  have first : (before.map Expr.column).foldl addOnce exprs = exprs ++ added := whole
  rw [addColumns, addColumns, List.map_append, List.map_append, List.foldl_append,
    List.foldl_append, List.map_cons, List.foldl_cons, first, addOnce_of_mem there]

/-- A dimension that was grouped by before adds nothing. -/
theorem addColumns_groupColumns_of_mem {before after : List String} {name : String}
    (member : name ∈ before) :
    addColumns exprs (groupColumns names (before ++ name :: after)) =
      addColumns exprs (groupColumns names (before ++ after)) := by
  rw [groupColumns, groupColumns, List.filterMap_append, List.filterMap_append,
    List.filterMap_cons]
  cases found : columnNamed? names name with
  | none => rfl
  | some column => exact addColumns_of_mem (List.mem_filterMap.2 ⟨name, member, found⟩)

/-! ## Requests in another order -/

/-- A query that shows more columns than another one, is grouped by more and restricted by more
conditions, and is the same otherwise. -/
structure Completes (base : Query) (names : NodeNames) (groupBys : List String)
    (filters : List Filter) (shown grouped : List Expr) (query : Query) : Prop where
  whole : query =
    { base with
      select :=
        { base.select with
          projection := base.select.projection ++ shown
          filter := conjoin base.select.filter (conditions names filters)
          groupBy := base.select.groupBy ++ grouped } }
  shown : Added base.select.projection (groupColumns names groupBys) shown
  grouped : Added base.select.groupBy (groupColumns names groupBys) grouped

/-- Groundwork that is completed shows the columns of the request and is grouped by them. -/
theorem Groundwork.completes (work : Groundwork) (groupBys : List String) (filters : List Filter) :
    ∃ shown grouped, Completes work.query work.names groupBys filters shown grouped
      (work.complete groupBys filters).query := by
  obtain ⟨shown, projection, shows⟩ :=
    exists_added work.query.select.projection (groupColumns work.names groupBys)
  obtain ⟨grouped, groupBy, groups⟩ :=
    exists_added work.query.select.groupBy (groupColumns work.names groupBys)
  refine ⟨shown, grouped, ?_, shows, groups⟩
  rw [complete, projection, groupBy]

/-- Filters in another order are read in that order. -/
theorem exists_parsed_of_perm {texts textsToo : List String} (perm : texts.Perm textsToo)
    (parses : texts.mapM Filter.ofText = .ok filters) :
    ∃ filtersToo, textsToo.mapM Filter.ofText = .ok filtersToo ∧ filters.Perm filtersToo := by
  rw [Result.mapM_eq_ok_iff] at parses
  obtain ⟨filtersToo, each, same⟩ := List.perm_comp_forall₂ perm.symm parses
  exact ⟨filtersToo, Result.mapM_eq_ok_iff.2 each, same.symm⟩

theorem askedNames_of_mem {before after : List String} {name : String} (member : name ∈ before) :
    askedNames (before ++ name :: after) filters = askedNames (before ++ after) filters := by
  refine askedNames_congr fun other => ?_
  simp only [List.mem_append, List.mem_cons]
  constructor
  · rintro ((there | rfl | there) | there)
    · exact .inl (.inl there)
    · exact .inl (.inl member)
    · exact .inl (.inr there)
    · exact .inr there
  · rintro ((there | there) | there)
    · exact .inl (.inl there)
    · exact .inl (.inr (.inr there))
    · exact .inr there

/-- A dimension that is repeated changes nothing. -/
theorem nodeQuery_of_mem {before after texts : List String} {name : String}
    (member : name ∈ before) :
    nodeQuery catalog node (before ++ name :: after) texts requested =
      nodeQuery catalog node (before ++ after) texts requested := by
  cases parses : texts.mapM Filter.ofText with
  | error failure =>
      rw [nodeQuery, nodeQuery, parses]
      rfl
  | ok filters =>
      have asked : askedNames (before ++ name :: after) filters =
          askedNames (before ++ after) filters := askedNames_of_mem member
      rw [nodeQuery_of_parsed parses, nodeQuery_of_parsed parses, ← asked]
      cases done : groundwork catalog node (askedNames (before ++ name :: after) filters)
          requested with
      | error failure => rfl
      | ok work =>
          rw [Result.bind_of_ok rfl, Result.bind_of_ok rfl, Groundwork.finish_eq done,
            Groundwork.finish_eq (asked ▸ done), Groundwork.complete, Groundwork.complete,
            addColumns_groupColumns_of_mem member, addColumns_groupColumns_of_mem member]

/-- A request in another order fails in the same way, or it is compiled to the same query for the
same database but for the columns and conditions that are added to the query of the node, which are
the same in the other order. A dimension that is repeated changes nothing. -/
theorem request_order_is_immaterial (catalog : Catalog) (node : Node) (requested : Option Int) :
    (∀ groupBys groupBysToo texts textsToo : List String, groupBys.Perm groupBysToo →
      texts.Perm textsToo → (∀ text ∈ texts, ∃ filter, Filter.ofText text = .ok filter) →
      (∀ failure, nodeQuery catalog node groupBys texts requested = .error failure ↔
        nodeQuery catalog node groupBysToo textsToo requested = .error failure) ∧
      ∀ compiled, nodeQuery catalog node groupBys texts requested = .ok compiled →
        ∃ other, nodeQuery catalog node groupBysToo textsToo requested = .ok other ∧
          other.database = compiled.database ∧
          ∃ (own base : Query) (names : NodeNames) (filters filtersToo : List Filter)
              (shown shownToo grouped groupedToo : List Expr),
            queryOf catalog compiled.database node (askedNames groupBys filters).isEmpty =
              .ok own ∧
            base = { own with select := Joins.withSources own.select base.select.sources } ∧
            texts.mapM Filter.ofText = .ok filters ∧
            textsToo.mapM Filter.ofText = .ok filtersToo ∧
            Completes base names groupBys filters shown grouped compiled.query ∧
            Completes base names groupBysToo filtersToo shownToo groupedToo other.query ∧
            (shown.map Expr.byValue).Perm (shownToo.map Expr.byValue) ∧
            (grouped.map Expr.byValue).Perm (groupedToo.map Expr.byValue) ∧
            (conditions names filters).Perm (conditions names filtersToo)) ∧
    ∀ (before : List String) (name : String) (after texts : List String), name ∈ before →
      nodeQuery catalog node (before ++ name :: after) texts requested =
        nodeQuery catalog node (before ++ after) texts requested := by
  constructor
  · intro groupBys groupBysToo texts textsToo groups restricts parse
    obtain ⟨filters, parses⟩ := Result.exists_mapM parse
    obtain ⟨filtersToo, parsesToo, perm⟩ := exists_parsed_of_perm restricts parses
    -- Both requests ask for one set of names, so they have the same groundwork or fail alike.
    have asked : askedNames groupBys filters = askedNames groupBysToo filtersToo :=
      askedNames_congr fun name => (groups.append (perm.map Filter.name)).mem_iff
    rw [nodeQuery_of_parsed parses, nodeQuery_of_parsed parsesToo, ← asked]
    cases done : groundwork catalog node (askedNames groupBys filters) requested with
    | error failure => exact ⟨fun _ => Iff.rfl, nofun⟩
    | ok work =>
        obtain ⟨⟨own, computes, base⟩, _⟩ := exists_own_of_groundwork done
        have finish := Groundwork.finish_eq done
        have finishToo := Groundwork.finish_eq (asked ▸ done)
        rw [Result.bind_of_ok rfl, Result.bind_of_ok rfl, finish, finishToo]
        refine ⟨fun _ => iff_of_false nofun nofun, fun compiled same => ?_⟩
        cases same
        obtain ⟨shown, grouped, completes⟩ := work.completes groupBys filters
        obtain ⟨shownToo, groupedToo, completesToo⟩ := work.completes groupBysToo filtersToo
        have columns : (groupColumns work.names groupBys).Perm
            (groupColumns work.names groupBysToo) := groups.filterMap _
        exact ⟨_, rfl, rfl, own, work.query, work.names, filters, filtersToo, shown, shownToo,
          grouped, groupedToo, computes, base, parses, parsesToo, completes, completesToo,
          completes.shown.perm completesToo.shown columns,
          completes.grouped.perm completesToo.grouped columns, perm.filterMap _⟩
  · exact fun before name after texts member => nodeQuery_of_mem member

/-- The revenue from orders that are paid. -/
def paidSales : Node :=
  { name := "revenue", kind := .metric, parents := ["orders"]
    expression := some "SELECT SUM(amount) FROM orders WHERE status = 'paid'" }

/-- Orders of customers, and the revenue from them. -/
def purchases : Catalog :=
  { databases := [{ id := 1, name := "a", uri := "duckdb://x" }]
    nodes :=
      [{ name := "orders", kind := .source, tables := [{ database := 1, table := "orders" }]
         columns := [{ name := "amount" }, { name := "status" },
           { name := "customer", dimension := some "customers" }] },
       { name := "customers", kind := .dimension
         tables := [{ database := 1, table := "customers" }]
         columns := [{ name := "id" }, { name := "country" }] }, paidSales] }

/-- Revenue by country and status is that by status and country, with the columns and the conditions
in the other order. -/
theorem request_order_is_immaterial_purchases :
    ∃ compiled other,
      nodeQuery purchases paidSales ["orders.status", "customers.country"]
        ["orders.amount>10", "customers.country!='DE'"] none = .ok compiled ∧
      nodeQuery purchases paidSales ["customers.country", "orders.status", "customers.country"]
        ["customers.country!='DE'", "orders.amount>10"] none = .ok other ∧
      other.database = compiled.database ∧
      ∃ (base : Query) (names : NodeNames) (filters filtersToo : List Filter)
          (shown shownToo grouped groupedToo : List Expr),
        Completes base names ["orders.status", "customers.country"] filters shown grouped
          compiled.query ∧
        Completes base names ["customers.country", "orders.status"] filtersToo shownToo groupedToo
          other.query ∧
        (shown.map Expr.byValue).Perm (shownToo.map Expr.byValue) ∧
        (grouped.map Expr.byValue).Perm (groupedToo.map Expr.byValue) ∧
        (conditions names filters).Perm (conditions names filtersToo) := by
  obtain ⟨inOrder, repeated⟩ := request_order_is_immaterial purchases paidSales none
  have parse : ∀ text ∈ ["orders.amount>10", "customers.country!='DE'"],
      ∃ filter, Filter.ofText text = .ok filter := fun text member =>
    Result.exists_eq_ok (by revert text; decide +kernel)
  obtain ⟨compiled, planned⟩ := Result.exists_eq_ok (by decide +kernel :
    (nodeQuery purchases paidSales ["orders.status", "customers.country"]
      ["orders.amount>10", "customers.country!='DE'"] none).toOption.isSome)
  obtain ⟨other, plannedToo, same, _, base, names, filters, filtersToo, shown, shownToo, grouped,
      groupedToo, _, _, _, _, completes, completesToo, alike⟩ :=
    (inOrder ["orders.status", "customers.country"] ["customers.country", "orders.status"] _
      ["customers.country!='DE'", "orders.amount>10"] (.swap _ _ _) (.swap _ _ _) parse).2
      compiled planned
  have again := repeated ["customers.country", "orders.status"] "customers.country" []
    ["customers.country!='DE'", "orders.amount>10"] (by decide)
  exact ⟨compiled, other, planned, again.trans plannedToo, same, base, names, filters, filtersToo,
    shown, shownToo, grouped, groupedToo, completes, completesToo, alike⟩

end Planner
end SemanticLayer
