import SemanticLayer.Proofs.Binding
import SemanticLayer.Proofs.Descent
import SemanticLayer.Proofs.Failures
import SemanticLayer.Proofs.Plans

/-!
# What is promised is compiled

A database that provides columns of a node has a table of the node, or what the expression of the
node needs of each of its parents. So a node can be compiled wherever its columns can be computed,
and a query for which a database was chosen never fails for want of one.
-/

namespace SemanticLayer

open Result (FailsWith)

namespace Catalog

variable {catalog : Catalog} {database : Database} {node : Node} {columns : List String}

/-- Every node with parents has an expression over them. -/
def Derivable (catalog : Catalog) : Prop :=
  ∀ node ∈ catalog.nodes, node.parents ≠ [] → node.expression.isSome

instance : Decidable catalog.Derivable :=
  inferInstanceAs (Decidable (∀ node ∈ catalog.nodes, node.parents ≠ [] → node.expression.isSome))

/-- Whether some columns of a node can be computed in a database. -/
def Provides (catalog : Catalog) (database : Database) (node : Node) (columns : List String) :
    Prop :=
  ∃ ids, catalog.computableIds node columns = .ok ids ∧ database.id ∈ ids

theorem provides_of_computableDatabases {found : List Database}
    (done : catalog.computableDatabases node columns = .ok found) (member : database ∈ found) :
    catalog.Provides database node columns := by
  obtain ⟨ids, known, last⟩ := Result.bind_eq_ok.1 done
  cases Result.pure_eq_ok.1 last
  exact ⟨ids, known, by simpa using (List.mem_filter.1 member).2⟩

/-- A database provides columns by a table of the node, or by the parents of the node. -/
theorem Provides.table_or_parents (accepted : catalog.Accepted)
    (provides : catalog.Provides database node columns) :
    (∃ table ∈ node.tables, table.database = database.id ∧ table.holds columns = true) ∨
      (catalog.parents node ≠ [] ∧ ∃ references, catalog.nodeReferences node = .ok references ∧
        ∀ parent ∈ catalog.parents node,
          catalog.Provides database parent (references.of parent.name)) := by
  obtain ⟨ids, done, member⟩ := provides
  exact (mem_computableIds accepted done database.id).1 member

/-- The database that is chosen provides what is referenced of every node. -/
theorem provides_of_databaseFor {nodes : List Node} {references : References}
    {requested : Option Int}
    (chosen : catalog.databaseFor nodes references requested = .ok database) :
    ∀ node ∈ nodes, catalog.Provides database node (references.of node.name) := by
  intro node member
  obtain ⟨found, candidates, rest⟩ := Result.bind_eq_ok.1 chosen
  have among : database ∈ found := by
    split at rest
    · cases rest
    · dsimp only at rest
      split at rest
      next least =>
        cases Result.pure_eq_ok.1 rest
        have allowed := Planner.mem_of_firstLeast? least
        split at allowed
        · exact (List.mem_filter.1 allowed).1
        · exact allowed
      all_goals cases rest
  rw [eq_filter_of_candidates candidates] at among
  have all := List.all_eq_true.1 (List.mem_filter.1 among).2 node member
  rw [computes] at all
  split at all
  next ids known => exact ⟨ids, known, by simpa using all⟩
  next => cases all

theorem isSome_firstLeast? {α : Type} {key : α → Int} {items : List α} (some : items ≠ []) :
    (firstLeast? key items).isSome := by
  cases items with
  | nil => contradiction
  | cons first rest =>
      rw [firstLeast?]
      split <;> rfl

/-- A node with a table in a database is materialized there. -/
theorem isSome_tableIn? {table : Materialization} (member : table ∈ node.tables) :
    (node.tableIn? table.database).isSome := by
  apply isSome_firstLeast?
  have there : table ∈ node.tables.filter fun other => other.database == table.database :=
    List.mem_filter.2 ⟨member, by simp⟩
  exact List.ne_nil_of_mem there

/-- Columns of a node that is not materialized are provided by its parents. -/
theorem Provides.parents (accepted : catalog.Accepted)
    (provides : catalog.Provides database node columns)
    (none : node.tableIn? database.id = none) :
    catalog.parents node ≠ [] ∧ ∃ references, catalog.nodeReferences node = .ok references ∧
      ∀ parent ∈ catalog.parents node,
        catalog.Provides database parent (references.of parent.name) := by
  rcases provides.table_or_parents accepted with ⟨table, member, same, _⟩ | parents
  · have materialized := isSome_tableIn? member
    rw [same, none] at materialized
    cases materialized
  · exact parents

theorem parents_eq_nil (none : node.parents = []) : catalog.parents node = [] := by
  rw [Catalog.parents, none, List.filterMap_nil]

/-- A node without an expression has no parents. -/
theorem Derivable.parents_eq_nil (derivable : catalog.Derivable) (member : node ∈ catalog.nodes)
    (none : node.expression = none) : node.parents = [] := by
  by_contra some
  have expression := derivable node member some
  rw [none] at expression
  cases expression

/-- A node with parents has an expression. -/
theorem Derivable.expression (derivable : catalog.Derivable) (member : node ∈ catalog.nodes)
    (some : catalog.parents node ≠ []) : node.expression.isSome :=
  derivable node member fun none => some (Catalog.parents_eq_nil none)

/-- A node without an expression is materialized where its columns are provided. -/
theorem Provides.materialized (accepted : catalog.Accepted) (derivable : catalog.Derivable)
    (member : node ∈ catalog.nodes) (provides : catalog.Provides database node columns)
    (none : node.expression = none) : (node.tableIn? database.id).isSome := by
  rcases provides.table_or_parents accepted with ⟨table, there, same, _⟩ | ⟨some, _⟩
  · exact same ▸ isSome_tableIn? there
  · exact absurd (Catalog.parents_eq_nil (derivable.parents_eq_nil member none)) some

end Catalog

namespace Planner

open SemanticLayer.Sql
open Catalog (Node Database Hop)

variable {catalog : Catalog} {database : Database} {node : Node}

/-! ## Compiling nodes -/

/-- A computation that does not fail for want of a database. -/
abbrev Served {α : Type} (run : Result α) : Prop :=
  run.FailsWith (· ≠ .noValidDatabase)

theorem Served.ne {α : Type} {run : Result α} (served : Served run) :
    run ≠ .error .noValidDatabase :=
  fun failed => served _ failed rfl

theorem served_ofText (text : String) : Served (Query.ofText text none) := by
  refine (Query.ofText_failsWith text none).mono fun error fault => ?_
  rintro rfl
  exact fault

/-- The owner of a column can only be ambiguous. -/
theorem qualifyColumn_failsWith {allowed : Error → Prop}
    (ambiguous : ∀ column, allowed (.ambiguousColumn column)) (names : NodeNames)
    (nodes : List Node) (column : Column) :
    (qualifyColumn names nodes column).FailsWith allowed := by
  rw [qualifyColumn]
  split
  · exact .ok _
  · split
    · exact .ok _
    · exact .ok _
    · exact .error (ambiguous _)

theorem served_qualifyColumns (select : Select) (nodes : List Node) :
    Served (qualifyColumns select nodes) := by
  have column : ∀ column, Served (qualifyColumn (NodeNames.ofSelect select nodes) nodes column) :=
    qualifyColumn_failsWith (fun _ => nofun) _ nodes
  have expr : ∀ item, Served (Expr.mapColumnsM (qualifyColumn _ nodes) item) :=
    fun _ => Expr.mapColumnsM_failsWith fun found _ => column found
  exact (select.mapExprsM_failsWith fun item _ => expr item).bind fun middle _ =>
    middle.mapConditionsM_failsWith fun _ _ _ _ on _ => expr on

/-- Binding fails as the relations of the nodes fail. -/
theorem bindRelations_failsWith {allowed : Error → Prop}
    {bind : Node → Option Name → Result Relation} {nodes : List Node}
    (each : ∀ node ∈ nodes, ∀ aliasName, (bind node aliasName).FailsWith allowed)
    (select : Select) : (bindRelations bind select nodes).FailsWith allowed := by
  apply Select.mapRelationsM_failsWith
  intro relation
  cases relation with
  | derived query aliasName => exact .ok _
  | table table =>
      rw [bindRelation]
      split
      next node found => exact each node (List.mem_of_find?_eq_some found) _
      next => exact .ok _

/-- An expression can be compiled if each parent can be. -/
theorem served_expressionQuery {bind : Node → Option Name → Result Relation}
    (some : node.expression.isSome)
    (each : ∀ parent ∈ catalog.parents node, ∀ aliasName, Served (bind parent aliasName)) :
    Served (expressionQuery catalog bind node) := by
  rw [expressionQuery]
  split
  next none =>
    rw [none] at some
    cases some
  next expression _ =>
    refine (served_ofText expression).bind fun query _ => ?_
    refine (served_qualifyColumns query.select _).bind fun select _ => ?_
    exact (bindRelations_failsWith each select).bind fun _ _ => .pure _

/-- A node is a relation of every database that provides columns of it. The induction is on the
length of the chain of parents. -/
theorem served_relationOf (accepted : catalog.Accepted) (derivable : catalog.Derivable)
    (member : node ∈ catalog.nodes) {columns : List String}
    (provides : catalog.Provides database node columns) (aliasName : Option Name) :
    Served (relationOf catalog database node aliasName) := by
  induction rank : catalog.rank node using Nat.strong_induction_on generalizing node columns
    aliasName with
  | h rank ih =>
      cases stored : node.tableIn? database.id with
      | some table =>
          rw [relationOf_of_stored stored]
          exact .ok _
      | none =>
          obtain ⟨some, references, _, each⟩ := provides.parents accepted stored
          rw [relationOf_of_not_stored accepted stored]
          refine (served_expressionQuery (derivable.expression member some) ?_).bind
            fun _ _ => .pure _
          intro parent isParent
          have less := accepted.rank_parent_lt member isParent
          have known := (Catalog.mem_of_mem_parents isParent).1
          exact fun other => ih _ (rank ▸ less) known (each parent isParent) other rfl

theorem served_queryOf {stored : Bool}
    (materialized : node.expression = none → (node.tableIn? database.id).isSome)
    (each : ∀ parent ∈ catalog.parents node, ∀ aliasName,
      Served (relationOf catalog database parent aliasName)) :
    Served (queryOf catalog database node stored) := by
  rw [queryOf]
  split
  next table _ => exact .ok _
  next unread =>
    apply served_expressionQuery _ each
    cases expression : node.expression with
    | some text => rfl
    | none =>
        have there := materialized expression
        simp only [expression, Option.isNone_none, Bool.or_true, if_true] at unread
        rw [unread] at there
        cases there

/-- The table of a node or else its expression can be read in every database that provides columns
of the node. -/
theorem served_stored_queryOf (accepted : catalog.Accepted) (derivable : catalog.Derivable)
    (member : node ∈ catalog.nodes) {columns : List String}
    (provides : catalog.Provides database node columns) :
    Served (queryOf catalog database node true) := by
  cases stored : node.tableIn? database.id with
  | some table =>
      rw [queryOf, Bool.true_or, if_pos rfl, stored]
      exact .ok _
  | none =>
      obtain ⟨some, references, _, each⟩ := provides.parents accepted stored
      apply served_queryOf (provides.materialized accepted derivable member)
      intro parent isParent
      have known := (Catalog.mem_of_mem_parents isParent).1
      exact served_relationOf accepted derivable known (each parent isParent)

/-! ## Nodes that take part -/

/-- Nodes of their names, among them those to start from and the dimensions of some hops. -/
structure Demand.Covers (catalog : Catalog) (start : List Node) (hops : List Hop)
    (demand : Demand) : Prop where
  named : ∀ node ∈ demand.nodes, catalog.node? node.name = some node
  start : ∀ node ∈ start, node ∈ demand.nodes
  dimensions : ∀ hop ∈ hops, ∀ node,
    catalog.node? hop.dimension = some node → node ∈ demand.nodes

namespace Demand

variable {start : List Node} {hops path : List Hop} {hop : Hop} {demand after : Demand}

theorem node?_of_node {name : String} (known : catalog.node name = .ok node) :
    catalog.node? name = some node := by
  rw [Catalog.node] at known
  split at known
  · cases known
    assumption
  · cases known

theorem mem_addNode_of_mem {other : Node} (there : other ∈ demand.nodes) (node : Node) :
    other ∈ (demand.addNode node).nodes := by
  rw [addNode]
  split
  · exact there
  · exact List.mem_append_left _ there

/-- A node of its name takes part once it is added. -/
theorem Covers.mem_addNode (covers : demand.Covers catalog start hops)
    (named : catalog.node? node.name = some node) : node ∈ (demand.addNode node).nodes := by
  rw [addNode]
  split
  next met =>
    obtain ⟨other, there, called⟩ := List.any_eq_true.1 met
    have also := covers.named other there
    rw [beq_iff_eq.1 called, named] at also
    exact Option.some.inj also ▸ there
  next => exact List.mem_append_right _ List.mem_cons_self

theorem Covers.addColumn (covers : demand.Covers catalog start hops) (node column : String) :
    (demand.addColumn node column).Covers catalog start hops :=
  ⟨covers.named, covers.start, covers.dimensions⟩

/-- A hop makes its dimension take part, and no node leaves. -/
theorem Covers.addHop (covers : demand.Covers catalog start hops)
    (done : demand.addHop catalog hop = .ok after) :
    after.Covers catalog start (hops ++ [hop]) := by
  obtain ⟨dimension, known, last⟩ := Result.bind_eq_ok.1 done
  cases Result.pure_eq_ok.1 last
  have found := node?_of_node known
  have named : catalog.node? dimension.name = some dimension := by
    rw [name_of_node? found, found]
  have columns := (covers.addColumn hop.source hop.column).addColumn hop.dimension
    hop.dimensionColumn
  constructor
  · intro node member
    rw [addNode] at member
    split at member
    · exact columns.named node member
    · rcases List.mem_append.1 member with there | last
      · exact columns.named node there
      · cases List.mem_singleton.1 last
        exact named
  · exact fun node member => mem_addNode_of_mem (columns.start node member) dimension
  · intro other member node same
    rcases List.mem_append.1 member with before | last
    · exact mem_addNode_of_mem (columns.dimensions other before node same) dimension
    · cases List.mem_singleton.1 last
      cases found.symm.trans same
      exact columns.mem_addNode named

theorem Covers.addPath (covers : demand.Covers catalog start hops)
    (done : demand.addPath catalog path = .ok after) :
    after.Covers catalog start (hops ++ path) := by
  rw [Demand.addPath] at done
  induction path generalizing demand hops with
  | nil =>
      cases Result.pure_eq_ok.1 done
      rwa [List.append_nil]
  | cons hop path ih =>
      rw [List.foldlM_cons, Result.bind_eq_ok] at done
      obtain ⟨next, first, later⟩ := done
      rw [List.append_cons]
      exact ih (covers.addHop first) later

variable {paths found : List (List Hop)}

theorem Covers.demandDimension {asking : Node} {name : String}
    (covers : demand.Covers catalog start paths.flatten)
    (done : demandDimension catalog asking start (demand, paths) name = .ok (after, found)) :
    after.Covers catalog start found.flatten := by
  obtain ⟨⟨dimension, column⟩, _, step⟩ := Result.bind_eq_ok.1 done
  have columns := covers.addColumn dimension column
  dsimp only at step
  split at step
  · cases Result.pure_eq_ok.1 step
    exact columns
  · split at step
    next => cases step
    next path way =>
      obtain ⟨joined, added, last⟩ := Result.bind_eq_ok.1 step
      cases Result.pure_eq_ok.1 last
      simpa using columns.addPath added

theorem Covers.demandJoin {subject dimension : String}
    (covers : demand.Covers catalog start paths.flatten)
    (done : demandJoin catalog subject start (demand, paths) dimension = .ok (after, found)) :
    after.Covers catalog start found.flatten := by
  rw [Planner.demandJoin] at done
  split at done
  next => cases done
  next path way =>
    obtain ⟨joined, added, last⟩ := Result.bind_eq_ok.1 done
    cases Result.pure_eq_ok.1 last
    simpa using covers.addPath added

/-- Nodes to start from cover themselves. -/
theorem covers_start {references : Catalog.References}
    (named : ∀ node ∈ start, catalog.node? node.name = some node) :
    Covers catalog start [] { nodes := start, references } :=
  ⟨named, fun _ member => member, nofun⟩

end Demand

/-! ## Joining -/

/-- Every node can be read in the database, whatever it goes by. -/
def Readable (catalog : Catalog) (database : Database) (nodes : List Node) : Prop :=
  ∀ node ∈ nodes, ∀ aliasName, Served (relationOf catalog database node aliasName)

theorem served_addHop {joins : Joins} {hop : Hop}
    (readable : ∀ node, catalog.node? hop.dimension = some node →
      Served (relationOf catalog database node none)) :
    Served (joins.addHop catalog database hop) := by
  rw [Joins.addHop]
  split
  · exact .pure _
  · have known : Served (catalog.node hop.dimension) := by
      rw [Catalog.node]
      split
      · exact .ok _
      · exact .error Error.noConfusion
    refine known.bind fun dimension found => ?_
    refine (readable dimension (Demand.node?_of_node found)).bind fun relation _ => ?_
    split
    · exact .error Error.noConfusion
    · exact .pure _

/-- Dimensions that can be read can be joined. -/
theorem served_addPaths {paths : List (List Hop)} {joins : Joins} {nodes : List Node}
    (readable : Readable catalog database nodes)
    (dimensions : ∀ hop ∈ paths.flatten, ∀ node,
      catalog.node? hop.dimension = some node → node ∈ nodes) :
    Served (paths.foldlM (Joins.addPath catalog database) joins) := by
  refine .foldlM (fun _ => True) trivial (fun path member joins _ => ?_) fun _ _ _ _ _ _ => trivial
  rw [Joins.addPath_eq_foldlM]
  refine .foldlM (fun _ => True) trivial (fun hop onPath joins _ => ?_) fun _ _ _ _ _ _ => trivial
  apply served_addHop
  intro node found
  exact readable node (dimensions hop (List.mem_flatten.2 ⟨path, member, onPath⟩) node found) none

/-- Nodes that the chosen database provides can be read in it. -/
theorem readable_of_database (accepted : catalog.Accepted) (derivable : catalog.Derivable)
    {demand : Demand} {requested : Option Int}
    (named : ∀ node ∈ demand.nodes, catalog.node? node.name = some node)
    (chosen : demand.database catalog requested = .ok database) :
    Readable catalog database demand.nodes := by
  intro node member aliasName
  have known := (Catalog.mem_of_node? (named node member)).1
  exact served_relationOf accepted derivable known
    (Catalog.provides_of_databaseFor chosen node member) aliasName

/-! ## Queries that were started -/

section

variable {groupBys filters : List String} {sql : String} {requested : Option Int}

/-- The database that is chosen for a query of a node. -/
def NodeStart.choose (start : NodeStart catalog node groupBys filters) (requested : Option Int) :
    Result Database :=
  (if (askedNames groupBys start.parsed).isEmpty then { start.demand with nodes := [node] }
    else start.demand).database catalog requested

/-- What is left of a query of a node once a database is chosen. -/
def NodeStart.finish (start : NodeStart catalog node groupBys filters) (chosen : Database) :
    Result Compiled := do
  let query ← queryOf catalog chosen node (askedNames groupBys start.parsed).isEmpty
  let names ← namesInQuery catalog node query
  let joins ← start.paths.foldlM (Joins.addPath catalog chosen) (Joins.start query.select names)
  let restricted ← start.parsed.foldlM (addFilter names) joins.select
  let select ← groupBys.foldlM (addGroupBy names) restricted
  pure { database := chosen, query := { query with select } }

/-- A query of a node that is started is finished in the database that is chosen. -/
theorem NodeStart.nodeQuery_eq (start : NodeStart catalog node groupBys filters) :
    nodeQuery catalog node groupBys filters requested =
      start.choose requested >>= start.finish := by
  have valid := start.valid
  have demands := start.demands
  rw [askedNames] at valid demands
  rw [nodeQuery, Result.bind_of_ok start.parses, Result.bind_of_ok valid,
    Result.bind_of_ok start.refers, Result.bind_of_ok demands]
  rfl

/-- The database that is chosen for SQL over metrics. -/
def MetricStart.choose (start : MetricStart catalog sql) (requested : Option Int) :
    Result Database :=
  start.demand.database catalog requested

/-- What is left of SQL over metrics once a database is chosen. -/
def MetricStart.finish (start : MetricStart catalog sql) (chosen : Database) : Result Compiled := do
  let joins ← start.paths.foldlM (Joins.addPath catalog chosen)
    (Joins.start start.select start.scope.names)
  let bound ← bindRelations (relationOf catalog chosen) joins.select start.scope.parents
  pure { database := chosen, query := { start.query with select := bound } }

/-- SQL over metrics that is started is finished in the database that is chosen. -/
theorem MetricStart.metricQuery_eq (start : MetricStart catalog sql) :
    metricQuery catalog sql requested = start.choose requested >>= start.finish := by
  have scopes := start.scopes
  have resolves := start.resolves
  have demands := start.demands
  rw [withItems] at scopes resolves
  rw [subjectName] at demands
  have alone : start.query.ctes.isEmpty = true := by rw [start.alone, List.isEmpty_nil]
  rw [metricQuery, Result.bind_of_ok start.reads]
  simp only [alone, Bool.not_true, Bool.false_eq_true, if_false]
  rw [Result.bind_of_ok start.overMetrics, Result.bind_of_ok start.finds,
    Result.bind_of_ok start.agree, Result.bind_of_ok scopes, Result.bind_of_ok start.refers,
    Result.bind_of_ok resolves, Result.bind_of_ok demands]
  rfl

/-! ## Finishing -/

theorem served_namesInQuery (query : Query) : Served (namesInQuery catalog node query) := by
  rw [namesInQuery]
  split
  · exact (served_ofText _).bind fun _ _ => .pure _
  · exact .pure _

theorem served_addFilters (names : NodeNames) (filters : List Filter) (select : Select) :
    Served (filters.foldlM (addFilter names) select) := by
  refine .foldlM (fun _ => True) trivial (fun filter _ select _ => ?_) fun _ _ _ _ _ _ => trivial
  have dimension : Served filter.dimension := by
    rw [Filter.dimension]
    split
    · exact .ok _
    · exact .error nofun
  exact dimension.bind fun _ _ => .pure _

theorem served_addGroupBys (names : NodeNames) (groupBys : List String) (select : Select) :
    Served (groupBys.foldlM (addGroupBy names) select) := by
  refine .foldlM (fun _ => True) trivial (fun name _ select _ => ?_) fun _ _ _ _ _ _ => trivial
  have split : Served (splitName name) := by
    rw [splitName]
    split
    · exact .ok _
    · exact .error Error.noConfusion
  exact split.bind fun _ _ => .pure _

theorem roots_eq_parents (some : catalog.parents node ≠ []) :
    catalog.roots node = catalog.parents node := by
  rw [Catalog.roots, if_neg]
  intro orphan
  exact some (Catalog.parents_eq_nil (List.isEmpty_iff.1 orphan))

/-- The nodes that a query starts from are the nodes of their names. -/
theorem named_roots (accepted : catalog.Accepted) (member : node ∈ catalog.nodes) :
    ∀ root ∈ catalog.roots node, catalog.node? root.name = some root := by
  rw [Catalog.roots]
  split
  · intro root isNode
    cases List.mem_singleton.1 isNode
    exact accepted.node?_name member
  · exact named_parents node

/-- The demand of a query for a node has the nodes that it starts from, and the dimensions that are
joined. -/
theorem NodeStart.covers (accepted : catalog.Accepted) (member : node ∈ catalog.nodes)
    (start : NodeStart catalog node groupBys filters) :
    start.demand.Covers catalog (catalog.roots node) start.paths.flatten := by
  have roots := named_roots accepted member
  refine Result.foldlM_induction
    (fun found : Demand × List (List Hop) =>
      found.1.Covers catalog (catalog.roots node) found.2.flatten) ?_ ?_ start.demands
  · exact Demand.covers_start roots
  · exact fun _ _ _ _ covers done => covers.demandDimension done

/-- Without a dimension no path is followed. -/
theorem NodeStart.paths_eq_nil (start : NodeStart catalog node groupBys filters)
    (none : askedNames groupBys start.parsed = []) : start.paths = [] := by
  have demands := start.demands
  rw [none] at demands
  exact (congrArg Prod.snd (Result.pure_eq_ok.1 demands)).symm

/-- A query for a node is finished in the database that is chosen for it. -/
theorem NodeStart.served_finish (accepted : catalog.Accepted) (derivable : catalog.Derivable)
    (member : node ∈ catalog.nodes) (start : NodeStart catalog node groupBys filters)
    (chosen : start.choose requested = .ok database) : Served (start.finish database) := by
  rw [choose] at chosen
  have compiles : Served (queryOf catalog database node (askedNames groupBys start.parsed).isEmpty) ∧
      ∀ joins, Served (start.paths.foldlM (Joins.addPath catalog database) joins) := by
    by_cases none : askedNames groupBys start.parsed = []
    · rw [none, List.isEmpty_nil, if_pos rfl] at chosen
      have provides := Catalog.provides_of_databaseFor chosen node List.mem_cons_self
      rw [none, start.paths_eq_nil none]
      exact ⟨served_stored_queryOf accepted derivable member provides, fun _ => .pure _⟩
    · have some : (askedNames groupBys start.parsed).isEmpty = false := by simpa using none
      rw [some, if_neg Bool.false_ne_true] at chosen
      have covers := start.covers accepted member
      have readable := readable_of_database accepted derivable covers.named chosen
      rw [some]
      refine ⟨served_queryOf ?_ ?_, fun joins => served_addPaths readable covers.dimensions⟩
      · intro none
        have orphan := derivable.parents_eq_nil member none
        have root : node ∈ catalog.roots node := by
          rw [Catalog.roots, if_pos (List.isEmpty_iff.2 orphan)]
          exact List.mem_singleton_self node
        have provides := Catalog.provides_of_databaseFor chosen node (covers.start node root)
        exact provides.materialized accepted derivable member none
      · intro parent isParent
        apply readable parent (covers.start parent _)
        rwa [roots_eq_parents (List.ne_nil_of_mem isParent)]
  refine compiles.1.bind fun query _ => (served_namesInQuery query).bind fun names _ => ?_
  refine (compiles.2 _).bind fun joins _ => (served_addFilters names _ _).bind fun select _ => ?_
  exact (served_addGroupBys names groupBys select).bind fun _ _ => .pure _

theorem node?_of_subject {select : Select} (done : subject? catalog select = .ok (some node)) :
    catalog.node? node.name = some node := by
  obtain ⟨nodes, each, last⟩ := Result.bind_eq_ok.1 done
  split at last
  next => cases Result.pure_eq_ok.1 last
  next only =>
    cases Result.pure_eq_ok.1 last
    have identified := Result.mapM_eq_ok_iff.1 each
    generalize namedNodes select = names at identified
    cases identified with
    | @cons name _ _ _ found _ =>
        rw [identifiedNode] at found
        split at found
        next other known =>
          cases found
          rw [Demand.name_of_node? known, known]
        next => cases found
  next => cases last

/-- The nodes that columns of SQL over metrics refer to are the nodes of their names. -/
theorem named_scope {metrics : List Metric} {select : Select} {sources : Option (List Source)}
    {scope : Scope} (done : scopeOf catalog metrics select = .ok (sources, scope)) :
    ∀ parent ∈ scope.parents, catalog.node? parent.name = some parent := by
  rw [scopeOf.eq_def] at done
  dsimp only at done
  split at done
  next metric _ =>
    obtain ⟨dimensions, _, last⟩ := Result.bind_eq_ok.1 done
    cases Result.pure_eq_ok.1 last
    exact named_parents metric.node
  next =>
    obtain ⟨subject, known, last⟩ := Result.bind_eq_ok.1 done
    split at last
    next node =>
      cases Result.pure_eq_ok.1 last
      intro parent isNode
      cases List.mem_singleton.1 isNode
      exact node?_of_subject known
    next =>
      cases Result.pure_eq_ok.1 last
      nofun

/-- The demand of SQL over metrics has the nodes in FROM, and the dimensions that are joined. -/
theorem MetricStart.covers (start : MetricStart catalog sql) :
    start.demand.Covers catalog start.scope.parents start.paths.flatten := by
  refine Result.foldlM_induction
    (fun found : Demand × List (List Hop) =>
      found.1.Covers catalog start.scope.parents found.2.flatten) ?_ ?_ start.demands
  · exact Demand.covers_start (named_scope start.scopes)
  · exact fun _ _ _ _ covers done => covers.demandJoin done

/-- SQL over metrics is finished in the database that is chosen for it. -/
theorem MetricStart.served_finish (accepted : catalog.Accepted) (derivable : catalog.Derivable)
    (start : MetricStart catalog sql) (chosen : start.choose requested = .ok database) :
    Served (start.finish database) := by
  have covers := start.covers
  have readable := readable_of_database accepted derivable covers.named chosen
  refine (served_addPaths readable covers.dimensions).bind fun joins _ => ?_
  refine (bindRelations_failsWith ?_ joins.select).bind fun _ _ => .pure _
  exact fun parent isParent => readable parent (covers.start parent isParent)

end

/-- In a catalog that is accepted and in which every node with parents has an expression, a node can
be compiled in every database that its columns can be computed in, and no query fails for want of a
database once one is chosen. -/
theorem computable_databases_compile
    {databases : List Database} {nodes : List Node}
    (built : Catalog.build databases nodes = .ok catalog) (derivable : catalog.Derivable) :
    (∀ node ∈ catalog.nodes, ∀ columns found,
      catalog.computableDatabases node columns = .ok found → ∀ database ∈ found,
        (∀ aliasName, relationOf catalog database node aliasName ≠ .error .noValidDatabase) ∧
          queryOf catalog database node true ≠ .error .noValidDatabase) ∧
    (∀ node ∈ catalog.nodes, ∀ groupBys filters requested database,
      ∀ start : NodeStart catalog node groupBys filters, start.choose requested = .ok database →
        nodeQuery catalog node groupBys filters requested ≠ .error .noValidDatabase) ∧
    (∀ sql requested database,
      ∀ start : MetricStart catalog sql, start.choose requested = .ok database →
        metricQuery catalog sql requested ≠ .error .noValidDatabase) := by
  have accepted := Catalog.accepted_of_build built
  refine ⟨?_, ?_, ?_⟩
  · intro node member columns found done database among
    have provides := Catalog.provides_of_computableDatabases done among
    exact ⟨fun aliasName => (served_relationOf accepted derivable member provides aliasName).ne,
      (served_stored_queryOf accepted derivable member provides).ne⟩
  · intro node member groupBys filters requested database start chosen
    rw [start.nodeQuery_eq, Result.bind_of_ok chosen]
    exact (start.served_finish accepted derivable member chosen).ne
  · intro sql requested database start chosen
    rw [start.metricQuery_eq, Result.bind_of_ok chosen]
    exact (start.served_finish accepted derivable chosen).ne

/-- Orders that are paid, wherever there are orders. -/
def paidOrders : Node :=
  { name := "paid", kind := .transform, parents := ["orders"], columns := [{ name := "amount" }]
    expression := some "SELECT amount FROM orders WHERE status = 'paid'" }

/-- The sum over orders that are paid. -/
def takings : Node :=
  { name := "takings", kind := .metric, parents := ["paid"]
    expression := some "SELECT SUM(amount) FROM paid" }

def tillDatabase : Database :=
  { id := 1, name := "a", uri := "duckdb://x" }

/-- Orders in a database, those of them that are paid, and their sum. -/
def till : Catalog :=
  { databases := [tillDatabase]
    nodes :=
      [{ name := "orders", kind := .source, columns := [{ name := "amount" }, { name := "status" }]
         tables := [{ database := 1, table := "orders" }] }, paidOrders, takings] }

/-- Orders that are paid are materialized nowhere. They are a relation of the database of orders
nevertheless, and their sum is computed there. -/
theorem computable_databases_compile_till :
    Catalog.build till.databases till.nodes = .ok till ∧ till.Derivable ∧
      till.computableDatabases paidOrders ["amount"] = .ok [tillDatabase] ∧
      relationOf till tillDatabase paidOrders none ≠ .error .noValidDatabase ∧
      queryOf till tillDatabase paidOrders true ≠ .error .noValidDatabase ∧
      nodeQuery till takings ["paid.amount"] [] none ≠ .error .noValidDatabase ∧
      metricQuery till "SELECT takings FROM metrics" none ≠ .error .noValidDatabase := by
  have built : Catalog.build till.databases till.nodes = .ok till := by decide +kernel
  have derivable : till.Derivable := by decide +kernel
  have computable : till.computableDatabases paidOrders ["amount"] = .ok [tillDatabase] := by
    decide +kernel
  obtain ⟨compiled, planned⟩ := Result.exists_eq_ok (by decide +kernel :
    (nodeQuery till takings ["paid.amount"] [] none).toOption.isSome)
  obtain ⟨plan⟩ := nonempty_nodePlan planned
  obtain ⟨rewritten, selected⟩ := Result.exists_eq_ok (by decide +kernel :
    (metricQuery till "SELECT takings FROM metrics" none).toOption.isSome)
  obtain ⟨other⟩ := nonempty_metricPlan selected
  obtain ⟨nodes, queries, metrics⟩ := computable_databases_compile built derivable
  obtain ⟨reads, compiles⟩ := nodes paidOrders (by simp [till]) _ _ computable _ List.mem_cons_self
  exact ⟨built, derivable, computable, reads none, compiles,
    queries takings (by simp [till]) _ _ _ _ plan.toNodeStart plan.chooses,
    metrics _ _ _ other.toMetricStart other.chooses⟩

end Planner
end SemanticLayer
