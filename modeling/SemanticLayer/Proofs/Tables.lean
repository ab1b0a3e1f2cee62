import SemanticLayer.Proofs.Sources

/-!
# Which tables are read

A database is chosen because some table of each node there has what is taken from the node, or
because its parents have what its expression needs of them. Yet a node that is materialized is read
from its cheapest table, which need not have those columns.
-/

namespace SemanticLayer

namespace Catalog

variable {catalog : Catalog} {database : Database} {node : Node} {columns : List String}

/-! ## The cheapest table -/

theorem firstLeast?_le {α : Type} {key : α → Int} {items : List α} {item : α}
    (found : firstLeast? key items = some item) : ∀ other ∈ items, key item ≤ key other := by
  obtain ⟨before, after, rfl, greater, noLess⟩ := exists_split_of_firstLeast? found
  intro other member
  rcases List.mem_append.1 member with earlier | behind
  · exact (greater other earlier).le
  · rcases List.mem_cons.1 behind with rfl | further
    · exact le_refl _
    · exact noLess other further

/-- No table of a node in a database is cheaper than the one that the node is read from. -/
theorem cost_le_of_tableIn? {stored other : Materialization} {id : Int}
    (cheapest : node.tableIn? id = some stored) (member : other ∈ node.tables)
    (same : other.database = id) : stored.cost.orderKey ≤ other.cost.orderKey :=
  firstLeast?_le cheapest other (List.mem_filter.2 ⟨member, by simpa using same⟩)

/-- No table of a node stands in the way of a dearer one with more columns, or of the expression of
the node. -/
def Ample (catalog : Catalog) : Prop :=
  ∀ node ∈ catalog.nodes, ∀ stored ∈ node.tables,
    (catalog.parents node = [] ∨ stored.columns = []) ∧
      ∀ other ∈ node.tables, other.database = stored.database →
        stored.cost.orderKey ≤ other.cost.orderKey → ∀ columns,
          other.holds columns = true → stored.holds columns = true

/-- In such a catalog the table that a node is read from has all columns that are provided. -/
theorem Ample.holds (ample : catalog.Ample) (accepted : catalog.Accepted)
    (member : node ∈ catalog.nodes) (provides : catalog.Provides database node columns)
    {stored : Materialization} (cheapest : node.tableIn? database.id = some stored) :
    stored.holds columns = true := by
  obtain ⟨there, same⟩ := List.mem_filter.1 (Planner.mem_of_firstLeast? cheapest)
  obtain ⟨orphan, most⟩ := ample node member stored there
  rcases provides.table_or_parents accepted with ⟨other, among, here, holds⟩ | ⟨parents, _⟩
  · exact most other among (here.trans (beq_iff_eq.1 same).symm)
      (cost_le_of_tableIn? cheapest among here) columns holds
  · have all := orphan.resolve_left parents
    simp [Materialization.holds, all]

end Catalog

namespace Planner

open SemanticLayer.Sql
open Catalog (Node Database Hop Materialization cost_le_of_tableIn?)

variable {catalog : Catalog} {database : Database} {node : Node} {columns : List String}

/-! ## Readings -/

/-- Another table of a node in a database, not a cheaper one, that has some columns. -/
def HeldElsewhere (database : Database) (node : Node) (stored : Materialization)
    (columns : List String) : Prop :=
  ∃ other ∈ node.tables, other.database = database.id ∧
    stored.cost.orderKey ≤ other.cost.orderKey ∧ other.holds columns = true

/-- A database in which the parents of a node have what its expression needs of them. -/
def Derived (catalog : Catalog) (database : Database) (node : Node) : Prop :=
  catalog.parents node ≠ [] ∧ ∃ references, catalog.nodeReferences node = .ok references ∧
    ∀ parent ∈ catalog.parents node,
      catalog.Provides database parent (references.of parent.name)

/-- How a node is read for some columns: from its cheapest table, which has them, from its cheapest
table although only another one or its parents have them, or from a query over its parents. -/
inductive Reading (catalog : Catalog) (database : Database) (node : Node) (columns : List String) :
    Relation → Prop where
  | sufficient {stored : Materialization} {aliasName : Option Name}
      (cheapest : node.tableIn? database.id = some stored)
      (holds : stored.holds columns = true) :
      Reading catalog database node columns (.table (tableOf node stored aliasName))
  | lacking {stored : Materialization} {aliasName : Option Name}
      (cheapest : node.tableIn? database.id = some stored)
      (lacks : stored.holds columns = false)
      (others : HeldElsewhere database node stored columns ∨ Derived catalog database node) :
      Reading catalog database node columns (.table (tableOf node stored aliasName))
  | derived {query : Query} {aliasName : Name}
      (none : node.tableIn? database.id = none) (parents : Derived catalog database node) :
      Reading catalog database node columns (.derived query (some aliasName))

/-- A node whose columns are provided by a database is read there in one of these ways. -/
theorem reading_of_relationOf (accepted : catalog.Accepted)
    (provides : catalog.Provides database node columns) {aliasName : Option Name}
    {relation : Relation} (done : relationOf catalog database node aliasName = .ok relation) :
    Reading catalog database node columns relation := by
  cases cheapest : node.tableIn? database.id with
  | some stored =>
      rw [relationOf_of_stored cheapest] at done
      cases done
      by_cases holds : stored.holds columns = true
      · exact .sufficient cheapest holds
      · refine .lacking cheapest (by simpa using holds) ?_
        refine (provides.table_or_parents accepted).imp_left ?_
        rintro ⟨other, member, same, has⟩
        exact ⟨other, member, same, cost_le_of_tableIn? cheapest member same, has⟩
  | none =>
      rw [relationOf_of_not_stored accepted cheapest] at done
      obtain ⟨query, _, last⟩ := Result.bind_eq_ok.1 done
      cases Result.pure_eq_ok.1 last
      exact .derived cheapest (provides.parents accepted cheapest)

/-! ## Relations of FROM -/

/-- A relation that is called like no node of some. -/
def Foreign (nodes : List Node) (relation : Relation) : Prop :=
  ∀ table, relation = .table table → ∀ node ∈ nodes, node.name ≠ table.fullName

/-- A bound relation is kept if it is called like no node, and is otherwise the relation of the node
that it is called like. -/
theorem bindRelation_cases {bind : Node → Option Name → Result Relation} {nodes : List Node}
    {relation bound : Relation} (done : bindRelation bind nodes relation = .ok bound) :
    (bound = relation ∧ Foreign nodes relation) ∨
      ∃ table, relation = .table table ∧ ∃ node ∈ nodes, node.name = table.fullName ∧
        bind node table.aliasName = .ok bound := by
  cases relation with
  | derived query aliasName =>
      cases done
      exact .inl ⟨rfl, nofun⟩
  | table table =>
      rw [bindRelation] at done
      split at done
      next node found =>
        have called : node.name = table.fullName := by simpa using List.find?_some found
        exact .inr ⟨table, rfl, node, List.mem_of_find?_eq_some found, called, done⟩
      next none =>
        cases done
        refine .inl ⟨rfl, ?_⟩
        rintro _ ⟨⟩ node member same
        simpa [same] using List.find?_eq_none.1 none node member

/-- Where a relation of FROM comes from: it was written and is no parent, or it is a node that takes
part, read for what is taken from it. -/
inductive Origin (catalog : Catalog) (database : Database) (written : List Relation)
    (parents : List Node) (demand : Demand) (relation : Relation) : Prop where
  | written (member : relation ∈ written) (foreign : Foreign parents relation)
  | node {node : Node} (member : node ∈ demand.nodes)
      (reading : Reading catalog database node (demand.references.of node.name) relation)

/-- The relations that the expression of a node is written over. -/
def writtenRelations (node : Node) : List Relation :=
  match node.expression.map fun text => Query.ofText text none with
  | some (.ok query) => query.select.relations
  | _ => []

section

variable {groupBys filters : List String} {requested : Option Int} {compiled : Compiled}

/-- Whether the database provides everything that is taken from some nodes of a demand. -/
def Meets (catalog : Catalog) (database : Database) (demand : Demand) (nodes : List Node) : Prop :=
  ∀ node ∈ nodes, node ∈ demand.nodes ∧
    catalog.Provides database node (demand.references.of node.name)

theorem Meets.origin {demand : Demand} {nodes : List Node} {written : List Relation}
    {parents : List Node} (accepted : catalog.Accepted)
    (meets : Meets catalog database demand nodes) (member : node ∈ nodes)
    {aliasName : Option Name} {relation : Relation}
    (done : relationOf catalog database node aliasName = .ok relation) :
    Origin catalog database written parents demand relation := by
  obtain ⟨part, provides⟩ := meets node member
  exact .node part (reading_of_relationOf accepted provides done)

/-- A bound relation was written and is no parent, or is a parent that is read. -/
theorem origin_of_bindRelation {demand : Demand} {parents : List Node} {written : List Relation}
    (accepted : catalog.Accepted) (meets : Meets catalog database demand parents)
    {relation bound : Relation} (member : relation ∈ written)
    (done : bindRelation (relationOf catalog database) parents relation = .ok bound) :
    Origin catalog database written parents demand bound := by
  rcases bindRelation_cases done with ⟨rfl, foreign⟩ | ⟨_, _, parent, isParent, _, read⟩
  · exact .written member foreign
  · exact meets.origin accepted isParent read

/-- The nodes of a demand that dimensions were asked of are provided for. -/
theorem NodePlan.meets (plan : NodePlan catalog node groupBys filters requested compiled)
    (asked : askedNames groupBys plan.parsed ≠ []) :
    Meets catalog compiled.database plan.demand plan.demand.nodes := by
  have some : (askedNames groupBys plan.parsed).isEmpty = false := by simpa using asked
  have chooses := plan.chooses
  rw [some, if_neg Bool.false_ne_true] at chooses
  exact fun other part => ⟨part, Catalog.provides_of_databaseFor chooses other part⟩

/-- Without a dimension the node itself is provided for. -/
theorem NodePlan.provides (plan : NodePlan catalog node groupBys filters requested compiled)
    (asked : askedNames groupBys plan.parsed = []) :
    catalog.Provides compiled.database node (plan.demand.references.of node.name) := by
  have chooses := plan.chooses
  rw [asked, List.isEmpty_nil, if_pos rfl] at chooses
  exact Catalog.provides_of_databaseFor chooses node List.mem_cons_self

/-- Without a dimension nothing is demanded but what the expression takes. -/
theorem NodeStart.demand_eq (start : NodeStart catalog node groupBys filters)
    (asked : askedNames groupBys start.parsed = []) :
    start.demand = { nodes := catalog.roots node, references := start.references } := by
  have demands := start.demands
  rw [asked] at demands
  exact (congrArg Prod.fst (Result.pure_eq_ok.1 demands)).symm

/-- The parents that an expression is compiled over are provided for. -/
theorem NodePlan.meets_parents (accepted : catalog.Accepted) (member : node ∈ catalog.nodes)
    (plan : NodePlan catalog node groupBys filters requested compiled)
    (unread : askedNames groupBys plan.parsed = [] →
      node.tableIn? compiled.database.id = none) :
    Meets catalog compiled.database plan.demand (catalog.parents node) := by
  intro parent isParent
  have roots := roots_eq_parents (List.ne_nil_of_mem isParent)
  by_cases asked : askedNames groupBys plan.parsed = []
  · obtain ⟨_, references, refers, each⟩ := (plan.provides asked).parents accepted (unread asked)
    cases Except.ok.inj (plan.refers.symm.trans refers)
    rw [plan.demand_eq asked, roots]
    exact ⟨isParent, each parent isParent⟩
  · have covers := plan.covers accepted member
    rw [roots] at covers
    exact plan.meets asked parent (covers.start parent isParent)

/-- The table of a node that takes no part, as long as dimensions are asked of its parents only. -/
def OwnTable (database : Database) (node : Node) (demand : Demand) (relation : Relation) : Prop :=
  node ∉ demand.nodes ∧ ∃ stored, node.tableIn? database.id = some stored ∧
    relation = .table (tableOf node stored none)

/-- The relations that a node is computed from were written, or are nodes that take part. -/
theorem NodePlan.origin_of_query (accepted : catalog.Accepted) (member : node ∈ catalog.nodes)
    (plan : NodePlan catalog node groupBys filters requested compiled) :
    ∀ relation ∈ plan.query.select.relations,
      Origin catalog compiled.database (writtenRelations node) (catalog.parents node) plan.demand
        relation ∨ OwnTable compiled.database node plan.demand relation := by
  intro relation inFrom
  have computes := plan.computes
  rw [queryOf] at computes
  split at computes
  next stored found =>
    have query := (Except.ok.inj computes).symm
    rw [query] at inFrom
    cases List.mem_singleton.1 inFrom
    have cheapest : node.tableIn? compiled.database.id = some stored := by
      split at found
      · exact found
      · cases found
    by_cases part : node ∈ plan.demand.nodes
    · refine .inl (.node part (reading_of_relationOf accepted ?_ (relationOf_of_stored cheapest)))
      by_cases asked : askedNames groupBys plan.parsed = []
      · exact plan.provides asked
      · exact (plan.meets asked node part).2
    · exact .inr ⟨part, stored, cheapest, rfl⟩
  next found =>
    have unread : askedNames groupBys plan.parsed = [] →
        node.tableIn? compiled.database.id = none := by
      intro asked
      rwa [asked, List.isEmpty_nil, Bool.true_or, if_pos rfl] at found
    have meets := plan.meets_parents accepted member unread
    obtain ⟨steps⟩ := nonempty_expressionPlan computes
    rw [steps.compiles] at inFrom
    have each := Select.relations_of_mapRelationsM steps.binds
    rw [relations_of_qualifyColumns steps.owned] at each
    obtain ⟨before, inWritten, bound⟩ := Result.exists_of_forall₂ each inFrom
    refine .inl (origin_of_bindRelation accepted meets ?_ bound)
    rw [writtenRelations, steps.expression, Option.map_some, steps.reads]
    exact inWritten

/-- A dimension that hops lead to is read if it takes part. -/
theorem Meets.origin_of_brings {demand : Demand} {hops : List Hop} {written : List Relation}
    {parents start : List Node} (accepted : catalog.Accepted)
    (meets : Meets catalog database demand demand.nodes)
    (covers : demand.Covers catalog start hops) {relation : Relation}
    (brings : Joins.Brings catalog database hops relation) :
    Origin catalog database written parents demand relation := by
  obtain ⟨hop, onPath, dimension, found, read⟩ := brings
  exact meets.origin accepted (covers.dimensions hop onPath dimension found) read

theorem NodePlan.origin (accepted : catalog.Accepted) (member : node ∈ catalog.nodes)
    (plan : NodePlan catalog node groupBys filters requested compiled) :
    ∀ relation ∈ compiled.query.select.relations,
      Origin catalog compiled.database (writtenRelations node) (catalog.parents node) plan.demand
        relation ∨ OwnTable compiled.database node plan.demand relation := by
  intro relation inFrom
  rw [Select.relations_congr plan.sources] at inFrom
  rcases Joins.relations_of_addPaths plan.joined relation inFrom with before | brings
  · exact plan.origin_of_query accepted member relation before
  · have asked : askedNames groupBys plan.parsed ≠ [] := by
      intro none
      rw [plan.paths_eq_nil none] at brings
      obtain ⟨_, onPath, _⟩ := brings
      cases onPath
    exact .inl ((plan.meets asked).origin_of_brings accepted (plan.covers accepted member) brings)

theorem MetricPlan.origin {sql : String} (accepted : catalog.Accepted)
    (plan : MetricPlan catalog sql requested compiled) :
    ∀ relation ∈ compiled.query.select.relations,
      Origin catalog compiled.database plan.select.relations plan.scope.parents plan.demand
        relation := by
  intro relation inFrom
  have meets : Meets catalog compiled.database plan.demand plan.demand.nodes :=
    fun other part => ⟨part, Catalog.provides_of_databaseFor plan.chooses other part⟩
  have parents : Meets catalog compiled.database plan.demand plan.scope.parents :=
    fun parent isParent => meets parent (plan.covers.start parent isParent)
  rw [plan.compiles] at inFrom
  have each := Select.relations_of_mapRelationsM plan.binds
  obtain ⟨before, inJoins, bound⟩ := Result.exists_of_forall₂ each inFrom
  rcases Joins.relations_of_addPaths plan.joined before inJoins with written | brings
  · exact origin_of_bindRelation accepted parents written bound
  · rcases bindRelation_cases bound with ⟨rfl, _⟩ | ⟨_, _, parent, isParent, _, read⟩
    · exact meets.origin_of_brings accepted plan.covers brings
    · exact parents.origin accepted isParent read

end

/-- Every relation that a compiled query reads was written and is no parent, or is a node that takes
part, read in one of three ways. Of these only `Reading.lacking` reads a table without all columns
that are taken from the node: then a table of the node that is not cheaper has them, or its parents
have what its expression needs. -/
theorem relations_of_compiled_are_provided
    {databases : List Database} {nodes : List Node}
    (built : Catalog.build databases nodes = .ok catalog) :
    (∀ node ∈ catalog.nodes, ∀ groupBys filters requested compiled,
      nodeQuery catalog node groupBys filters requested = .ok compiled →
        ∃ plan : NodePlan catalog node groupBys filters requested compiled,
          ∀ relation ∈ compiled.query.select.relations,
            Origin catalog compiled.database (writtenRelations node) (catalog.parents node)
              plan.demand relation ∨ OwnTable compiled.database node plan.demand relation) ∧
    (∀ sql requested compiled, metricQuery catalog sql requested = .ok compiled →
      ∃ plan : MetricPlan catalog sql requested compiled,
        ∀ relation ∈ compiled.query.select.relations,
          Origin catalog compiled.database plan.select.relations plan.scope.parents plan.demand
            relation) := by
  have accepted := Catalog.accepted_of_build built
  constructor
  · intro node member groupBys filters requested compiled done
    obtain ⟨plan⟩ := nonempty_nodePlan done
    exact ⟨plan, plan.origin accepted member⟩
  · intro sql requested compiled done
    obtain ⟨plan⟩ := nonempty_metricPlan done
    exact ⟨plan, plan.origin accepted⟩

/-- The sum over orders. -/
def sales : Node :=
  { name := "sales", kind := .metric, parents := ["orders"]
    expression := some "SELECT SUM(amount) FROM orders" }

/-- Orders in two tables of a database, the one that is read without their amounts. -/
def twoTables : Catalog :=
  { databases := [tillDatabase]
    nodes :=
      [{ name := "orders", kind := .source, columns := [{ name := "amount" }, { name := "status" }]
         tables :=
          [{ database := 1, table := "orders_slim", columns := ["status"] },
           { database := 1, table := "orders_full", columns := ["amount", "status"] }] }, sales] }

/-- The amounts of orders are taken from the table that lacks them. -/
theorem relations_of_compiled_are_provided_twoTables :
    Catalog.build twoTables.databases twoTables.nodes = .ok twoTables ∧
      ∃ compiled, nodeQuery twoTables sales ["orders.status"] [] none = .ok compiled ∧
        compiled.text =
          "SELECT\n  SUM(orders.amount),\n  orders.status\nFROM orders_slim AS orders\n" ++
            "GROUP BY orders.status" ∧
        ∃ plan : NodePlan twoTables sales ["orders.status"] [] none compiled,
          ∀ relation ∈ compiled.query.select.relations,
            Origin twoTables compiled.database (writtenRelations sales) (twoTables.parents sales)
              plan.demand relation ∨ OwnTable compiled.database sales plan.demand relation := by
  have built : Catalog.build twoTables.databases twoTables.nodes = .ok twoTables := by
    decide +kernel
  have text : (nodeQuery twoTables sales ["orders.status"] [] none).toOption.map Compiled.text =
      some ("SELECT\n  SUM(orders.amount),\n  orders.status\nFROM orders_slim AS orders\n" ++
        "GROUP BY orders.status") := by
    decide +kernel
  obtain ⟨compiled, known, same⟩ := Option.map_eq_some_iff.1 text
  have done := Result.eq_ok_of_toOption known
  have origins := (relations_of_compiled_are_provided built).1 sales (by simp [twoTables]) _ _ _ _
    done
  exact ⟨built, compiled, done, same, origins⟩

end Planner
end SemanticLayer
