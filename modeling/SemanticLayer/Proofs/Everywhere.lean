import SemanticLayer.Proofs.Descent
import SemanticLayer.Proofs.Promises
import SemanticLayer.Proofs.Reads

/-!
# Parents at every depth

An expression may read a parent in FROM, in a derived table, in a named query or in a subquery. The
compiled query has the relation of the parent in each of these places just if every parent that is
read below FROM is the very table that it is read from, and so on for the parents whose own expressions
are entered.
-/

namespace SemanticLayer

namespace Sql

/-! ## Relations of a replaced SELECT -/

section

variable {replace own : Table → Result Relation} {scope : List String}

theorem Source.relations_of_replaceTables {source after : Source}
    (done : source.replaceTables replace own scope = .ok after) :
    List.Forall₂ (fun relation changed => relation.replaceTables replace own scope = .ok changed)
      source.relations after.relations := by
  obtain ⟨primary, joins⟩ := source
  obtain ⟨first, changed, rest⟩ := Result.bind_eq_ok.1 done
  obtain ⟨others, each, last⟩ := Result.bind_eq_ok.1 rest
  cases Result.pure_eq_ok.1 last
  refine .cons changed ?_
  clear done changed rest last
  induction joins generalizing others with
  | nil =>
      cases Result.pure_eq_ok.1 each
      exact .nil
  | cons join joins ih =>
      obtain ⟨kind, relation, on⟩ := join
      obtain ⟨joined, here, rest⟩ := Result.bind_eq_ok.1 each
      obtain ⟨later, following, last⟩ := Result.bind_eq_ok.1 rest
      cases Result.pure_eq_ok.1 last
      obtain ⟨replaced, step, rest⟩ := Result.bind_eq_ok.1 here
      obtain ⟨condition, _, last⟩ := Result.bind_eq_ok.1 rest
      cases Result.pure_eq_ok.1 last
      exact .cons step (ih later following)

theorem flatMap_relations_of_replaceInSources {sources after : List Source}
    (done : replaceInSources replace own scope sources = .ok after) :
    List.Forall₂ (fun relation changed => relation.replaceTables replace own scope = .ok changed)
      (sources.flatMap Source.relations) (after.flatMap Source.relations) := by
  induction sources generalizing after with
  | nil =>
      cases Result.pure_eq_ok.1 done
      exact .nil
  | cons source sources ih =>
      obtain ⟨first, here, rest⟩ := Result.bind_eq_ok.1 done
      obtain ⟨later, following, last⟩ := Result.bind_eq_ok.1 rest
      cases Result.pure_eq_ok.1 last
      exact List.rel_append (Source.relations_of_replaceTables here) (ih following)

/-- Every relation of FROM is replaced, each in its place. -/
theorem Select.relations_of_replaceTables {select after : Select}
    (done : select.replaceTables replace own scope = .ok after) :
    List.Forall₂ (fun relation changed => relation.replaceTables replace own scope = .ok changed)
      select.relations after.relations := by
  obtain ⟨_, _, sources?, _, _, _, _, _, _⟩ := select
  obtain ⟨_, _, rest⟩ := Result.bind_eq_ok.1 done
  obtain ⟨changed, sourced, rest⟩ := Result.bind_eq_ok.1 rest
  obtain ⟨_, _, rest⟩ := Result.bind_eq_ok.1 rest
  obtain ⟨_, _, rest⟩ := Result.bind_eq_ok.1 rest
  obtain ⟨_, _, rest⟩ := Result.bind_eq_ok.1 rest
  obtain ⟨_, _, last⟩ := Result.bind_eq_ok.1 rest
  cases Result.pure_eq_ok.1 last
  cases sources? with
  | none =>
      cases Result.pure_eq_ok.1 sourced
      exact .nil
  | some sources =>
      obtain ⟨others, each, last⟩ := Result.bind_eq_ok.1 sourced
      cases Result.pure_eq_ok.1 last
      exact flatMap_relations_of_replaceInSources each

end

/-! ## Relations that agree -/

section

variable {change other : Relation → Result Relation}

theorem Source.mapRelationsM_of_agree {source after : Source}
    (agree : ∀ relation ∈ source.relations, ∀ changed, change relation = .ok changed →
      other relation = .ok changed)
    (done : source.mapRelationsM change = .ok after) : source.mapRelationsM other = .ok after := by
  obtain ⟨primary, first, rest⟩ := Result.bind_eq_ok.1 done
  obtain ⟨joins, each, last⟩ := Result.bind_eq_ok.1 rest
  refine Result.bind_eq_ok.2 ⟨primary, agree _ List.mem_cons_self _ first,
    Result.bind_eq_ok.2 ⟨joins, Result.mapM_of_agree ?_ each, last⟩⟩
  intro join member joined step
  obtain ⟨relation, changed, last⟩ := Result.bind_eq_ok.1 step
  have inside := List.mem_cons_of_mem source.primary (List.mem_map_of_mem (f := Join.relation) member)
  exact Result.bind_eq_ok.2 ⟨relation, agree _ inside _ changed, last⟩

/-- Changes that agree on every relation of FROM make the same of it. -/
theorem Select.mapRelationsM_of_agree {select after : Select}
    (agree : ∀ relation ∈ select.relations, ∀ changed, change relation = .ok changed →
      other relation = .ok changed)
    (done : select.mapRelationsM change = .ok after) : select.mapRelationsM other = .ok after := by
  rw [mapRelationsM] at done ⊢
  split at done
  next none => exact done
  next sources listed =>
    obtain ⟨changed, each, last⟩ := Result.bind_eq_ok.1 done
    refine Result.bind_eq_ok.2 ⟨changed, Result.mapM_of_agree ?_ each, last⟩
    intro source member after step
    refine Source.mapRelationsM_of_agree (fun relation inside => agree relation ?_) step
    rw [relations, listed]
    exact List.mem_flatMap.2 ⟨source, member, inside⟩

end

end Sql

namespace Planner

open SemanticLayer.Sql
open Catalog (Node Database)

variable {catalog : Catalog} {database : Database} {node parent : Node}

/-! ## Binding everywhere -/

/-- The relation that takes the place of a table that is called like one of some nodes. -/
def bindTable (bind : Node → Option Name → Result Relation) (nodes : List Node) (table : Table) :
    Result Relation :=
  bindRelation bind nodes (.table table)

/-- The query that an expression makes of the parents of its node wherever it reads them. -/
def everywhereQuery (catalog : Catalog) (bind : Node → Option Name → Result Relation)
    (node : Node) : Result Query :=
  match node.expression with
  | none => .error .noValidDatabase
  | some expression => do
    let query ← Query.ofText expression none
    let parents := catalog.parents node
    let select ← qualifyColumns query.select parents
    { query with select }.replaceEverywhere (bindTable bind parents)

/-- A node as a relation of a database, where expressions are bound everywhere and entered so many
deep at most. -/
def everywhereWithin (catalog : Catalog) (database : Database) :
    Nat → Node → Option Name → Result Relation
  | 0, _, _ => .error .noValidDatabase
  | depth + 1, node, aliasName =>
    match node.tableIn? database.id with
    | some stored => .ok (.table (tableOf node stored aliasName))
    | none => do
      let query ← everywhereQuery catalog (everywhereWithin catalog database depth) node
      pure (.derived query (some (aliasName.getD { value := node.name })))

/-- A node as a relation of a database, where expressions are bound everywhere. -/
def everywhereOf (catalog : Catalog) (database : Database) (node : Node)
    (aliasName : Option Name) : Result Relation :=
  everywhereWithin catalog database (catalog.nodes.length + 1) node aliasName

/-- Only the parents of a node are bound in its expression. -/
theorem everywhereQuery_congr {bind other : Node → Option Name → Result Relation}
    (same : ∀ parent ∈ catalog.parents node, bind parent = other parent) :
    everywhereQuery catalog bind node = everywhereQuery catalog other node := by
  have tables : bindTable bind (catalog.parents node) = bindTable other (catalog.parents node) := by
    funext table
    rw [bindTable, bindTable, bindRelation_congr same]
  simp only [everywhereQuery, tables]

/-- More depth than the rank of a node makes no difference. -/
theorem everywhereWithin_succ (accepted : catalog.Accepted) (member : node ∈ catalog.nodes)
    {depth : Nat} (enough : catalog.rank node < depth) :
    everywhereWithin catalog database (depth + 1) node =
      everywhereWithin catalog database depth node := by
  induction depth generalizing node with
  | zero => omega
  | succ depth ih =>
      have parents : ∀ parent ∈ catalog.parents node,
          everywhereWithin catalog database (depth + 1) parent =
            everywhereWithin catalog database depth parent := by
        intro parent isParent
        have less := accepted.rank_parent_lt member isParent
        exact ih (Catalog.mem_of_mem_parents isParent).1 (by omega)
      funext aliasName
      rw [everywhereWithin, everywhereWithin, everywhereQuery_congr parents]

theorem everywhereOf_of_stored {stored : Catalog.Materialization} {aliasName : Option Name}
    (found : node.tableIn? database.id = some stored) :
    everywhereOf catalog database node aliasName =
      .ok (.table (tableOf node stored aliasName)) := by
  rw [everywhereOf, everywhereWithin, found]

theorem everywhereOf_of_not_stored (accepted : catalog.Accepted) {aliasName : Option Name}
    (none : node.tableIn? database.id = none) :
    everywhereOf catalog database node aliasName =
      (everywhereQuery catalog (everywhereOf catalog database) node >>= fun query =>
        pure (.derived query (some (aliasName.getD { value := node.name })))) := by
  have parents : ∀ parent ∈ catalog.parents node,
      everywhereOf catalog database parent =
        everywhereWithin catalog database catalog.nodes.length parent := by
    intro parent isParent
    have known := (Catalog.mem_of_mem_parents isParent).1
    exact everywhereWithin_succ accepted known (accepted.rank_lt_length known)
  rw [everywhereQuery_congr parents, everywhereOf, everywhereWithin, none]

/-! ## Tables that may stay -/

/-- Relations of a database: the table of a node that has one there, and a query for any other. -/
structure Places (database : Database) (bind : Node → Option Name → Result Relation) : Prop where
  stored : ∀ {node : Node} {stored}, node.tableIn? database.id = some stored →
    ∀ aliasName, bind node aliasName = .ok (.table (tableOf node stored aliasName))
  derived : ∀ {node : Node}, node.tableIn? database.id = none →
    ∀ aliasName table, bind node aliasName ≠ .ok (.table table)

theorem places_relationOf (catalog : Catalog) (database : Database) :
    Places database (relationOf catalog database) where
  stored found aliasName := relationOf_of_stored found
  derived none aliasName table := by
    rw [relationOf, relationWithin, none]
    intro done
    obtain ⟨_, _, last⟩ := Result.bind_eq_ok.1 done
    cases Result.pure_eq_ok.1 last

theorem places_everywhereOf (catalog : Catalog) (database : Database) :
    Places database (everywhereOf catalog database) where
  stored found aliasName := everywhereOf_of_stored found
  derived none aliasName table := by
    rw [everywhereOf, everywhereWithin, none]
    intro done
    obtain ⟨_, _, last⟩ := Result.bind_eq_ok.1 done
    cases Result.pure_eq_ok.1 last

/-- A table is called like no parent, or it is the table that the parent is read from. -/
def MayStay (catalog : Catalog) (database : Database) (node : Node) (table : Table) : Prop :=
  ∀ parent ∈ catalog.parents node, parent.name = table.fullName →
    (parent.tableIn? database.id).map (fun stored => tableOf parent stored table.aliasName) =
      some table

instance (catalog : Catalog) (database : Database) (node : Node) (table : Table) :
    Decidable (MayStay catalog database node table) :=
  inferInstanceAs (Decidable (∀ parent ∈ catalog.parents node, parent.name = table.fullName →
    (parent.tableIn? database.id).map (fun stored => tableOf parent stored table.aliasName) =
      some table))

/-- Below FROM, the expression of a node reads no parent but from its table. -/
def ReadsInFrom (catalog : Catalog) (database : Database) (node : Node) : Prop :=
  ∀ text query, node.expression = some text → Query.ofText text none = .ok query →
    ∀ table ∈ query.readsInside, MayStay catalog database node table

/-- A parent is found by its name. -/
theorem find?_parent (member : parent ∈ catalog.parents node) :
    (catalog.parents node).find? (fun other => other.name == parent.name) = some parent := by
  have known : ∀ other ∈ catalog.parents node, catalog.node? other.name = some other := by
    intro other isParent
    obtain ⟨name, _, found⟩ := List.mem_filterMap.1 isParent
    rwa [(Catalog.mem_of_node? found).2]
  obtain ⟨other, found⟩ : ∃ other,
      (catalog.parents node).find? (fun other => other.name == parent.name) = some other := by
    rw [← Option.isSome_iff_exists, List.find?_isSome]
    exact ⟨parent, member, beq_self_eq_true _⟩
  have same : other.name = parent.name := by simpa using List.find?_some found
  have first := known other (List.mem_of_find?_eq_some found)
  rw [same, known parent member] at first
  rw [found, first]

/-- A table that is called like a parent is bound to the relation of the parent. -/
theorem bindRelation_of_parent {bind : Node → Option Name → Result Relation} {table : Table}
    (member : parent ∈ catalog.parents node) (called : parent.name = table.fullName) :
    bindRelation bind (catalog.parents node) (.table table) = bind parent table.aliasName := by
  rw [bindRelation, ← called, find?_parent member]

/-- A table stays when it is bound just if it may. -/
theorem Places.bindRelation_eq_self_iff {bind : Node → Option Name → Result Relation}
    (places : Places database bind) (table : Table) :
    bindRelation bind (catalog.parents node) (.table table) = .ok (.table table) ↔
      MayStay catalog database node table := by
  have own : ∀ parent : Node, bind parent table.aliasName = .ok (.table table) ↔
      (parent.tableIn? database.id).map (fun stored => tableOf parent stored table.aliasName) =
        some table := by
    intro parent
    cases found : parent.tableIn? database.id with
    | none => simp [places.derived found]
    | some stored => simp [places.stored found]
  constructor
  · intro stays parent member called
    rwa [bindRelation_of_parent member called, own] at stays
  · intro may
    by_cases foreign : ∀ parent ∈ catalog.parents node, parent.name ≠ table.fullName
    · exact bindRelation_of_foreign fun other same => Relation.table.inj same ▸ foreign
    · push Not at foreign
      obtain ⟨parent, member, called⟩ := foreign
      rw [bindRelation_of_parent member called, own]
      exact may parent member called

/-- Columns that get their owners leave the tables alone that are read. -/
theorem reads_of_qualifyColumns {nodes : List Node} {select after : Select}
    {counts : Table → List Table} {scope : List String}
    (done : qualifyColumns select nodes = .ok after) :
    after.reads counts scope = select.reads counts scope := by
  obtain ⟨middle, exprs, conditions⟩ := Result.bind_eq_ok.1 done
  rw [Select.reads_of_mapConditionsM (fun _ _ => Expr.reads_of_mapColumnsM _) conditions,
    Select.reads_of_mapExprsM (fun _ _ => Expr.reads_of_mapColumnsM _) exprs]

/-! ## The expression of one node -/

namespace ExpressionPlan

variable {bind other : Node → Option Name → Result Relation} {query : Query}

theorem everywhereQuery_eq (plan : ExpressionPlan catalog bind node query) :
    everywhereQuery catalog other node =
      { plan.written with select := plan.qualified }.replaceEverywhere
        (bindTable other (catalog.parents node)) := by
  rw [everywhereQuery, plan.expression]
  exact (Result.bind_of_ok plan.reads _).trans (Result.bind_of_ok plan.owned _)

theorem readsInFrom_iff (plan : ExpressionPlan catalog bind node query) :
    ReadsInFrom catalog database node ↔
      ∀ table ∈ plan.written.readsInside, MayStay catalog database node table := by
  constructor
  · exact fun inFrom => inFrom plan.text plan.written plan.expression plan.reads
  · intro may text query expression reads
    cases plan.expression.symm.trans expression
    cases plan.reads.symm.trans reads
    exact may

/-- A compiled expression is bound everywhere just if it reads parents in FROM alone. -/
theorem everywhere_iff (places : Places database bind)
    (plan : ExpressionPlan catalog bind node query) :
    everywhereQuery catalog bind node = .ok query ↔ ReadsInFrom catalog database node := by
  have inside : ({ plan.written with select := plan.qualified } : Query).readsInside =
      plan.written.readsInside := by
    rw [Query.readsInside, Query.readsInside, reads_of_qualifyColumns plan.owned]
  have settled : everywhereQuery catalog bind node =
        .ok { plan.written with select := plan.bound } ↔
      Stay (bindTable bind (catalog.parents node)) plan.written.readsInside := by
    rw [plan.everywhereQuery_eq, ← inside]
    exact Query.replaceEverywhere_eq_settled_iff plan.binds (fun _ _ => rfl) (fun _ => rfl)
  rw [← plan.compiles] at settled
  rw [plan.readsInFrom_iff]
  exact settled.trans (forall₂_congr fun table _ => places.bindRelation_eq_self_iff table)

/-- Relations for the parents in FROM that make the same of them. -/
theorem expressionQuery_of_agree (plan : ExpressionPlan catalog bind node query)
    (agree : ∀ relation ∈ plan.written.select.relations, ∀ bound,
      bindRelation bind (catalog.parents node) relation = .ok bound →
        bindRelation other (catalog.parents node) relation = .ok bound) :
    expressionQuery catalog other node = .ok query := by
  rw [← relations_of_qualifyColumns plan.owned] at agree
  have binds := Select.mapRelationsM_of_agree agree plan.binds
  rw [expressionQuery, plan.expression]
  exact Result.bind_eq_ok.2 ⟨_, plan.reads, Result.bind_eq_ok.2 ⟨_, plan.owned,
    Result.bind_eq_ok.2 ⟨_, binds, Result.pure_eq_ok.2 plan.compiles.symm⟩⟩⟩

/-- Where relations for the parents make the compiled query everywhere, they make what is compiled of
each parent in FROM. -/
theorem agree_of_everywhere (plan : ExpressionPlan catalog bind node query)
    (full : everywhereQuery catalog other node = .ok query) :
    ∀ relation ∈ plan.written.select.relations, ∀ bound,
      bindRelation bind (catalog.parents node) relation = .ok bound →
        bindRelation other (catalog.parents node) relation = .ok bound := by
  rw [plan.everywhereQuery_eq] at full
  obtain ⟨ctes, _, rest⟩ := Result.bind_eq_ok.1 full
  obtain ⟨select, replaced, last⟩ := Result.bind_eq_ok.1 rest
  have same : select = plan.bound := by
    have selects := congrArg Query.select ((Result.pure_eq_ok.1 last).trans plan.compiles)
    exact selects
  subst same
  have wanted := Select.relations_of_replaceTables replaced
  have given := Select.relations_of_mapRelationsM plan.binds
  rw [← relations_of_qualifyColumns plan.owned]
  intro relation member bound done
  cases relation with
  | derived query aliasName => exact done
  | table table =>
      rw [← done]
      exact Result.eq_of_forall₂ wanted given member

end ExpressionPlan

/-! ## All expressions -/

/-- A parent in FROM of an expression that is read from no table, but from its own expression. -/
def Enters (catalog : Catalog) (database : Database) (node parent : Node) : Prop :=
  parent ∈ catalog.parents node ∧ parent.tableIn? database.id = none ∧
    ∃ text query, node.expression = some text ∧ Query.ofText text none = .ok query ∧
      ∃ table, .table table ∈ query.select.relations ∧ parent.name = table.fullName

/-- The nodes whose expressions are entered when one of a node is compiled. -/
inductive Entered (catalog : Catalog) (database : Database) : Node → Node → Prop where
  | here {node : Node} : Entered catalog database node node
  | parent {node parent other : Node} (step : Enters catalog database node parent)
      (rest : Entered catalog database parent other) : Entered catalog database node other

/-- A parent whose expression is entered is the same relation everywhere just if its query is. -/
theorem everywhereOf_eq_ok_iff (accepted : catalog.Accepted)
    (none : parent.tableIn? database.id = none) {aliasName : Option Name} {relation : Relation}
    (given : relationOf catalog database parent aliasName = .ok relation) :
    everywhereOf catalog database parent aliasName = .ok relation ↔
      everywhereQuery catalog (everywhereOf catalog database) parent =
        expressionQuery catalog (relationOf catalog database) parent := by
  rw [relationOf_of_not_stored accepted none] at given
  obtain ⟨query, done, last⟩ := Result.bind_eq_ok.1 given
  cases Result.pure_eq_ok.1 last
  rw [everywhereOf_of_not_stored accepted none, Result.bind_eq_ok, done]
  simp [Result.pure_eq_ok]

section

variable {query : Query} (plan : ExpressionPlan catalog (relationOf catalog database) node query)

include plan

/-- A parent that is entered is bound in FROM. -/
theorem ExpressionPlan.bound_of_enters (step : Enters catalog database node parent) :
    ∃ table, .table table ∈ plan.written.select.relations ∧ parent.name = table.fullName ∧
      ∃ relation, relationOf catalog database parent table.aliasName = .ok relation := by
  obtain ⟨isParent, _, text, written, expression, reads, table, inFrom, called⟩ := step
  cases plan.expression.symm.trans expression
  cases plan.reads.symm.trans reads
  have each := Select.relations_of_mapRelationsM plan.binds
  rw [relations_of_qualifyColumns plan.owned] at each
  obtain ⟨bound, _, binds⟩ := Result.exists_of_forall₂ each.flip inFrom
  exact ⟨table, inFrom, called, bound, (bindRelation_of_parent isParent called).symm.trans binds⟩

/-- FROM is the same everywhere just if the parents are whose expressions are entered. -/
theorem ExpressionPlan.agree_iff (accepted : catalog.Accepted) :
    (∀ relation ∈ plan.written.select.relations, ∀ bound,
      bindRelation (relationOf catalog database) (catalog.parents node) relation = .ok bound →
        bindRelation (everywhereOf catalog database) (catalog.parents node) relation =
          .ok bound) ↔
      ∀ parent, Enters catalog database node parent →
        everywhereQuery catalog (everywhereOf catalog database) parent =
          expressionQuery catalog (relationOf catalog database) parent := by
  constructor
  · intro agree parent step
    obtain ⟨table, inFrom, called, relation, given⟩ := plan.bound_of_enters step
    have binds := agree _ inFrom _ ((bindRelation_of_parent step.1 called).trans given)
    rw [bindRelation_of_parent step.1 called] at binds
    exact (everywhereOf_eq_ok_iff accepted step.2.1 given).1 binds
  · intro same relation inFrom bound binds
    cases relation with
    | derived inner aliasName => exact binds
    | table table =>
        by_cases foreign : ∀ parent ∈ catalog.parents node, parent.name ≠ table.fullName
        · have kept {bind : Node → Option Name → Result Relation} :
              bindRelation bind (catalog.parents node) (.table table) = .ok (.table table) :=
            bindRelation_of_foreign fun other same => Relation.table.inj same ▸ foreign
          rw [← binds, kept, kept]
        · push Not at foreign
          obtain ⟨parent, isParent, called⟩ := foreign
          rw [bindRelation_of_parent isParent called] at binds ⊢
          cases found : parent.tableIn? database.id with
          | some stored => rw [everywhereOf_of_stored found, ← relationOf_of_stored found, binds]
          | none =>
              refine (everywhereOf_eq_ok_iff accepted found binds).2 (same parent ?_)
              exact ⟨isParent, found, plan.text, plan.written, plan.expression, plan.reads, table,
                inFrom, called⟩

/-- One expression is bound everywhere just if it reads parents in FROM alone and those that are
entered are bound everywhere. -/
theorem ExpressionPlan.everywhere_step_iff (accepted : catalog.Accepted) :
    everywhereQuery catalog (everywhereOf catalog database) node = .ok query ↔
      ReadsInFrom catalog database node ∧ ∀ parent, Enters catalog database node parent →
        everywhereQuery catalog (everywhereOf catalog database) parent =
          expressionQuery catalog (relationOf catalog database) parent := by
  rw [← plan.agree_iff accepted]
  constructor
  · intro full
    have agree := plan.agree_of_everywhere full
    obtain ⟨other⟩ := nonempty_expressionPlan (plan.expressionQuery_of_agree agree)
    exact ⟨(other.everywhere_iff (places_everywhereOf catalog database)).1 full, agree⟩
  · rintro ⟨inFrom, agree⟩
    obtain ⟨other⟩ := nonempty_expressionPlan (plan.expressionQuery_of_agree agree)
    exact (other.everywhere_iff (places_everywhereOf catalog database)).2 inFrom

end

/-- A compiled expression is bound everywhere, those of its parents included, just if every expression
that is entered reads parents in FROM alone. -/
theorem everywhere_all_iff (accepted : catalog.Accepted) (member : node ∈ catalog.nodes)
    {query : Query} (done : expressionQuery catalog (relationOf catalog database) node = .ok query) :
    everywhereQuery catalog (everywhereOf catalog database) node = .ok query ↔
      ∀ other, Entered catalog database node other → ReadsInFrom catalog database other := by
  -- a parent has a smaller rank than its node
  induction order : catalog.rank node using Nat.strong_induction_on generalizing node query with
  | _ rank ih =>
  obtain ⟨plan⟩ := nonempty_expressionPlan done
  have entered : ∀ parent, Enters catalog database node parent →
      (everywhereQuery catalog (everywhereOf catalog database) parent =
          expressionQuery catalog (relationOf catalog database) parent ↔
        ∀ other, Entered catalog database parent other → ReadsInFrom catalog database other) := by
    intro parent step
    obtain ⟨_, _, _, relation, given⟩ := plan.bound_of_enters step
    rw [relationOf_of_not_stored accepted step.2.1] at given
    obtain ⟨inner, computes, _⟩ := Result.bind_eq_ok.1 given
    rw [computes]
    exact ih _ (order ▸ accepted.rank_parent_lt member step.1)
      (Catalog.mem_of_mem_parents step.1).1 computes rfl
  rw [plan.everywhere_step_iff accepted]
  constructor
  · rintro ⟨inFrom, parents⟩ other way
    cases way with
    | here => exact inFrom
    | parent step rest => exact (entered _ step).1 (parents _ step) other rest
  · intro all
    exact ⟨all node .here, fun parent step =>
      (entered parent step).2 fun other way => all other (.parent step way)⟩

/-! ## What is left to read -/

/-- A table that stands for no parent: it is the table of one in the database, or an expression that
is entered reads it and has no parent called so. -/
def Grounded (catalog : Catalog) (database : Database) (node : Node) (table : Table) : Prop :=
  ∃ other, Entered catalog database node other ∧
    ((∃ parent ∈ catalog.parents other, ∃ stored aliasName,
        parent.tableIn? database.id = some stored ∧ table = tableOf parent stored aliasName) ∨
      ((∃ text query, other.expression = some text ∧ Query.ofText text none = .ok query ∧
          table ∈ query.reads []) ∧
        ∀ parent ∈ catalog.parents other, parent.name ≠ table.fullName))

theorem Grounded.of_parent {table : Table} (step : Enters catalog database node parent)
    (grounded : Grounded catalog database parent table) : Grounded catalog database node table := by
  obtain ⟨other, way, found⟩ := grounded
  exact ⟨other, .parent step way, found⟩

/-- A table that an expression reads, and that may stay, stands for no parent. -/
theorem MayStay.grounded {table : Table} (may : MayStay catalog database node table)
    {text : String} {query : Query} (expression : node.expression = some text)
    (reads : Query.ofText text none = .ok query) (member : table ∈ query.reads []) :
    Grounded catalog database node table := by
  refine ⟨node, .here, ?_⟩
  by_cases foreign : ∀ parent ∈ catalog.parents node, parent.name ≠ table.fullName
  · exact .inr ⟨⟨text, query, expression, reads, member⟩, foreign⟩
  · push Not at foreign
    obtain ⟨parent, isParent, called⟩ := foreign
    obtain ⟨stored, found, same⟩ := Option.map_eq_some_iff.1 (may parent isParent called)
    exact .inl ⟨parent, isParent, stored, table.aliasName, found, same.symm⟩

/-- A compiled expression reads what the queries inside it read, and the relations of its own FROM
that were written or bound. -/
theorem ExpressionPlan.mem_reads {query : Query}
    (plan : ExpressionPlan catalog (relationOf catalog database) node query) {table : Table}
    (member : table ∈ query.reads []) :
    table ∈ plan.written.readsInside ∨
      ∃ written relation, .table written ∈ plan.written.select.relations ∧
        bindRelation (relationOf catalog database) (catalog.parents node) (.table written) =
          .ok relation ∧
        table ∈ relation.reads (Table.unlessNamed (namesBehind [] plan.written.ctes))
          (namesBehind [] plan.written.ctes) := by
  rw [plan.compiles, Query.reads, List.mem_append, Select.mem_reads] at member
  obtain ⟨exprs, conditions⟩ := Select.clauses_of_mapRelationsM plan.binds
  rw [exprs, conditions] at member
  have inside : table ∈ plan.qualified.reads (fun _ => []) (namesBehind [] plan.written.ctes) →
      table ∈ plan.written.readsInside := by
    intro there
    rw [reads_of_qualifyColumns plan.owned] at there
    exact List.mem_append_right _ there
  rcases member with inCtes | inClause | ⟨relation, inFrom, reads⟩
  · exact .inl (List.mem_append_left _ inCtes)
  · exact .inl (inside (Select.mem_reads.2 (.inl inClause)))
  · obtain ⟨written, there, binds⟩ :=
      Result.exists_of_forall₂ (Select.relations_of_mapRelationsM plan.binds) inFrom
    cases written with
    | derived inner aliasName =>
        cases binds
        exact .inl (inside (Select.mem_reads.2 (.inr ⟨_, there, reads⟩)))
    | table written =>
        rw [relations_of_qualifyColumns plan.owned] at there
        exact .inr ⟨written, relation, there, binds, reads⟩

/-- Where every expression that is entered reads parents in FROM alone, a compiled one reads no table
that stands for a parent. -/
theorem grounded_of_readsInFrom (accepted : catalog.Accepted) (member : node ∈ catalog.nodes)
    {query : Query} (done : expressionQuery catalog (relationOf catalog database) node = .ok query)
    (all : ∀ other, Entered catalog database node other → ReadsInFrom catalog database other) :
    ∀ table ∈ query.reads [], Grounded catalog database node table := by
  -- a parent has a smaller rank than its node
  induction order : catalog.rank node using Nat.strong_induction_on generalizing node query with
  | _ rank ih =>
  obtain ⟨plan⟩ := nonempty_expressionPlan done
  intro table inQuery
  rcases plan.mem_reads inQuery with inside | ⟨written, relation, inFrom, binds, reads⟩
  · exact (all node .here _ _ plan.expression plan.reads table inside).grounded plan.expression
      plan.reads (Query.mem_reads_of_inside inside)
  by_cases foreign : ∀ parent ∈ catalog.parents node, parent.name ≠ written.fullName
  · rw [bindRelation_of_foreign fun other same => Relation.table.inj same ▸ foreign] at binds
    cases binds
    obtain ⟨rfl, _⟩ := Table.mem_unlessNamed.1 reads
    exact ⟨node, .here, .inr ⟨⟨plan.text, plan.written, plan.expression, plan.reads,
      Query.mem_reads_of_from inFrom reads⟩, foreign⟩⟩
  · push Not at foreign
    obtain ⟨parent, isParent, called⟩ := foreign
    rw [bindRelation_of_parent isParent called] at binds
    cases found : parent.tableIn? database.id with
    | some stored =>
        rw [relationOf_of_stored found] at binds
        cases binds
        obtain ⟨rfl, _⟩ := Table.mem_unlessNamed.1 reads
        exact ⟨node, .here, .inl ⟨parent, isParent, stored, written.aliasName, found, rfl⟩⟩
    | none =>
        have step : Enters catalog database node parent :=
          ⟨isParent, found, plan.text, plan.written, plan.expression, plan.reads, written, inFrom,
            called⟩
        rw [relationOf_of_not_stored accepted found] at binds
        obtain ⟨inner, computes, last⟩ := Result.bind_eq_ok.1 binds
        cases Result.pure_eq_ok.1 last
        apply Grounded.of_parent step
        apply ih _ (order ▸ accepted.rank_parent_lt member isParent)
          (Catalog.mem_of_mem_parents isParent).1 computes
          (fun other way => all other (.parent step way)) rfl
        exact (Query.reads_sublist (List.nil_subset _) inner).subset reads

/-- The query of a node that is not read from its table is that of its expression. -/
theorem queryOf_eq_expressionQuery {stored : Bool}
    (derived : stored = false ∧ node.expression.isSome ∨ node.tableIn? database.id = none) :
    queryOf catalog database node stored =
      expressionQuery catalog (relationOf catalog database) node := by
  rw [queryOf]
  rcases derived with ⟨rfl, some⟩ | none
  · simp [Option.isNone_iff_eq_none, Option.isSome_iff_ne_none.1 some]
  · simp [none]

/-- A node whose expression is compiled for a database has the relation of a parent wherever the
expression reads the parent, in FROM and inside, just if all that it reads below FROM may stay; the
same goes for the expressions of the parents that are entered. Then no table that the compiled query
reads at any depth stands for a parent. -/
theorem compiled_expressions_are_bound_iff
    {databases : List Database} {nodes : List Node}
    (built : Catalog.build databases nodes = .ok catalog) (member : node ∈ catalog.nodes)
    {stored : Bool}
    (derived : stored = false ∧ node.expression.isSome ∨ node.tableIn? database.id = none)
    {query : Query} (done : queryOf catalog database node stored = .ok query) :
    (everywhereQuery catalog (relationOf catalog database) node = .ok query ↔
      ReadsInFrom catalog database node) ∧
    (everywhereQuery catalog (everywhereOf catalog database) node = .ok query ↔
      ∀ other, Entered catalog database node other → ReadsInFrom catalog database other) ∧
    ((∀ other, Entered catalog database node other → ReadsInFrom catalog database other) →
      ∀ table ∈ query.reads [], Grounded catalog database node table) := by
  have accepted := Catalog.accepted_of_build built
  rw [queryOf_eq_expressionQuery derived] at done
  obtain ⟨plan⟩ := nonempty_expressionPlan done
  exact ⟨plan.everywhere_iff (places_relationOf catalog database),
    everywhere_all_iff accepted member done, grounded_of_readsInFrom accepted member done⟩

/-- Orders that are paid, read in a derived table. -/
def nestedOrders : Node :=
  { name := "paid", kind := .transform, parents := ["orders"], columns := [{ name := "amount" }]
    expression := some "SELECT t.amount FROM (SELECT amount FROM orders) AS t" }

/-- Orders in a table that is called otherwise, and those of them that are paid. -/
def nestedTill : Catalog :=
  { databases := [tillDatabase]
    nodes :=
      [{ name := "orders", kind := .source, columns := [{ name := "amount" }, { name := "status" }]
         tables := [{ database := 1, table := "raw_orders" }] }, nestedOrders] }

/-- The derived table is left to read a table `orders`, which the database does not have. -/
theorem compiled_expressions_are_bound_nestedTill :
    Catalog.build nestedTill.databases nestedTill.nodes = .ok nestedTill ∧
      ∃ query, queryOf nestedTill tillDatabase nestedOrders true = .ok query ∧
        query.text tillDatabase.dialect =
          "SELECT\n  t.amount\nFROM (\nSELECT\n  amount\nFROM orders\n) AS t" ∧
        everywhereQuery nestedTill (relationOf nestedTill tillDatabase) nestedOrders ≠ .ok query ∧
        everywhereQuery nestedTill (everywhereOf nestedTill tillDatabase) nestedOrders ≠
          .ok query := by
  have built : Catalog.build nestedTill.databases nestedTill.nodes = .ok nestedTill := by
    decide +kernel
  have text : (queryOf nestedTill tillDatabase nestedOrders true).toOption.map
      (fun query => query.text tillDatabase.dialect) =
        some "SELECT\n  t.amount\nFROM (\nSELECT\n  amount\nFROM orders\n) AS t" := by
    decide +kernel
  obtain ⟨query, known, same⟩ := Option.map_eq_some_iff.1 text
  have done := Result.eq_ok_of_toOption known
  have inside : ((Query.ofText "SELECT t.amount FROM (SELECT amount FROM orders) AS t"
      none).toOption.map fun written => decide (∀ table ∈ written.readsInside,
        MayStay nestedTill tillDatabase nestedOrders table)) = some false := by
    decide +kernel
  obtain ⟨written, reads, unbound⟩ := Option.map_eq_some_iff.1 inside
  have notInFrom : ¬ ReadsInFrom nestedTill tillDatabase nestedOrders := fun inFrom =>
    of_decide_eq_false unbound (inFrom _ written rfl (Result.eq_ok_of_toOption reads))
  obtain ⟨one, all, _⟩ := compiled_expressions_are_bound_iff built
    (List.mem_cons_of_mem _ List.mem_cons_self) (.inr rfl) done
  exact ⟨built, query, done, same, mt one.1 notInFrom,
    mt all.1 fun each => notInFrom (each nestedOrders .here)⟩

end Planner
end SemanticLayer
