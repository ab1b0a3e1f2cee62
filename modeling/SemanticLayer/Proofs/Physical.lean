import SemanticLayer.Proofs.Agreement
import SemanticLayer.Proofs.Nesting
import SemanticLayer.Proofs.Origins
import SemanticLayer.Proofs.Promises
import SemanticLayer.Proofs.Reads

/-!
# Names that SQL over metrics leaves behind

SQL over metrics is written with the names of metrics and of dimensions, and the query it is
compiled to is one over relations. A name that stands for nothing is refused, but an alias is not
resolved wherever it stands, and subqueries are not entered: these are the names left behind.
-/

namespace SemanticLayer

namespace Sql

theorem Column.qualifier_of_bare {column : Column} (bare : column.isQualified = false) :
    column.qualifier = [] := by
  obtain ⟨name, table, path⟩ := column
  cases table <;> cases path <;> first | rfl | cases bare

/-- A relation is referred to by some name, if at all. -/
theorem Relation.path?_ne_nil (relation : Relation) : relation.path? ≠ some [] := by
  cases relation with
  | derived query aliasName => cases aliasName <;> simp [Relation.path?]
  | table table =>
      rw [Relation.path?, Table.reference]
      cases table.aliasName <;> simp

end Sql

namespace Planner

open SemanticLayer.Sql
open Catalog (Node Database Hop)

variable {catalog : Catalog} {database : Database} {parents : List Node}

/-! ## Names left behind -/

/-- Whether a SELECT names relations alone: none of them is the table of metrics, columns that are
shown belong to them, and only what arranges rows has bare columns, which are aliases of the
projection. -/
structure Physical (select : Select) : Prop where
  relations : ∀ relation ∈ select.relations, relation.tableName? ≠ some metricsTable
  shown : ∀ expr ∈ select.shown, ∀ column ∈ expr.columns,
    ∃ relation ∈ select.relations, relation.owns column = true
  conditions : ∀ expr ∈ select.conditions, ∀ column ∈ expr.columns, column.isQualified = true
  arranged : ∀ expr ∈ select.arranged, ∀ column ∈ expr.columns, column.isQualified = false →
    column.name.value ∈ select.aliases

/-- Whether every SELECT of a query, at any depth, names relations alone. -/
def PhysicalThroughout (query : Query) : Prop :=
  query.Throughout fun inner => Physical inner.select

/-! ## Relations that stay -/

/-- Whether a relation of a SELECT is referred to by a name once it is bound. -/
def Houses (parents : List Node) (select : Select) (name : String) : Prop :=
  ∃ relation ∈ select.relations, boundPath? parents relation = some [name]

namespace Joins

variable {joins after : Joins} {hop : Hop} {path : List Hop} {paths : List (List Hop)}

/-- The dimension that a hop joins goes by its own name, whatever its table is called. -/
theorem boundPath?_of_dimension (plain : catalog.PlainlyStored) {dimension : Node}
    (member : dimension ∈ catalog.nodes) (outside : dimension.name ∉ parents.map Node.name)
    {relation : Relation} (read : relationOf catalog database dimension none = .ok relation) :
    boundPath? parents relation = some [dimension.name] := by
  rcases relationOf_cases read with ⟨stored, there, rfl⟩ | ⟨query, rfl⟩
  · have path : (Relation.table (tableOf dimension stored none)).path? = some [dimension.name] :=
      path?_tableOf (plain dimension member stored there)
    rw [boundPath?]
    split
    next parent found =>
      have called : parent.name = stored.toTable.fullName := by
        simpa [tableOf, Table.fullName] using List.find?_some found
      have differs : stored.toTable.fullName ≠ dimension.name := by
        rintro same
        exact outside (same ▸ called ▸ List.mem_map_of_mem (List.mem_of_find?_eq_some found))
      rw [tableOf, if_neg differs]
      rfl
    next => exact path
  · rfl

/-- A join that is attached to an entry of FROM brings its relation and takes none away. -/
theorem perm_attach (name : Name) (join : Join) (first : Source) (rest : List Source) :
    ((attach name join (first :: rest)).flatMap Source.relations).Perm
      (join.relation :: (first :: rest).flatMap Source.relations) := by
  apply perm_addAt
  cases found : (first :: rest).findIdx? (holds name) with
  | none => simp
  | some position => exact (List.findIdx?_eq_some_iff_getElem.1 found).1

/-- A SELECT with dimensions joined to it on qualified columns: no name of a relation is lost, and
every dimension that was joined is a relation by its own name. -/
structure Housing (parents : List Node) (begun joins : Joins) : Prop where
  kept : ∀ name, Houses parents begun.select name → Houses parents joins.select name
  joined : ∀ name ∈ joins.joined, name ∈ begun.joined ∨ Houses parents joins.select name
  conditions : ∀ expr ∈ joins.select.conditions, expr ∈ begun.select.conditions ∨
    ∀ column ∈ expr.columns, column.isQualified = true

theorem Housing.refl (joins : Joins) : Housing parents joins joins :=
  ⟨fun _ houses => houses, fun _ member => .inl member, fun _ member => .inl member⟩

theorem Housing.addHop {begun : Joins} (housing : Housing parents begun joins)
    (plain : catalog.PlainlyStored) (outside : hop.dimension ∉ parents.map Node.name)
    (done : joins.addHop catalog database hop = .ok after) : Housing parents begun after := by
  by_cases joined : hop.dimension ∈ joins.joined
  · rw [addHop_of_joined joined] at done
    cases done
    exact housing
  · obtain ⟨dimension, relation, first, rest, known, read, listed, rfl⟩ := addHop_eq_ok joined done
    have found := Demand.node?_of_node known
    have called := Demand.name_of_node? found
    have perm := perm_attach (joins.names.nameOf hop.source) (joins.joinOf hop relation) first rest
    have stays {name : String} (houses : Houses parents joins.select name) : Houses parents
        { joins.select with
          sources := some (attach (joins.names.nameOf hop.source) (joins.joinOf hop relation)
            (first :: rest)) } name := by
      obtain ⟨other, inFrom, path⟩ := houses
      rw [Select.relations, listed] at inFrom
      exact ⟨other, perm.mem_iff.2 (List.mem_cons_of_mem _ inFrom), path⟩
    refine ⟨fun name houses => stays (housing.kept name houses), fun name member => ?_,
      fun expr member => ?_⟩
    · rcases List.mem_cons.1 member with rfl | before
      · have path := boundPath?_of_dimension plain (Catalog.mem_of_node? found).1
          (called ▸ outside) read
        exact .inr ⟨relation, perm.mem_iff.2 List.mem_cons_self, called ▸ path⟩
      · exact (housing.joined name before).imp_right stays
    · rcases mem_conditions_of_addAt member with before | last
      · apply housing.conditions
        rwa [Select.conditions, listed]
      · right
        cases last
        rw [columns_condition]
        simp [columnOf, Column.isQualified]

/-- Joining along paths that avoid the parents keeps dimensions housed. -/
theorem housing_of_addPaths {begun : Joins} (plain : catalog.PlainlyStored)
    (avoids : ∀ path ∈ paths, Catalog.Avoids (parents.map Node.name) path)
    (done : paths.foldlM (Joins.addPath catalog database) begun = .ok after) :
    Housing parents begun after := by
  refine Result.foldlM_induction (Housing parents begun) (.refl begun) ?_ done
  intro path onPaths before next housing step
  rw [addPath_eq_foldlM] at step
  refine Result.foldlM_induction (Housing parents begun) housing ?_ step
  intro hop onPath _ _ housing step
  exact housing.addHop plain (avoids path onPaths hop onPath) step

end Joins

/-! ## The compiled query -/

/-- Dimensions are joined along the paths to them. -/
theorem ways_of_demandJoins {subject : String} {start : List Node} {dimensions : List String}
    {first last : Demand × List (List Hop)}
    (done : dimensions.foldlM (demandJoin catalog subject start) first = .ok last) :
    ∃ more, last.2 = first.2 ++ more ∧
      dimensions.map (catalog.dimensionPath start) = more.map some := by
  induction dimensions generalizing first with
  | nil =>
      cases Result.pure_eq_ok.1 done
      exact ⟨[], by simp, rfl⟩
  | cons dimension dimensions ih =>
      rw [List.foldlM_cons, Result.bind_eq_ok] at done
      obtain ⟨middle, step, later⟩ := done
      rw [demandJoin] at step
      split at step
      next => cases step
      next path way =>
        obtain ⟨_, _, last⟩ := Result.bind_eq_ok.1 step
        cases Result.pure_eq_ok.1 last
        obtain ⟨more, all, ways⟩ := ih later
        refine ⟨path :: more, ?_, ?_⟩
        · rw [all, List.append_assoc]
          rfl
        · rw [List.map_cons, way, ways, List.map_cons]

/-- Paths to dimensions avoid the nodes that they start from. -/
theorem avoids_of_ways {start : List Node} {dimensions : List String} {paths : List (List Hop)}
    (ways : dimensions.map (catalog.dimensionPath start) = paths.map some) {path : List Hop}
    (member : path ∈ paths) : Catalog.Avoids (start.map Node.name) path := by
  have among : some path ∈ paths.map some := List.mem_map_of_mem member
  rw [← ways] at among
  obtain ⟨dimension, _, there⟩ := List.mem_map.1 among
  exact Catalog.avoids_dimensionPath there

/-- Dimensions that paths lead to are joined along with the others on their paths. -/
theorem joined_of_ways {start : List Node} {dimensions : List String} {paths : List (List Hop)}
    {begun joins : Joins} (ways : dimensions.map (catalog.dimensionPath start) = paths.map some)
    (done : paths.foldlM (Joins.addPath catalog database) begun = .ok joins) {dimension : String}
    (member : dimension ∈ dimensions) : dimension ∈ joins.joined := by
  have among : catalog.dimensionPath start dimension ∈ paths.map some := by
    rw [← ways]
    exact List.mem_map_of_mem member
  obtain ⟨path, onPaths, same⟩ := List.mem_map.1 among
  obtain ⟨hop, onPath, arrives⟩ := (Catalog.route_dimensionPath same.symm).2
  exact arrives ▸ (Joins.joined_of_addPaths done).2 path onPaths hop onPath

section

variable {sql : String} {logical : Logical} {select : Select} {found : Found}
  {requested : Option Int} {compiled : Compiled}

/-- What is known of a finished query: it changes the SELECT in FROM alone, relations keep the names
that they are bound to, and every dimension that was met is a relation by its own name. -/
structure Finished (logical : Logical) (select : Select) (found : Found) (compiled : Compiled) :
    Prop where
  ctes : compiled.query.ctes = logical.query.ctes
  clauses : ∃ sources, compiled.query.select = Joins.withSources select sources
  housed : ∀ name, Houses logical.scope.parents select name →
    ∃ relation ∈ compiled.query.select.relations, relation.path? = some [name]
  joined : ∀ node ∈ found.joined, node ∉ logical.scope.parents.map Node.name →
    ∃ relation ∈ compiled.query.select.relations, relation.path? = some [node]
  conditions : ∀ expr ∈ compiled.query.select.conditions, expr ∈ select.conditions ∨
    ∀ column ∈ expr.columns, column.isQualified = true

/-- A finished query changes the SELECT in FROM alone. -/
theorem Logical.select_of_finish
    (done : logical.finish catalog requested select found = .ok compiled) :
    ∃ sources, compiled.query.select = Joins.withSources select sources := by
  obtain ⟨⟨demand, paths⟩, _, rest⟩ := Result.bind_eq_ok.1 done
  obtain ⟨database, _, rest⟩ := Result.bind_eq_ok.1 rest
  obtain ⟨joins, joined, rest⟩ := Result.bind_eq_ok.1 rest
  obtain ⟨bound, binds, last⟩ := Result.bind_eq_ok.1 rest
  cases Result.pure_eq_ok.1 last
  obtain ⟨sources, _, same⟩ := Select.mapRelationsM_eq_ok.1 binds
  refine ⟨sources, ?_⟩
  rw [← same, Joins.select_of_addPaths joined]
  rfl

theorem Logical.Of.finished (begun : logical.Of catalog sql) (plain : catalog.PlainlyStored)
    (done : logical.finish catalog requested select found = .ok compiled) :
    Finished logical select found compiled := by
  have clauses := Logical.select_of_finish done
  obtain ⟨⟨demand, paths⟩, demands, rest⟩ := Result.bind_eq_ok.1 done
  obtain ⟨database, _, rest⟩ := Result.bind_eq_ok.1 rest
  obtain ⟨joins, joined, rest⟩ := Result.bind_eq_ok.1 rest
  obtain ⟨bound, binds, last⟩ := Result.bind_eq_ok.1 rest
  cases Result.pure_eq_ok.1 last
  have known : ∀ parent ∈ logical.scope.parents, parent ∈ catalog.nodes := fun parent isParent =>
    (Catalog.mem_of_node? (named_scope begun.scopes parent isParent)).1
  obtain ⟨_, all, ways⟩ := ways_of_demandJoins demands
  rw [List.nil_append] at all
  subst all
  have housing := Joins.housing_of_addPaths plain (fun _ => avoids_of_ways ways) joined
  have housed : ∀ name, Houses logical.scope.parents joins.select name →
      ∃ relation ∈ bound.relations, relation.path? = some [name] := by
    rintro name ⟨relation, inFrom, path⟩
    obtain ⟨after, there, binds⟩ :=
      Result.exists_result_of_forall₂ (Select.relations_of_mapRelationsM binds) inFrom
    exact ⟨after, there, (path?_bindRelation plain known binds).trans path⟩
  refine ⟨rfl, clauses, fun name houses => housed name (housing.kept name houses), ?_, ?_⟩
  · intro node met outside
    apply housed
    refine (housing.joined node (joined_of_ways ways joined met)).resolve_left fun start =>
      outside ?_
    obtain ⟨entry, member, rfl⟩ := List.mem_map.1 start
    rw [begun.scope.1] at member
    obtain ⟨parent, isParent, same⟩ := (NodeNames.for_ofSelect _ _).known entry member
    exact same ▸ List.mem_map_of_mem isParent
  · intro expr member
    rw [(Select.clauses_of_mapRelationsM binds).2] at member
    exact housing.conditions expr member

/-- The SELECT that is finished is the logical one with each column resolved. -/
structure Logical.Settles (catalog : Catalog) (logical : Logical) (select : Select)
    (found : Found) : Prop where
  changes : logical.select.mapExprsM (Expr.mapColumnsM (ownedColumn catalog logical.scope)) =
    .ok select
  found : found =
    logical.columns.foldl (Found.note catalog logical.scope) { references := logical.references }

theorem Logical.settles_of_resolve (done : logical.resolve catalog = .ok (select, found)) :
    logical.Settles catalog select found := by
  have notes := logical.select.notes_mapExprsM (notes_resolveColumn catalog logical.scope)
  obtain ⟨changes, same⟩ := notes.of_ok done
  exact ⟨changes, same⟩

/-- A name of a node in FROM stands for a relation of the finished query. -/
theorem Logical.Of.named (begun : logical.Of catalog sql)
    (settles : logical.Settles catalog select found)
    (finished : Finished logical select found compiled) {entry : String × Name}
    (inFrom : entry ∈ logical.scope.names) :
    ∃ relation ∈ compiled.query.select.relations, relation.path? = some [entry.2.value] := by
  have relations : select.relations = logical.select.relations :=
    Select.relations_congr (Select.sources_of_mapExprsM settles.changes)
  rw [begun.scope.1] at inFrom
  obtain ⟨relation, there, path⟩ := NodeNames.exists_boundPath?_of_mem inFrom
  exact finished.housed _ ⟨relation, relations ▸ there, path⟩

/-- A parent stands in FROM, and any other node that was met is joined. -/
theorem Logical.Of.housed (begun : logical.Of catalog sql) (present : logical.ParentsInFrom)
    (settles : logical.Settles catalog select found)
    (finished : Finished logical select found compiled) {node : String}
    (met : isStart logical.scope.parents node = false → node ∈ found.joined) :
    ∃ relation ∈ compiled.query.select.relations,
      relation.path? = some [(logical.scope.names.nameOf node).value] := by
  have proper : logical.scope.names.For logical.scope.parents := by
    rw [begun.scope.1]
    exact NodeNames.for_ofSelect _ _
  cases start : isStart logical.scope.parents node with
  | true =>
      obtain ⟨parent, isParent, same⟩ := List.any_eq_true.1 start
      obtain ⟨label, goesBy⟩ := Option.isSome_iff_exists.1 (begun.isSome_get? present isParent)
      rw [← beq_iff_eq.1 same, NodeNames.nameOf, goesBy, Option.getD_some]
      obtain ⟨entry, first, rfl⟩ := Option.map_eq_some_iff.1 goesBy
      exact begun.named settles finished (List.mem_of_find?_eq_some first)
  | false =>
      have outside : ∀ parent ∈ logical.scope.parents, parent.name ≠ node := by
        intro parent isParent same
        exact List.any_eq_false.1 start parent isParent (beq_iff_eq.2 same)
      rw [proper.nameOf_of_not_mem outside]
      apply finished.joined node (met start)
      intro among
      obtain ⟨parent, isParent, same⟩ := List.mem_map.1 among
      exact outside parent isParent same

/-- A column of a finished query is an alias, or belongs to a relation of FROM. -/
theorem Logical.Of.owned (begun : logical.Of catalog sql) (present : logical.ParentsInFrom)
    (settles : logical.Settles catalog select found)
    (finished : Finished logical select found compiled) {column after : Column}
    (member : column ∈ logical.columns)
    (done : ownedColumn catalog logical.scope column = .ok after) :
    (logical.scope.IsAlias column ∧ after = column) ∨
      ∃ relation ∈ compiled.query.select.relations, relation.owns after = true := by
  cases resolved_of_ownedColumn done with
  | called is => exact .inl ⟨is, rfl⟩
  | table owned =>
      obtain ⟨table, has⟩ := Option.isSome_iff_exists.1 owned
      obtain ⟨entry, inFrom, rfl⟩ := begun.called present member table has
      obtain ⟨relation, there, path⟩ := begun.named settles finished inFrom
      refine .inr ⟨relation, there, ?_⟩
      rw [Relation.owns, path, Column.qualifier, has]
      exact beq_self_eq_true _
  | @owned node name owner isJoined _ moves refers owns =>
      have proper : logical.scope.names.For logical.scope.parents := by
        rw [begun.scope.1]
        exact NodeNames.for_ofSelect _ _
      obtain ⟨rfl, joins⟩ := Prod.mk.inj (owner_eq_ok proper owns)
      have met : isStart logical.scope.parents node = false → node ∈ found.joined := by
        intro start
        rw [joins, start] at owns
        rw [settles.found]
        exact mem_joined_of_note.2 column member moves node name _ refers owns
      obtain ⟨relation, there, path⟩ := begun.housed present settles finished met
      refine .inr ⟨relation, there, ?_⟩
      rw [Relation.owns, path]
      exact beq_self_eq_true _

/-- A bare column belongs to no relation. -/
theorem isQualified_of_owns {relation : Relation} {column : Column}
    (owner : relation.owns column = true) : column.isQualified = true := by
  by_contra bare
  rw [Relation.owns, Column.qualifier_of_bare (Bool.eq_false_iff.2 bare)] at owner
  exact relation.path?_ne_nil (beq_iff_eq.1 owner)

/-- What is shown belongs to relations of FROM just if it is no alias. -/
theorem Logical.Of.shown_iff (begun : logical.Of catalog sql) (present : logical.ParentsInFrom)
    (settles : logical.Settles catalog select found)
    (finished : Finished logical select found compiled) :
    (∀ expr ∈ compiled.query.select.shown, ∀ column ∈ expr.columns,
      ∃ relation ∈ compiled.query.select.relations, relation.owns column = true) ↔
        ∀ expr ∈ logical.select.shown, ∀ column ∈ expr.columns, ¬ logical.scope.IsAlias column := by
  obtain ⟨shown, _, _⟩ := Select.clauses_of_mapExprsM settles.changes
  have same : compiled.query.select.shown = select.shown := by
    obtain ⟨sources, clauses⟩ := finished.clauses
    rw [clauses]
    rfl
  rw [same]
  constructor
  · intro owned expr isExpr column member is
    obtain ⟨after, isShown, changed⟩ := Result.exists_result_of_forall₂ shown isExpr
    obtain ⟨other, there, owns⟩ :=
      Result.exists_result_of_forall₂ (Expr.columns_of_mapColumnsM changed) member
    rw [ownedColumn, if_pos (.inr is)] at owns
    cases owns
    obtain ⟨relation, _, owner⟩ := owned after isShown column there
    have qualified := isQualified_of_owns owner
    rw [Column.isQualified, is.1, is.2.1] at qualified
    cases qualified
  · intro hidden after isShown other there
    obtain ⟨expr, isExpr, changed⟩ := Result.exists_of_forall₂ shown isShown
    obtain ⟨column, member, owns⟩ :=
      Result.exists_of_forall₂ (Expr.columns_of_mapColumnsM changed) there
    refine (begun.owned present settles finished ?_ owns).resolve_left ?_
    · rw [Logical.columns, Select.exprs_eq]
      exact List.mem_flatMap.2 ⟨expr, List.mem_append_left _ isExpr, member⟩
    · exact fun is => hidden expr isExpr column member is.1

/-- What arranges rows has no bare columns but aliases. -/
theorem Logical.Of.arranged (begun : logical.Of catalog sql) (present : logical.ParentsInFrom)
    (settles : logical.Settles catalog select found)
    (finished : Finished logical select found compiled) :
    ∀ expr ∈ compiled.query.select.arranged, ∀ column ∈ expr.columns,
      column.isQualified = false → column.name.value ∈ compiled.query.select.aliases := by
  obtain ⟨_, arranged, aliases⟩ := Select.clauses_of_mapExprsM settles.changes
  have same : compiled.query.select.arranged = select.arranged ∧
      compiled.query.select.aliases = logical.scope.aliases := by
    obtain ⟨sources, clauses⟩ := finished.clauses
    rw [clauses, begun.scope.2]
    exact ⟨rfl, aliases⟩
  rw [same.1, same.2]
  intro after isArranged other there bare
  obtain ⟨expr, isExpr, changed⟩ := Result.exists_of_forall₂ arranged isArranged
  obtain ⟨column, member, owns⟩ :=
    Result.exists_of_forall₂ (Expr.columns_of_mapColumnsM changed) there
  have among : column ∈ logical.columns := by
    rw [Logical.columns, Select.exprs_eq]
    exact List.mem_flatMap.2 ⟨expr, List.mem_append_right _ isExpr, member⟩
  rcases begun.owned present settles finished among owns with ⟨is, rfl⟩ | ⟨relation, _, owner⟩
  · exact is.2.2
  · rw [isQualified_of_owns owner] at bare
    cases bare

/-- The SELECT of a finished query is physical if no alias is shown, and no relation of FROM is the
table of metrics. -/
theorem Logical.Of.physical_iff (begun : logical.Of catalog sql) (present : logical.ParentsInFrom)
    (settles : logical.Settles catalog select found)
    (finished : Finished logical select found compiled) :
    Physical compiled.query.select ↔
      (∀ expr ∈ logical.select.shown, ∀ column ∈ expr.columns,
        ¬ logical.scope.IsAlias column) ∧
      ∀ relation ∈ compiled.query.select.relations, relation.tableName? ≠ some metricsTable := by
  rw [← begun.shown_iff present settles finished]
  constructor
  · exact fun physical => ⟨physical.shown, physical.relations⟩
  · rintro ⟨shown, relations⟩
    refine ⟨relations, shown, fun expr isCondition => ?_, begun.arranged present settles finished⟩
    refine (finished.conditions expr isCondition).elim (fun written => ?_) id
    rw [Select.conditions, Select.sources_of_mapExprsM settles.changes] at written
    exact fun column member => begun.isQualified present written member

/-- The queries that stand in a finished query are the subqueries of the logical one, as they are
written, and those of its FROM. -/
theorem Logical.Of.mem_inside (begun : logical.Of catalog sql)
    (settles : logical.Settles catalog select found)
    (finished : Finished logical select found compiled) {query : Query} :
    query ∈ compiled.query.inside ↔
      query ∈ logical.select.exprs.flatMap Expr.subqueries ∨
        query ∈ compiled.query.select.queriesInFrom := by
  obtain ⟨sources, clauses⟩ := finished.clauses
  have exprs : compiled.query.select.exprs = select.exprs := by
    rw [clauses]
    rfl
  rw [Query.inside, finished.ctes, begun.alone, exprs,
    flatMap_subqueries_of_forall₂ (Select.exprs_of_mapExprsM settles.changes), List.map_nil,
    List.nil_append, List.mem_append]

end

/-- SQL over metrics with a bare name that is no alias and names no node fails: as one of its
columns does, and with that name if it is such a column. Where all parents stand in FROM, the query
that any other SQL is compiled to names relations alone, at every depth, just if no alias is shown
(a metric is one, so it may only be selected by itself or arrange rows), the same holds of all
subqueries, which are left as they are written, and FROM brings no other names. -/
theorem metric_queries_are_physical_iff {sql : String} {logical : Logical}
    (begun : logicalOf catalog sql = .ok logical) (requested : Option Int) :
    ((∃ column ∈ logical.columns, logical.scope.IsUnknown column) →
      ∃ failure, metricQuery catalog sql requested = .error failure ∧
        ∃ column ∈ logical.columns,
          (∀ found, (resolveColumn catalog logical.scope column).run found = .error failure) ∧
            (logical.scope.IsUnknown column → failure = .invalidIdentifier column.name.value)) ∧
    (catalog.PlainlyStored → logical.ParentsInFrom →
      ∀ compiled, metricQuery catalog sql requested = .ok compiled →
        (PhysicalThroughout compiled.query ↔
          (∀ expr ∈ logical.select.shown, ∀ column ∈ expr.columns,
            ¬ logical.scope.IsAlias column) ∧
          (∀ query ∈ logical.select.exprs.flatMap Expr.subqueries, PhysicalThroughout query) ∧
          (∀ relation ∈ compiled.query.select.relations,
            relation.tableName? ≠ some metricsTable) ∧
          ∀ query ∈ compiled.query.select.queriesInFrom, PhysicalThroughout query)) := by
  have known := Logical.of_logicalOf begun
  rw [metricQuery_eq, Result.bind_of_ok begun]
  constructor
  · intro unknown
    obtain ⟨failure, failed, column, member, refused⟩ :=
      logical.resolve_of_unknown catalog unknown
    refine ⟨failure, ?_, column, member, ?_, fun lost => ?_⟩
    · rw [failed]
      rfl
    · exact fun found => (notes_resolveColumn catalog logical.scope column).of_error refused found
    · rw [ownedColumn_of_unknown lost] at refused
      exact (Except.error.inj refused).symm
  · intro plain present compiled done
    obtain ⟨⟨select, found⟩, resolved, last⟩ := Result.bind_eq_ok.1 done
    have settles := Logical.settles_of_resolve resolved
    have finished := known.finished plain last
    rw [PhysicalThroughout, Query.throughout_iff, known.physical_iff present settles finished]
    simp only [known.mem_inside settles finished, or_imp, forall_and]
    constructor
    · rintro ⟨⟨hidden, relations⟩, written, inFrom⟩
      exact ⟨hidden, written, relations, inFrom⟩
    · rintro ⟨hidden, written, relations, inFrom⟩
      exact ⟨⟨hidden, relations⟩, written, inFrom⟩

/-- Orders and the sum over them. -/
def books : Catalog :=
  { databases := [tillDatabase]
    nodes :=
      [{ name := "orders", kind := .source, columns := [{ name := "amount" }, { name := "status" }]
         tables := [{ database := 1, table := "orders" }] },
       { name := "revenue", kind := .metric, parents := ["orders"]
         expression := some "SELECT SUM(amount) FROM orders" }] }

/-- Revenue, ordered by itself. -/
def orderedRevenue : String := "SELECT revenue FROM metrics ORDER BY revenue"

/-- Revenue beside its maximum, as if there were a table of metrics. -/
def nestedRevenue : String :=
  "SELECT revenue, (SELECT MAX(revenue) FROM metrics) AS top FROM metrics"

/-- An unknown name is refused. A metric that orders rows is replaced, one in a subquery is not. -/
theorem metric_queries_are_physical_iff_books :
    metricQuery books "SELECT revenue, foo FROM metrics" none = .error (.invalidIdentifier "foo") ∧
      (∃ compiled, metricQuery books orderedRevenue none = .ok compiled ∧
        PhysicalThroughout compiled.query) ∧
      ∃ compiled, metricQuery books nestedRevenue none = .ok compiled ∧
        ¬ PhysicalThroughout compiled.query := by
  have plain : books.PlainlyStored := by decide +kernel
  refine ⟨?_, ?_, ?_⟩
  · have found : (logicalOf books "SELECT revenue, foo FROM metrics").toOption.map
        (fun logical => decide ((∃ column ∈ logical.columns, logical.scope.IsUnknown column) ∧
          ∀ column ∈ logical.columns, column.table.isSome ∨
            (logical.scope.IsUnknown column ∧ column.name.value = "foo"))) = some true := by
      decide +kernel
    obtain ⟨logical, known, holds⟩ := Option.map_eq_some_iff.1 found
    obtain ⟨unknown, only⟩ := of_decide_eq_true holds
    obtain ⟨failure, failed, column, member, refused, lost⟩ :=
      (metric_queries_are_physical_iff (Result.eq_ok_of_toOption known) none).1 unknown
    rcases only column member with owned | ⟨isUnknown, called⟩
    · have kept := refused { references := [] }
      rw [resolveColumn_of_table owned] at kept
      cases kept
    · rw [failed, lost isUnknown, called]
  · obtain ⟨logical, compiled, begun, done, present, hidden, none, relations, alone⟩ :=
      exists_run books orderedRevenue none
        (fun logical compiled => logical.ParentsInFrom ∧
          (∀ expr ∈ logical.select.shown, ∀ column ∈ expr.columns,
            ¬ logical.scope.IsAlias column) ∧
          logical.select.exprs.flatMap Expr.subqueries = [] ∧
          (∀ relation ∈ compiled.query.select.relations,
            relation.tableName? ≠ some metricsTable) ∧
          compiled.query.select.queriesInFrom = []) (by decide +kernel)
    refine ⟨compiled, done, ?_⟩
    refine ((metric_queries_are_physical_iff begun _).2 plain present compiled done).2
      ⟨hidden, ?_, relations, ?_⟩
    · rw [none]
      nofun
    · rw [alone]
      nofun
  · obtain ⟨logical, compiled, begun, done, present, query, inside, relation, inFrom, virtual⟩ :=
      exists_run books nestedRevenue none
        (fun logical _ => logical.ParentsInFrom ∧
          ∃ query ∈ logical.select.exprs.flatMap Expr.subqueries,
            ∃ relation ∈ query.select.relations,
              relation.tableName? = some metricsTable) (by decide +kernel)
    have settled := (metric_queries_are_physical_iff begun _).2 plain present compiled done
    refine ⟨compiled, done, fun physical => ?_⟩
    obtain ⟨_, written, _⟩ := settled.1 physical
    exact (Query.throughout_iff.1 (written query inside)).1.relations relation inFrom virtual

end Planner
end SemanticLayer
