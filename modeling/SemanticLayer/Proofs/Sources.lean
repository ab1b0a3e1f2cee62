import SemanticLayer.Proofs.Binding
import SemanticLayer.Proofs.Promises

/-!
# What stands in FROM

FROM of a compiled query holds the relations that were written, with parents replaced by their own
relations, and the dimensions that were joined. Nothing else changes FROM.
-/

namespace SemanticLayer

namespace Sql

variable {change : Relation → Result Relation}

theorem Source.relations_of_mapRelationsM {source after : Source}
    (done : source.mapRelationsM change = .ok after) :
    List.Forall₂ (fun relation changed => change relation = .ok changed)
      source.relations after.relations := by
  obtain ⟨primary, first, rest⟩ := Result.bind_eq_ok.1 done
  obtain ⟨joins, each, last⟩ := Result.bind_eq_ok.1 rest
  cases Result.pure_eq_ok.1 last
  refine .cons first ?_
  have kept := Result.mapM_eq_ok_iff.1 each
  clear each done rest last
  generalize source.joins = written at kept
  induction kept with
  | nil => exact .nil
  | cons here _ ih =>
      obtain ⟨relation, changed, last⟩ := Result.bind_eq_ok.1 here
      cases Result.pure_eq_ok.1 last
      exact .cons changed ih

theorem flatMap_relations_of_mapRelationsM {sources after : List Source}
    (each : List.Forall₂ (fun source changed => source.mapRelationsM change = .ok changed)
      sources after) :
    List.Forall₂ (fun relation changed => change relation = .ok changed)
      (sources.flatMap Source.relations) (after.flatMap Source.relations) := by
  induction each with
  | nil => exact .nil
  | cons here _ ih => exact List.rel_append (Source.relations_of_mapRelationsM here) ih

/-- Every relation of FROM is changed, each in its place. -/
theorem Select.relations_of_mapRelationsM {select after : Select}
    (done : select.mapRelationsM change = .ok after) :
    List.Forall₂ (fun relation changed => change relation = .ok changed)
      select.relations after.relations := by
  rw [mapRelationsM] at done
  split at done
  next none =>
    cases Result.pure_eq_ok.1 done
    rw [relations, none]
    exact .nil
  next sources listed =>
    obtain ⟨changed, each, last⟩ := Result.bind_eq_ok.1 done
    cases Result.pure_eq_ok.1 last
    rw [relations, relations, listed]
    exact flatMap_relations_of_mapRelationsM (Result.mapM_eq_ok_iff.1 each)

end Sql

namespace Planner

open SemanticLayer.Sql
open Catalog (Node Database Hop)

variable {catalog : Catalog} {database : Database} {node : Node}

namespace Joins

variable {joins after : Joins} {hop : Hop} {join : Join}

/-- A join that is added brings its relation and no other. -/
theorem mem_relations_of_addAt {position : Nat} {sources : List Source} {relation : Relation}
    (member : relation ∈ (addAt join position sources).flatMap Source.relations) :
    relation ∈ sources.flatMap Source.relations ∨ relation = join.relation := by
  induction sources generalizing position with
  | nil =>
      rw [addAt] at member
      cases member
  | cons source rest ih =>
      cases position with
      | zero =>
          rw [addAt, List.flatMap_cons, List.mem_append] at member
          rw [List.flatMap_cons, List.mem_append]
          rcases member with here | later
          · rw [Source.relations, List.map_append, ← List.cons_append, List.mem_append] at here
            rcases here with before | last
            · exact .inl (.inl before)
            · exact .inr (List.mem_singleton.1 last)
          · exact .inl (.inr later)
      | succ position =>
          rw [addAt, List.flatMap_cons, List.mem_append] at member
          rw [List.flatMap_cons, List.mem_append, or_assoc]
          exact member.imp_right ih

/-- A dimension that some hops lead to, as a relation of a database. -/
def Brings (catalog : Catalog) (database : Database) (hops : List Hop) (relation : Relation) :
    Prop :=
  ∃ hop ∈ hops, ∃ dimension, catalog.node? hop.dimension = some dimension ∧
    relationOf catalog database dimension none = .ok relation

theorem relations_of_addHop (done : joins.addHop catalog database hop = .ok after) :
    ∀ relation ∈ after.select.relations,
      relation ∈ joins.select.relations ∨ Brings catalog database [hop] relation := by
  intro relation member
  by_cases joined : hop.dimension ∈ joins.joined
  · rw [addHop_of_joined joined] at done
    cases done
    exact .inl member
  · obtain ⟨dimension, read, first, rest, known, found, entries, rfl⟩ := addHop_eq_ok joined done
    rw [Select.relations, entries]
    rcases mem_relations_of_addAt member with before | last
    · exact .inl before
    · exact .inr ⟨hop, List.mem_cons_self, dimension, Demand.node?_of_node known,
        last.symm ▸ found⟩

/-- Joining along paths adds dimensions to FROM and nothing else. -/
theorem relations_of_addPaths {paths : List (List Hop)}
    (done : paths.foldlM (addPath catalog database) joins = .ok after) :
    ∀ relation ∈ after.select.relations,
      relation ∈ joins.select.relations ∨ Brings catalog database paths.flatten relation := by
  refine Result.foldlM_induction (fun state : Joins => ∀ relation ∈ state.select.relations,
    relation ∈ joins.select.relations ∨ Brings catalog database paths.flatten relation)
    (fun _ member => .inl member) ?_ done
  intro path onPaths before next kept step
  rw [addPath_eq_foldlM] at step
  refine Result.foldlM_induction (fun state : Joins => ∀ relation ∈ state.select.relations,
    relation ∈ joins.select.relations ∨ Brings catalog database paths.flatten relation) kept ?_ step
  intro hop onPath before next kept step relation member
  rcases relations_of_addHop step relation member with there | ⟨_, only, brings⟩
  · exact kept relation there
  · cases List.mem_singleton.1 only
    exact .inr ⟨hop, List.mem_flatten.2 ⟨path, onPaths, onPath⟩, brings⟩

end Joins

/-! ## Filters and groups -/

theorem sources_of_addFilters {names : NodeNames} {filters : List Filter} {select after : Select}
    (done : filters.foldlM (addFilter names) select = .ok after) :
    after.sources = select.sources := by
  refine Result.foldlM_induction (fun state : Select => state.sources = select.sources) rfl ?_ done
  intro filter _ before next kept step
  obtain ⟨_, _, last⟩ := Result.bind_eq_ok.1 step
  cases Result.pure_eq_ok.1 last
  exact kept

theorem sources_of_addGroupBys {names : NodeNames} {groupBys : List String}
    {select after : Select} (done : groupBys.foldlM (addGroupBy names) select = .ok after) :
    after.sources = select.sources := by
  refine Result.foldlM_induction (fun state : Select => state.sources = select.sources) rfl ?_ done
  intro name _ before next kept step
  obtain ⟨_, _, last⟩ := Result.bind_eq_ok.1 step
  cases Result.pure_eq_ok.1 last
  exact kept

/-- FROM of a query for a node is that of the node with dimensions joined to it. -/
theorem NodePlan.sources {groupBys filters : List String} {requested : Option Int}
    {compiled : Compiled} (plan : NodePlan catalog node groupBys filters requested compiled) :
    compiled.query.select.sources = plan.joins.select.sources := by
  rw [plan.compiles, sources_of_addGroupBys plan.groups, sources_of_addFilters plan.restricts]

end Planner
end SemanticLayer
