import SemanticLayer.Proofs.Joining
import SemanticLayer.Proofs.Naming

/-!
# Binding keeps what relations are called

A relation that takes the place of a parent is referred to as the parent was. A relation that is
called like no parent is left alone.
-/

namespace SemanticLayer

/-- The first item of least key stands behind items of greater keys and in front of items of keys
that are no less. -/
theorem Catalog.exists_split_of_firstLeast? {α : Type} {key : α → Int} {items : List α} {item : α}
    (found : firstLeast? key items = some item) :
    ∃ before after, items = before ++ item :: after ∧
      (∀ other ∈ before, key item < key other) ∧ ∀ other ∈ after, key item ≤ key other := by
  induction items generalizing item with
  | nil => cases found
  | cons first rest ih =>
      rw [firstLeast?] at found
      split at found
      next least later =>
        obtain ⟨before, after, rfl, greater, noLess⟩ := ih later
        cases found
        split
        next front =>
          refine ⟨[], _, rfl, by simp, fun other member => ?_⟩
          rcases List.mem_append.1 member with earlier | behind
          · exact le_trans front (greater other earlier).le
          · rcases List.mem_cons.1 behind with rfl | further
            · exact front
            · exact le_trans front (noLess other further)
        next back =>
          exact ⟨first :: before, after, rfl,
            List.forall_mem_cons.2 ⟨not_le.1 back, greater⟩, noLess⟩
      next none =>
        cases found
        refine ⟨[], rest, rfl, by simp, fun other member => ?_⟩
        cases rest with
        | nil => cases member
        | cons second others =>
            rw [firstLeast?] at none
            split at none <;> cases none

namespace Planner

open SemanticLayer.Sql
open Catalog (Node Database Hop Materialization)

variable {catalog : Catalog} {database : Database} {nodes : List Node} {node : Node}

theorem mem_of_firstLeast? {α : Type} {key : α → Int} {items : List α} {item : α}
    (found : Catalog.firstLeast? key items = some item) : item ∈ items := by
  obtain ⟨before, after, rfl, _⟩ := Catalog.exists_split_of_firstLeast? found
  simp

/-- A node is read from one of its tables or from a query. -/
theorem relationOf_cases {aliasName : Option Name} {relation : Relation}
    (done : relationOf catalog database node aliasName = .ok relation) :
    (∃ stored ∈ node.tables, relation = .table (tableOf node stored aliasName)) ∨
      ∃ query, relation = .derived query (some (aliasName.getD { value := node.name })) := by
  rw [relationOf, relationWithin] at done
  split at done
  next stored found =>
    cases done
    exact .inl ⟨stored, (List.mem_filter.1 (mem_of_firstLeast? found)).1, rfl⟩
  next =>
    obtain ⟨query, _, last⟩ := Result.bind_eq_ok.1 done
    cases Result.pure_eq_ok.1 last
    exact .inr ⟨query, rfl⟩

/-- A relation that is called like no parent is kept. -/
theorem bindRelation_of_foreign {bind : Node → Option Name → Result Relation} {relation : Relation}
    (foreign : ∀ table, relation = .table table → ∀ parent ∈ nodes, parent.name ≠ table.fullName) :
    bindRelation bind nodes relation = .ok relation := by
  cases relation with
  | derived query aliasName => rfl
  | table table =>
      have none : nodes.find? (fun parent => parent.name == table.fullName) = none := by
        rw [List.find?_eq_none]
        intro parent member same
        exact foreign table rfl parent member (beq_iff_eq.1 same)
      rw [bindRelation, none]

/-- A dimension is kept if none of its tables is called like a parent. -/
theorem bindRelation_relationOf {bind : Node → Option Name → Result Relation} {relation : Relation}
    (foreign : ∀ table ∈ node.tables, ∀ parent ∈ nodes, parent.name ≠ table.toTable.fullName)
    (done : relationOf catalog database node none = .ok relation) :
    bindRelation bind nodes relation = .ok relation := by
  apply bindRelation_of_foreign
  intro table same parent member
  rcases relationOf_cases done with ⟨stored, there, rfl⟩ | ⟨query, rfl⟩
  · cases same
    exact foreign stored there parent member
  · cases same

/-! ## References -/

/-- A table whose full name has no dot is called by its own name. -/
theorem path_eq_none_of_undotted {table : Table} (undotted : '.' ∉ table.fullName.toList) :
    table.path = none := by
  cases path : table.path with
  | none => rfl
  | some parts =>
      rw [Table.fullName, path] at undotted
      simp at undotted

theorem name_of_undotted {table : Table} (undotted : '.' ∉ table.fullName.toList) :
    table.name.value = table.fullName := by
  rw [Table.fullName, path_eq_none_of_undotted undotted]

/-- A node is referred to by its alias, or else by its name, unless that has dots. -/
theorem referenceName?_relationOf {aliasName : Option Name} {relation : Relation}
    (clear : aliasName = none → '.' ∉ node.name.toList)
    (done : relationOf catalog database node aliasName = .ok relation) :
    ∃ name, relation.referenceName? = some name ∧
      name.value = (aliasName.getD { value := node.name }).value := by
  rcases relationOf_cases done with ⟨stored, _, rfl⟩ | ⟨query, rfl⟩
  · refine ⟨_, rfl, ?_⟩
    cases aliasName with
    | some given => rfl
    | none =>
        rw [tableOf]
        by_cases same : stored.toTable.fullName = node.name
        · have undotted := clear rfl
          rw [← same] at undotted
          simpa [same] using name_of_undotted undotted
        · simp [same]
  · exact ⟨_, rfl, rfl⟩

/-- Parents in FROM that have no alias have no dots in their names. -/
def PlainlyNamed (nodes : List Node) (relation : Relation) : Prop :=
  ∀ table, relation = .table table → table.aliasName = none →
    ∀ parent ∈ nodes, parent.name = table.fullName → '.' ∉ parent.name.toList

theorem Name.beq_some_congr {first second : Option Name}
    (same : first.map Name.value = second.map Name.value) (name : Name) :
    (first == some name) = (second == some name) := by
  cases first with
  | none =>
      cases second with
      | none => rfl
      | some other => cases same
  | some one =>
      cases second with
      | none => cases same
      | some other =>
          have value : one.value = other.value := Option.some.inj same
          show (one.value == name.value) = (other.value == name.value)
          rw [value]

/-- A bound relation is referred to as before. -/
theorem referenceName?_bindRelation {relation bound : Relation}
    (plain : PlainlyNamed nodes relation)
    (done : bindRelation (relationOf catalog database) nodes relation = .ok bound) (name : Name) :
    (relation.referenceName? == some name) = (bound.referenceName? == some name) := by
  cases relation with
  | derived query aliasName =>
      cases done
      rfl
  | table table =>
      rw [bindRelation] at done
      split at done
      next parent found =>
        have member := List.mem_of_find?_eq_some found
        have called : parent.name = table.fullName := by simpa using List.find?_some found
        have clear := fun bare => plain table rfl bare parent member called
        obtain ⟨other, refers, same⟩ := referenceName?_relationOf clear done
        apply Name.beq_some_congr
        rw [refers, Relation.referenceName?, Option.map_some, Option.map_some, same]
        cases aliasName : table.aliasName with
        | some given => rfl
        | none =>
            have undotted := clear aliasName
            rw [called] at undotted
            rw [Option.getD_none, Option.getD_none, name_of_undotted undotted, called]
      next =>
        cases done
        rfl

theorem holds_of_mapRelationsM {source bound : Source}
    (plain : ∀ relation ∈ source.relations, PlainlyNamed nodes relation)
    (done : source.mapRelationsM (bindRelation (relationOf catalog database) nodes) = .ok bound)
    (name : Name) : Joins.holds name source = Joins.holds name bound := by
  obtain ⟨primary, first, rest⟩ := Result.bind_eq_ok.1 done
  obtain ⟨joins, others, last⟩ := Result.bind_eq_ok.1 rest
  cases Result.pure_eq_ok.1 last
  have head := referenceName?_bindRelation (plain _ List.mem_cons_self) first name
  have tail : (source.joins.map Join.relation).any (fun one => one.referenceName? == some name) =
      (joins.map Join.relation).any fun one => one.referenceName? == some name := by
    have each := Result.mapM_eq_ok_iff.1 others
    have plainJoins : ∀ join ∈ source.joins, PlainlyNamed nodes join.relation :=
      fun join member => plain _ (List.mem_cons_of_mem _ (List.mem_map_of_mem member))
    generalize source.joins = written at each plainJoins
    clear others rest done last
    induction each with
    | nil => rfl
    | cons here _ ih =>
        obtain ⟨relation, step, same⟩ := Result.bind_eq_ok.1 here
        cases Result.pure_eq_ok.1 same
        rw [List.map_cons, List.map_cons, List.any_cons, List.any_cons,
          referenceName?_bindRelation (plainJoins _ List.mem_cons_self) step name,
          ih fun join member => plainJoins join (List.mem_cons_of_mem _ member)]
  simp only [Joins.holds, Source.relations, List.any_cons, head, tail]

/-- A FROM clause, and the same with its parents bound. -/
theorem binds_of_bindRelations {select bound : Select}
    (clear : (select.sources.getD []).length ≤ 1 ∨
      ∀ relation ∈ select.relations, PlainlyNamed nodes relation)
    (done : bindRelations (relationOf catalog database) select nodes = .ok bound) :
    bound = Joins.withSources select bound.sources ∧
      Option.Rel (Joins.Binds (bindRelation (relationOf catalog database) nodes)) select.sources
        bound.sources := by
  rw [bindRelations, Select.mapRelationsM] at done
  split at done
  next listed =>
    cases Result.pure_eq_ok.1 done
    refine ⟨(Joins.withSources_self select).symm, ?_⟩
    rw [listed]
    exact .none
  next sources listed =>
    obtain ⟨changed, each, last⟩ := Result.bind_eq_ok.1 done
    cases Result.pure_eq_ok.1 last
    refine ⟨rfl, ?_⟩
    rw [listed]
    have kept := Result.mapM_eq_ok_iff.1 each
    refine .some ⟨kept, ?_⟩
    rw [listed, Option.getD_some] at clear
    rcases clear with one | plain
    · exact .inl one
    · refine .inr ?_
      rw [Select.relations, listed, Option.getD_some] at plain
      clear last each done listed
      induction kept with
      | nil => exact .nil
      | cons here _ ih =>
          have first := fun relation member =>
            plain relation (List.mem_flatMap.2 ⟨_, List.mem_cons_self, member⟩)
          refine .cons (holds_of_mapRelationsM first here) (ih fun relation member => ?_)
          obtain ⟨source, there, inside⟩ := List.mem_flatMap.1 member
          exact plain relation (List.mem_flatMap.2 ⟨source, List.mem_cons_of_mem _ there, inside⟩)

end Planner
end SemanticLayer
