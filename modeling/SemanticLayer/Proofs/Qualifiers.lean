import SemanticLayer.Proofs.Naming
import SemanticLayer.Proofs.Refilling

/-!
# Columns of a SELECT

The columns of a SELECT, join conditions included, and what the steps of the planner make of them:
giving columns their owners changes each column in its place, binding changes none, and a filter or a
dimension adds one.
-/

namespace SemanticLayer

namespace Sql

/-- The join conditions of an entry of FROM. -/
def Source.conditions (source : Source) : List Expr :=
  source.joins.filterMap Join.on

/-- The join conditions of FROM. -/
def Select.conditions (select : Select) : List Expr :=
  (select.sources.getD []).flatMap Source.conditions

/-- The columns of a SELECT outside of subqueries: of its expressions and of its join conditions. -/
def Select.columns (select : Select) : List Column :=
  (select.exprs ++ select.conditions).flatMap Expr.columns

theorem Select.mem_columns {select : Select} {column : Column} :
    column ∈ select.columns ↔
      (∃ expr ∈ select.exprs, column ∈ expr.columns) ∨
        ∃ expr ∈ select.conditions, column ∈ expr.columns := by
  rw [columns, List.flatMap_append, List.mem_append, List.mem_flatMap, List.mem_flatMap]

/-! ## Walks that succeed -/

section

variable {change : Column → Result Column}

/-- Two lists of columns, the second one made of the first by a change. -/
abbrev Changes (change : Column → Result Column) (before after : List Column) : Prop :=
  List.Forall₂ (fun column changed => change column = .ok changed) before after

/-- A walk that succeeds changes each column in its place. -/
theorem Expr.columns_of_mapColumnsM {expr after : Expr}
    (done : mapColumnsM change expr = .ok after) : Changes change expr.columns after.columns := by
  rw [mapColumnsM_eq_mapM_columns] at done
  obtain ⟨others, ran, rfl⟩ := Result.map_eq_ok.1 done
  have each := Result.mapM_eq_ok_iff.1 ran
  rwa [columns_withColumns each.length_eq.symm]

variable {select after : Select}

theorem flatMap_columns_of_forall₂ {exprs others : List Expr}
    (each : List.Forall₂ (fun expr changed => Expr.mapColumnsM change expr = .ok changed)
      exprs others) :
    Changes change (exprs.flatMap Expr.columns) (others.flatMap Expr.columns) := by
  induction each with
  | nil => exact .nil
  | cons here _ ih => exact List.rel_append (Expr.columns_of_mapColumnsM here) ih

end

section

variable {change : Expr → Result Expr} {select after : Select}

theorem toList_of_mapM {expr? other? : Option Expr} (done : expr?.mapM change = .ok other?) :
    List.Forall₂ (fun expr changed => change expr = .ok changed) expr?.toList other?.toList := by
  cases expr? with
  | none =>
      cases Result.pure_eq_ok.1 done
      exact .nil
  | some expr =>
      have changed : (some <$> change expr) = .ok other? := done
      cases first : change expr with
      | error failure =>
          rw [first] at changed
          cases changed
      | ok value =>
          rw [first] at changed
          cases changed
          exact .cons first .nil

theorem orderings_of_mapM {orderings others : List Ordering}
    (done : orderings.mapM (fun ordering => do
      pure { ordering with expr := ← change ordering.expr }) = .ok others) :
    List.Forall₂ (fun expr changed => change expr = .ok changed)
      (orderings.map Ordering.expr) (others.map Ordering.expr) := by
  have each := Result.mapM_eq_ok_iff.1 done
  clear done
  induction each with
  | nil => exact .nil
  | cons here _ ih =>
      obtain ⟨_, changed, last⟩ := Result.bind_eq_ok.1 here
      cases Result.pure_eq_ok.1 last
      exact .cons changed ih

/-- The expressions outside of FROM are changed, each in its place. -/
theorem Select.exprs_of_mapExprsM (done : select.mapExprsM change = .ok after) :
    List.Forall₂ (fun expr changed => change expr = .ok changed) select.exprs after.exprs := by
  obtain ⟨projection, first, rest⟩ := Result.bind_eq_ok.1 done
  obtain ⟨filter, second, rest⟩ := Result.bind_eq_ok.1 rest
  obtain ⟨groupBy, third, rest⟩ := Result.bind_eq_ok.1 rest
  obtain ⟨having, fourth, rest⟩ := Result.bind_eq_ok.1 rest
  obtain ⟨orderBy, fifth, last⟩ := Result.bind_eq_ok.1 rest
  cases Result.pure_eq_ok.1 last
  have orderings := orderings_of_mapM fifth
  exact List.rel_append (List.rel_append (List.rel_append (List.rel_append
    (Result.mapM_eq_ok_iff.1 first) (toList_of_mapM second)) (Result.mapM_eq_ok_iff.1 third))
      (toList_of_mapM fourth)) orderings

theorem Source.conditions_of_mapConditionsM {source changed : Source}
    (done : source.mapConditionsM change = .ok changed) :
    List.Forall₂ (fun expr changed => change expr = .ok changed) source.conditions
      changed.conditions := by
  obtain ⟨joins, each, last⟩ := Result.bind_eq_ok.1 done
  cases Result.pure_eq_ok.1 last
  show List.Forall₂ _ (source.joins.filterMap Join.on) (joins.filterMap Join.on)
  have kept := Result.mapM_eq_ok_iff.1 each
  generalize source.joins = written at kept
  clear each done last
  induction kept with
  | nil => exact .nil
  | @cons join _ _ _ here _ ih =>
      split at here
      next on listed =>
        obtain ⟨_, first, last⟩ := Result.bind_eq_ok.1 here
        cases Result.pure_eq_ok.1 last
        rw [List.filterMap_cons_some listed]
        exact .cons first ih
      next none =>
        cases Result.pure_eq_ok.1 here
        rwa [List.filterMap_cons_none none, List.filterMap_cons_none none]

theorem Select.conditions_of_mapConditionsM (done : select.mapConditionsM change = .ok after) :
    List.Forall₂ (fun expr changed => change expr = .ok changed) select.conditions
      after.conditions := by
  rw [mapConditionsM] at done
  split at done
  next none =>
    cases Result.pure_eq_ok.1 done
    rw [conditions, none]
    exact .nil
  next sources listed =>
    obtain ⟨changed, each, last⟩ := Result.bind_eq_ok.1 done
    cases Result.pure_eq_ok.1 last
    rw [conditions, conditions, listed, Option.getD_some, Option.getD_some]
    have kept := Result.mapM_eq_ok_iff.1 each
    clear each done last listed
    induction kept with
    | nil => exact .nil
    | cons here _ ih => exact List.rel_append (Source.conditions_of_mapConditionsM here) ih

/-- Changed join conditions leave the expressions outside of FROM alone. -/
theorem Select.exprs_of_mapConditionsM (done : select.mapConditionsM change = .ok after) :
    after.exprs = select.exprs := by
  rw [mapConditionsM] at done
  split at done
  · cases Result.pure_eq_ok.1 done
    rfl
  · obtain ⟨_, _, last⟩ := Result.bind_eq_ok.1 done
    cases Result.pure_eq_ok.1 last
    rfl

end

section

variable {change : Relation → Result Relation} {select after : Select}

theorem Source.conditions_of_mapRelationsM {source changed : Source}
    (done : source.mapRelationsM change = .ok changed) :
    changed.conditions = source.conditions := by
  obtain ⟨primary, _, rest⟩ := Result.bind_eq_ok.1 done
  obtain ⟨joins, each, last⟩ := Result.bind_eq_ok.1 rest
  cases Result.pure_eq_ok.1 last
  show joins.filterMap Join.on = source.joins.filterMap Join.on
  have kept := Result.mapM_eq_ok_iff.1 each
  generalize source.joins = written at kept
  clear each done last rest
  induction kept with
  | nil => rfl
  | cons here _ ih =>
      obtain ⟨_, _, last⟩ := Result.bind_eq_ok.1 here
      cases Result.pure_eq_ok.1 last
      rw [List.filterMap_cons, List.filterMap_cons, ih]

/-- Changed relations leave the expressions outside of FROM and the join conditions alone. -/
theorem Select.clauses_of_mapRelationsM (done : select.mapRelationsM change = .ok after) :
    after.exprs = select.exprs ∧ after.conditions = select.conditions := by
  rw [mapRelationsM] at done
  split at done
  · cases Result.pure_eq_ok.1 done
    exact ⟨rfl, rfl⟩
  next sources listed =>
    obtain ⟨changed, each, last⟩ := Result.bind_eq_ok.1 done
    cases Result.pure_eq_ok.1 last
    refine ⟨rfl, ?_⟩
    have kept := Result.mapM_eq_ok_iff.1 each
    rw [conditions, conditions, listed, Option.getD_some, Option.getD_some]
    clear each done last listed
    induction kept with
    | nil => rfl
    | cons here _ ih =>
        rw [List.flatMap_cons, List.flatMap_cons, Source.conditions_of_mapRelationsM here, ih]

/-- Changed relations leave all columns alone. -/
theorem Select.columns_of_mapRelationsM (done : select.mapRelationsM change = .ok after) :
    after.columns = select.columns := by
  obtain ⟨exprs, conditions⟩ := clauses_of_mapRelationsM done
  rw [columns, columns, exprs, conditions]

end

end Sql

namespace Planner

open SemanticLayer.Sql
open Catalog (Node)

variable {names : NodeNames} {nodes : List Node} {select after : Select}

/-! ## Owners -/

/-- Columns get their owners, each in its place. -/
theorem columns_of_qualifyColumns (done : qualifyColumns select nodes = .ok after) :
    Changes (qualifyColumn (NodeNames.ofSelect select nodes) nodes) select.columns
      after.columns := by
  obtain ⟨middle, exprs, conditions⟩ := Result.bind_eq_ok.1 done
  have same : middle.conditions = select.conditions := by
    rw [Select.conditions, Select.conditions, Select.sources_of_mapExprsM exprs]
  have first := Select.exprs_of_mapExprsM exprs
  have second := Select.conditions_of_mapConditionsM conditions
  rw [same] at second
  rw [← Select.exprs_of_mapConditionsM conditions] at first
  exact flatMap_columns_of_forall₂ (List.rel_append first second)

/-- A column with an owner keeps it, and any other one gets the name of a node or stays without. -/
theorem qualifyColumn_cases {column changed : Column}
    (done : qualifyColumn names nodes column = .ok changed) :
    changed = column ∨ ∃ node ∈ nodes, ∃ owner, names.get? node.name = some owner ∧
      changed.qualifier = [owner] := by
  rw [qualifyColumn] at done
  split at done
  next =>
    cases done
    exact .inl rfl
  next bare =>
    split at done
    next =>
      cases done
      exact .inl rfl
    next owner one =>
      cases done
      have among : owner ∈ owners names nodes column.name.value := by
        rw [one]
        exact List.mem_singleton_self owner
      obtain ⟨node, member, found⟩ := List.mem_filterMap.1 among
      split at found
      · refine .inr ⟨node, member, owner, found, ?_⟩
        rw [Column.addTable, if_neg bare]
        rfl
      · cases found
    next => cases done

/-- Qualification changes the owners of columns alone. -/
theorem name_of_qualifyColumn {column changed : Column}
    (done : qualifyColumn names nodes column = .ok changed) : changed.name = column.name := by
  rw [qualifyColumn] at done
  split at done
  · cases done
    rfl
  · split at done
    · cases done
      rfl
    · cases done
      rw [Column.addTable]
      split <;> rfl
    · cases done

end Planner
end SemanticLayer
