import SemanticLayer.Proofs.Likeness

/-!
# Queries inside a query

A query holds others: named ones, derived tables, and subqueries of its expressions. A property that
is to hold at any depth holds of a query and, in turn, of every query that stands in it. Walks over
columns leave subqueries alone.
-/

namespace SemanticLayer.Sql

mutual

/-- The subqueries of an expression, those that stand in other subqueries apart. -/
def Expr.subqueries : Expr → List Query
  | .column _ | .literal _ | .wildcard _ => []
  | .binary left _ right => left.subqueries ++ right.subqueries
  | .unary _ operand => operand.subqueries
  | .call _ _ args _ => subqueriesOfList args
  | .case operand conditions results otherwise =>
    subqueriesOfOption operand ++ subqueriesOfList conditions ++ subqueriesOfList results ++
      subqueriesOfOption otherwise
  | .between subject low high _ => subject.subqueries ++ low.subqueries ++ high.subqueries
  | .isNull subject _ => subject.subqueries
  | .inList subject items _ => subject.subqueries ++ subqueriesOfList items
  | .aliased _ child => child.subqueries
  | .nested inner => inner.subqueries
  | .subquery query => [query]

/-- The subqueries of an optional expression. -/
def subqueriesOfOption : Option Expr → List Query
  | none => []
  | some expr => expr.subqueries

/-- The subqueries of expressions. -/
def subqueriesOfList : List Expr → List Query
  | [] => []
  | expr :: rest => expr.subqueries ++ subqueriesOfList rest

end

/-- The query of a derived table. -/
def Relation.queries : Relation → List Query
  | .table _ => []
  | .derived query _ => [query]

/-- The queries that stand in FROM: derived tables, and subqueries of join conditions. -/
def Select.queriesInFrom (select : Select) : List Query :=
  select.relations.flatMap Relation.queries ++ select.conditions.flatMap Expr.subqueries

/-- The queries that stand in a query. -/
def Query.inside (query : Query) : List Query :=
  query.ctes.map Cte.query ++ query.select.exprs.flatMap Expr.subqueries ++
    query.select.queriesInFrom

/-- Whether something holds of a query and of all queries in it, at any depth. -/
inductive Query.Throughout (holds : Query → Prop) : Query → Prop
  | intro {query : Query} (here : holds query)
      (inside : ∀ inner ∈ query.inside, inner.Throughout holds) : query.Throughout holds

/-- Something holds throughout a query if it holds of the query and throughout all in it. -/
theorem Query.throughout_iff {holds : Query → Prop} {query : Query} :
    query.Throughout holds ↔ holds query ∧ ∀ inner ∈ query.inside, inner.Throughout holds := by
  constructor
  · rintro ⟨here, inside⟩
    exact ⟨here, inside⟩
  · rintro ⟨here, inside⟩
    exact ⟨here, inside⟩

/-! ## Likeness and walks -/

section

variable {related : Column → Column → Prop}

mutual

/-- Alike expressions have the same subqueries. -/
theorem Expr.Alike.subqueries_eq : {expr other : Expr} → Expr.Alike related expr other →
    other.subqueries = expr.subqueries
  | .column _, _, .column _ | .literal _, _, .literal _ | .wildcard _, _, .wildcard _
  | .subquery _, _, .subquery _ => rfl
  | .binary .., _, .binary _ first second => by
      simp only [Expr.subqueries, first.subqueries_eq, second.subqueries_eq]
  | .unary .., _, .unary _ inner => by simp only [Expr.subqueries, inner.subqueries_eq]
  | .call .., _, .call _ _ _ inner => by simp only [Expr.subqueries, inner.subqueries_eq]
  | .case .., _, .case first second third last => by
      simp only [Expr.subqueries, first.subqueries_eq, second.subqueries_eq, third.subqueries_eq,
        last.subqueries_eq]
  | .between .., _, .between _ first second third => by
      simp only [Expr.subqueries, first.subqueries_eq, second.subqueries_eq, third.subqueries_eq]
  | .isNull .., _, .isNull _ inner => by simp only [Expr.subqueries, inner.subqueries_eq]
  | .inList .., _, .inList _ first second => by
      simp only [Expr.subqueries, first.subqueries_eq, second.subqueries_eq]
  | .aliased .., _, .aliased _ inner => by simp only [Expr.subqueries, inner.subqueries_eq]
  | .nested _, _, .nested inner => by simp only [Expr.subqueries, inner.subqueries_eq]

theorem Expr.AlikeOption.subqueries_eq : {expr? other? : Option Expr} →
    Expr.AlikeOption related expr? other? → subqueriesOfOption other? = subqueriesOfOption expr?
  | none, _, .none => rfl
  | some _, _, .some here => by simp only [subqueriesOfOption, here.subqueries_eq]

theorem Expr.AlikeList.subqueries_eq : {exprs others : List Expr} →
    Expr.AlikeList related exprs others → subqueriesOfList others = subqueriesOfList exprs
  | [], _, .nil => rfl
  | _ :: _, _, .cons here later => by
      simp only [subqueriesOfList, here.subqueries_eq, later.subqueries_eq]

end

end

section

variable {change : Column → Result Column}

/-- A walk over columns keeps subqueries. -/
theorem Expr.subqueries_of_mapColumnsM {expr after : Expr}
    (done : Expr.mapColumnsM change expr = .ok after) : after.subqueries = expr.subqueries :=
  (Expr.alike_of_mapColumnsM done).subqueries_eq

/-- A walk over columns keeps an alias. -/
theorem Expr.aliasName?_of_mapColumnsM {expr after : Expr}
    (done : Expr.mapColumnsM change expr = .ok after) : after.aliasName? = expr.aliasName? :=
  (Expr.alike_of_mapColumnsM done).aliasName?_eq

variable {exprs others : List Expr}

theorem flatMap_subqueries_of_forall₂
    (each : List.Forall₂ (fun expr changed => Expr.mapColumnsM change expr = .ok changed)
      exprs others) :
    others.flatMap Expr.subqueries = exprs.flatMap Expr.subqueries := by
  induction each with
  | nil => rfl
  | cons here _ ih =>
      rw [List.flatMap_cons, List.flatMap_cons, Expr.subqueries_of_mapColumnsM here, ih]

theorem filterMap_aliasName?_of_forall₂
    (each : List.Forall₂ (fun expr changed => Expr.mapColumnsM change expr = .ok changed)
      exprs others) :
    others.filterMap Expr.aliasName? = exprs.filterMap Expr.aliasName? := by
  induction each with
  | nil => rfl
  | cons here _ ih =>
      rw [List.filterMap_cons, List.filterMap_cons, Expr.aliasName?_of_mapColumnsM here, ih]

end

/-! ## Clauses of a SELECT -/

namespace Select

/-- The expressions that make up rows and choose them: of the projection and of WHERE. -/
def shown (select : Select) : List Expr :=
  select.projection ++ select.filter.toList

/-- The expressions that arrange what is shown: of GROUP BY, HAVING and ORDER BY. -/
def arranged (select : Select) : List Expr :=
  select.groupBy ++ select.having.toList ++ select.orderBy.map Ordering.expr

/-- The aliases of the projection. -/
def aliases (select : Select) : List String :=
  (select.projection.filterMap Expr.aliasName?).map Name.value

theorem exprs_eq (select : Select) : select.exprs = select.shown ++ select.arranged := by
  simp [exprs, shown, arranged]

/-- Expressions are changed, each in its place, and aliases stay. -/
theorem clauses_of_mapExprsM {select after : Select} {change : Column → Result Column}
    (done : select.mapExprsM (Expr.mapColumnsM change) = .ok after) :
    List.Forall₂ (fun expr changed => Expr.mapColumnsM change expr = .ok changed) select.shown
        after.shown ∧
      List.Forall₂ (fun expr changed => Expr.mapColumnsM change expr = .ok changed) select.arranged
        after.arranged ∧
      after.aliases = select.aliases := by
  obtain ⟨projection, first, rest⟩ := Result.bind_eq_ok.1 done
  obtain ⟨filter, second, rest⟩ := Result.bind_eq_ok.1 rest
  obtain ⟨groupBy, third, rest⟩ := Result.bind_eq_ok.1 rest
  obtain ⟨having, fourth, rest⟩ := Result.bind_eq_ok.1 rest
  obtain ⟨orderBy, fifth, last⟩ := Result.bind_eq_ok.1 rest
  cases Result.pure_eq_ok.1 last
  have items := Result.mapM_eq_ok_iff.1 first
  have orderings := orderings_of_mapM fifth
  refine ⟨List.rel_append items (toList_of_mapM second), ?_, ?_⟩
  · exact List.rel_append (List.rel_append (Result.mapM_eq_ok_iff.1 third) (toList_of_mapM fourth))
      orderings
  · exact congrArg (List.map Name.value) (filterMap_aliasName?_of_forall₂ items)

end Select

end SemanticLayer.Sql
