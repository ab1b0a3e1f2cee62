import SemanticLayer.Proofs.Nesting
import SemanticLayer.Proofs.Sources

/-!
# Tables at every depth

A query reads tables in FROM, and in FROM of the queries inside it: of derived tables, of named
queries and of subqueries in expressions. A named query hides the tables of its name from the named
queries after it and from the SELECT behind them, at every depth.
-/

namespace SemanticLayer.Sql

/-- The names of queries in scope behind a WITH clause. -/
def namesBehind (scope : List String) (ctes : List Cte) : List String :=
  ctes.map (fun cte => cte.name.value) ++ scope

/-- Whether a table of FROM is one of the named queries in scope. -/
def Table.isNamed (scope : List String) (table : Table) : Bool :=
  table.path.isNone && scope.contains table.name.value

/-- A table of FROM, unless it is a named query. -/
def Table.unlessNamed (scope : List String) (table : Table) : List Table :=
  if table.isNamed scope then [] else [table]

/-! ## Listing -/

mutual

/-- The tables that subqueries of an expression read. -/
def Expr.reads (scope : List String) : Expr → List Table
  | .column _ | .literal _ | .wildcard _ => []
  | .binary left _ right => left.reads scope ++ right.reads scope
  | .unary _ operand => operand.reads scope
  | .call _ _ args _ => readsOfList scope args
  | .case operand conditions results otherwise =>
    readsOfOption scope operand ++ readsOfList scope conditions ++ readsOfList scope results ++
      readsOfOption scope otherwise
  | .between subject low high _ => subject.reads scope ++ low.reads scope ++ high.reads scope
  | .isNull subject _ => subject.reads scope
  | .inList subject items _ => subject.reads scope ++ readsOfList scope items
  | .aliased _ child => child.reads scope
  | .nested inner => inner.reads scope
  | .subquery query => query.reads scope
termination_by structural expr => expr

/-- The tables that an optional expression reads. -/
def readsOfOption (scope : List String) : Option Expr → List Table
  | none => []
  | some expr => expr.reads scope
termination_by structural expr? => expr?

/-- The tables that expressions read. -/
def readsOfList (scope : List String) : List Expr → List Table
  | [] => []
  | expr :: rest => expr.reads scope ++ readsOfList scope rest
termination_by structural exprs => exprs

/-- The tables that a relation reads; `own` tells what a table itself counts for. -/
def Relation.reads (own : Table → List Table) (scope : List String) : Relation → List Table
  | .table table => own table
  | .derived query _ => query.reads scope
termination_by structural relation => relation

/-- The tables that a join reads. -/
def Join.reads (own : Table → List Table) (scope : List String) : Join → List Table
  | ⟨_, relation, on⟩ => relation.reads own scope ++ readsOfOption scope on
termination_by structural join => join

/-- The tables that joins read. -/
def readsOfJoins (own : Table → List Table) (scope : List String) : List Join → List Table
  | [] => []
  | join :: rest => join.reads own scope ++ readsOfJoins own scope rest
termination_by structural joins => joins

/-- The tables that an entry of FROM reads. -/
def Source.reads (own : Table → List Table) (scope : List String) : Source → List Table
  | ⟨primary, joins⟩ => primary.reads own scope ++ readsOfJoins own scope joins
termination_by structural source => source

/-- The tables that entries of FROM read. -/
def readsOfSources (own : Table → List Table) (scope : List String) : List Source → List Table
  | [] => []
  | source :: rest => source.reads own scope ++ readsOfSources own scope rest
termination_by structural sources => sources

/-- The tables that FROM reads. -/
def readsOfFrom (own : Table → List Table) (scope : List String) :
    Option (List Source) → List Table
  | none => []
  | some sources => readsOfSources own scope sources
termination_by structural sources? => sources?

/-- The tables that an entry of ORDER BY reads. -/
def Ordering.reads (scope : List String) : Ordering → List Table
  | ⟨expr, _, _⟩ => expr.reads scope
termination_by structural ordering => ordering

/-- The tables that ORDER BY reads. -/
def readsOfOrderings (scope : List String) : List Ordering → List Table
  | [] => []
  | ordering :: rest => ordering.reads scope ++ readsOfOrderings scope rest
termination_by structural orderings => orderings

/-- The tables that a SELECT reads; `own` tells what the tables of its FROM count for. -/
def Select.reads (own : Table → List Table) (scope : List String) : Select → List Table
  | ⟨_, projection, sources, filter, groupBy, having, orderBy, _, _⟩ =>
    readsOfList scope projection ++ readsOfFrom own scope sources ++ readsOfOption scope filter ++
      readsOfList scope groupBy ++ readsOfOption scope having ++ readsOfOrderings scope orderBy
termination_by structural select => select

/-- The tables that a named query reads. -/
def Cte.reads (scope : List String) : Cte → List Table
  | ⟨_, query⟩ => query.reads scope
termination_by structural cte => cte

/-- The tables that named queries read, each of them behind the ones before it. -/
def readsOfCtes (scope : List String) : List Cte → List Table
  | [] => []
  | cte :: rest => cte.reads scope ++ readsOfCtes (cte.name.value :: scope) rest
termination_by structural ctes => ctes

/-- The tables that a query reads at any depth, named queries apart. -/
def Query.reads (scope : List String) : Query → List Table
  | ⟨ctes, select⟩ =>
    readsOfCtes scope ctes ++
      select.reads (Table.unlessNamed (namesBehind scope ctes)) (namesBehind scope ctes)
termination_by structural query => query

end

/-- The tables that the queries inside a query read, named queries apart. -/
def Query.readsInside (query : Query) : List Table :=
  readsOfCtes [] query.ctes ++ query.select.reads (fun _ => []) (namesBehind [] query.ctes)

/-! ## What is listed -/

theorem Table.mem_unlessNamed {scope : List String} {table other : Table} :
    other ∈ table.unlessNamed scope ↔ other = table ∧ ¬ table.isNamed scope := by
  rw [unlessNamed]
  split <;> simp [*]

section

variable {counts : Table → List Table} {scope : List String} {table : Table}

theorem mem_readsOfOption {expr? : Option Expr} :
    table ∈ readsOfOption scope expr? ↔ ∃ expr ∈ expr?.toList, table ∈ expr.reads scope := by
  cases expr? <;> simp [readsOfOption]

theorem mem_readsOfList {exprs : List Expr} :
    table ∈ readsOfList scope exprs ↔ ∃ expr ∈ exprs, table ∈ expr.reads scope := by
  induction exprs with
  | nil => simp [readsOfList]
  | cons expr rest ih => simp [readsOfList, ih]

theorem mem_readsOfOrderings {orderings : List Ordering} :
    table ∈ readsOfOrderings scope orderings ↔
      ∃ expr ∈ orderings.map Ordering.expr, table ∈ expr.reads scope := by
  induction orderings with
  | nil => simp [readsOfOrderings]
  | cons ordering rest ih =>
      obtain ⟨expr, _, _⟩ := ordering
      simp [readsOfOrderings, Ordering.reads, ih]

theorem Source.mem_reads {source : Source} :
    table ∈ source.reads counts scope ↔
      (∃ expr ∈ source.conditions, table ∈ expr.reads scope) ∨
        ∃ relation ∈ source.relations, table ∈ relation.reads counts scope := by
  obtain ⟨primary, joins⟩ := source
  have listed : table ∈ readsOfJoins counts scope joins ↔
      (∃ expr ∈ joins.filterMap Join.on, table ∈ expr.reads scope) ∨
        ∃ relation ∈ joins.map Join.relation, table ∈ relation.reads counts scope := by
    induction joins with
    | nil => simp [readsOfJoins]
    | cons join rest ih =>
        obtain ⟨_, relation, on?⟩ := join
        cases on? with
        | none => simp [readsOfJoins, Join.reads, readsOfOption, ih, or_left_comm]
        | some on =>
            simp [readsOfJoins, Join.reads, readsOfOption, ih, or_left_comm, or_assoc]
  simp [reads, listed, or_left_comm, relations, conditions]

/-- A SELECT reads what its expressions, its join conditions and its relations read. -/
theorem Select.mem_reads {select : Select} :
    table ∈ select.reads counts scope ↔
      (∃ expr ∈ select.exprs ++ select.conditions, table ∈ expr.reads scope) ∨
        ∃ relation ∈ select.relations, table ∈ relation.reads counts scope := by
  obtain ⟨_, _, sources?, _, _, _, _, _, _⟩ := select
  have listed : table ∈ readsOfFrom counts scope sources? ↔
      (∃ expr ∈ (sources?.getD []).flatMap Source.conditions, table ∈ expr.reads scope) ∨
        ∃ relation ∈ (sources?.getD []).flatMap Source.relations,
          table ∈ relation.reads counts scope := by
    cases sources? with
    | none => simp [readsOfFrom]
    | some sources =>
        rw [readsOfFrom, Option.getD_some]
        induction sources with
        | nil => simp [readsOfSources]
        | cons source rest ih =>
            rw [readsOfSources, List.mem_append, ih, Source.mem_reads, List.flatMap_cons,
              List.flatMap_cons]
            simp only [List.mem_append, or_and_right, exists_or]
            exact or_or_or_comm
  rw [reads, exprs, conditions, relations]
  simp only [List.mem_append, mem_readsOfList, mem_readsOfOption, mem_readsOfOrderings, listed,
    or_and_right, exists_or, or_assoc, or_left_comm, or_comm]

/-- The tables that the queries inside a SELECT read are among those that it reads. -/
theorem Select.mem_reads_of_inside {select : Select}
    (member : table ∈ select.reads (fun _ => []) scope) : table ∈ select.reads counts scope := by
  rw [mem_reads] at member ⊢
  refine member.imp_right ?_
  rintro ⟨relation, inFrom, reads⟩
  refine ⟨relation, inFrom, ?_⟩
  cases relation with
  | table other => cases reads
  | derived query aliasName => exact reads

end

theorem Query.mem_reads_of_inside {query : Query} {table : Table}
    (member : table ∈ query.readsInside) : table ∈ query.reads [] := by
  obtain ⟨ctes, select⟩ := query
  rw [readsInside, List.mem_append] at member
  rw [reads, List.mem_append]
  exact member.imp_right Select.mem_reads_of_inside

/-- A table of FROM is read unless it is a named query. -/
theorem Query.mem_reads_of_from {query : Query} {table : Table}
    (inFrom : .table table ∈ query.select.relations)
    (reads : table ∈ table.unlessNamed (namesBehind [] query.ctes)) : table ∈ query.reads [] := by
  obtain ⟨ctes, select⟩ := query
  rw [Query.reads, List.mem_append]
  exact .inr (Select.mem_reads.2 (.inr ⟨.table table, inFrom, reads⟩))

/-! ## Replacing -/

section

variable (replace : Table → Result Relation)

/-- The relation in the place of a table of FROM, unless it is a named query. -/
def Table.replaceUnlessNamed (scope : List String) (table : Table) : Result Relation :=
  if table.isNamed scope then pure (.table table) else replace table

mutual

/-- Replaces the tables that subqueries of an expression read. -/
def Expr.replaceTables (scope : List String) : Expr → Result Expr
  | .column c => pure (.column c)
  | .literal value => pure (.literal value)
  | .wildcard path => pure (.wildcard path)
  | .binary left op right => do
    let left ← left.replaceTables scope
    let right ← right.replaceTables scope
    pure (.binary left op right)
  | .unary op operand => do pure (.unary op (← operand.replaceTables scope))
  | .call name path args distinct => do
    pure (.call name path (← replaceInList scope args) distinct)
  | .case operand conditions results otherwise => do
    let operand ← replaceInOption scope operand
    let conditions ← replaceInList scope conditions
    let results ← replaceInList scope results
    let otherwise ← replaceInOption scope otherwise
    pure (.case operand conditions results otherwise)
  | .between subject low high negated => do
    let subject ← subject.replaceTables scope
    let low ← low.replaceTables scope
    let high ← high.replaceTables scope
    pure (.between subject low high negated)
  | .isNull subject negated => do pure (.isNull (← subject.replaceTables scope) negated)
  | .inList subject items negated => do
    let subject ← subject.replaceTables scope
    let items ← replaceInList scope items
    pure (.inList subject items negated)
  | .aliased name child => do pure (.aliased name (← child.replaceTables scope))
  | .nested inner => do pure (.nested (← inner.replaceTables scope))
  | .subquery query => do pure (.subquery (← query.replaceTables scope))
termination_by structural expr => expr

/-- Replaces the tables that an optional expression reads. -/
def replaceInOption (scope : List String) : Option Expr → Result (Option Expr)
  | none => pure none
  | some expr => do pure (some (← expr.replaceTables scope))
termination_by structural expr? => expr?

/-- Replaces the tables that expressions read. -/
def replaceInList (scope : List String) : List Expr → Result (List Expr)
  | [] => pure []
  | expr :: rest => do
    let expr ← expr.replaceTables scope
    let rest ← replaceInList scope rest
    pure (expr :: rest)
termination_by structural exprs => exprs

/-- Replaces the tables that a relation reads; `own` tells what takes the place of a table itself. -/
def Relation.replaceTables (own : Table → Result Relation) (scope : List String) :
    Relation → Result Relation
  | .table table => own table
  | .derived query aliasName => do pure (.derived (← query.replaceTables scope) aliasName)
termination_by structural relation => relation

/-- Replaces the tables that a join reads. -/
def Join.replaceTables (own : Table → Result Relation) (scope : List String) : Join → Result Join
  | ⟨kind, relation, on⟩ => do
    let relation ← relation.replaceTables own scope
    let on ← replaceInOption scope on
    pure ⟨kind, relation, on⟩
termination_by structural join => join

/-- Replaces the tables that joins read. -/
def replaceInJoins (own : Table → Result Relation) (scope : List String) :
    List Join → Result (List Join)
  | [] => pure []
  | join :: rest => do
    let join ← join.replaceTables own scope
    let rest ← replaceInJoins own scope rest
    pure (join :: rest)
termination_by structural joins => joins

/-- Replaces the tables that an entry of FROM reads. -/
def Source.replaceTables (own : Table → Result Relation) (scope : List String) :
    Source → Result Source
  | ⟨primary, joins⟩ => do
    let primary ← primary.replaceTables own scope
    let joins ← replaceInJoins own scope joins
    pure ⟨primary, joins⟩
termination_by structural source => source

/-- Replaces the tables that entries of FROM read. -/
def replaceInSources (own : Table → Result Relation) (scope : List String) :
    List Source → Result (List Source)
  | [] => pure []
  | source :: rest => do
    let source ← source.replaceTables own scope
    let rest ← replaceInSources own scope rest
    pure (source :: rest)
termination_by structural sources => sources

/-- Replaces the tables that FROM reads. -/
def replaceInFrom (own : Table → Result Relation) (scope : List String) :
    Option (List Source) → Result (Option (List Source))
  | none => pure none
  | some sources => do pure (some (← replaceInSources own scope sources))
termination_by structural sources? => sources?

/-- Replaces the tables that an entry of ORDER BY reads. -/
def Ordering.replaceTables (scope : List String) : Ordering → Result Ordering
  | ⟨expr, ascending, nullsFirst⟩ => do
    pure ⟨← expr.replaceTables scope, ascending, nullsFirst⟩
termination_by structural ordering => ordering

/-- Replaces the tables that ORDER BY reads. -/
def replaceInOrderings (scope : List String) : List Ordering → Result (List Ordering)
  | [] => pure []
  | ordering :: rest => do
    let ordering ← ordering.replaceTables scope
    let rest ← replaceInOrderings scope rest
    pure (ordering :: rest)
termination_by structural orderings => orderings

/-- Replaces the tables that a SELECT reads; `own` tells what takes the place of the tables of its
FROM. -/
def Select.replaceTables (own : Table → Result Relation) (scope : List String) :
    Select → Result Select
  | ⟨distinct, projection, sources, filter, groupBy, having, orderBy, limit, offset⟩ => do
    let projection ← replaceInList scope projection
    let sources ← replaceInFrom own scope sources
    let filter ← replaceInOption scope filter
    let groupBy ← replaceInList scope groupBy
    let having ← replaceInOption scope having
    let orderBy ← replaceInOrderings scope orderBy
    pure ⟨distinct, projection, sources, filter, groupBy, having, orderBy, limit, offset⟩
termination_by structural select => select

/-- Replaces the tables that a named query reads. -/
def Cte.replaceTables (scope : List String) : Cte → Result Cte
  | ⟨name, query⟩ => do pure ⟨name, ← query.replaceTables scope⟩
termination_by structural cte => cte

/-- Replaces the tables that named queries read, each of them behind the ones before it. -/
def replaceInCtes (scope : List String) : List Cte → Result (List Cte)
  | [] => pure []
  | cte :: rest => do
    let first ← cte.replaceTables scope
    let rest ← replaceInCtes (cte.name.value :: scope) rest
    pure (first :: rest)
termination_by structural ctes => ctes

/-- Replaces the tables that a query reads at any depth, named queries apart. -/
def Query.replaceTables (scope : List String) : Query → Result Query
  | ⟨ctes, select⟩ => do
    let behind := namesBehind scope ctes
    let ctes ← replaceInCtes scope ctes
    let select ← select.replaceTables (Table.replaceUnlessNamed replace behind) behind
    pure ⟨ctes, select⟩
termination_by structural query => query

end

end

/-- Replaces the tables that a query reads at any depth, named queries apart. In its own FROM no named
query is told apart from a table. -/
def Query.replaceEverywhere (replace : Table → Result Relation) (query : Query) : Result Query := do
  let ctes ← replaceInCtes replace [] query.ctes
  let select ← query.select.replaceTables replace replace (namesBehind [] query.ctes)
  pure { ctes, select }

/-! ## Tables that stay -/

/-- Each of some tables is its own replacement. -/
def Stay (replace : Table → Result Relation) (tables : List Table) : Prop :=
  ∀ table ∈ tables, replace table = .ok (.table table)

@[simp] theorem stay_append {replace : Table → Result Relation} {first second : List Table} :
    Stay replace (first ++ second) ↔ Stay replace first ∧ Stay replace second :=
  List.forall_mem_append

/-- A table stays or is a named query. -/
theorem stay_unlessNamed {replace : Table → Result Relation} {scope : List String} {table : Table} :
    Stay replace (table.unlessNamed scope) ↔
      table.replaceUnlessNamed replace scope = .ok (.table table) := by
  rw [Table.unlessNamed, Table.replaceUnlessNamed]
  by_cases named : table.isNamed scope <;> simp [named, Stay, Result.pure_eq_ok]

/-- What the relations of FROM become by themselves: derived tables stay, and a table becomes what
`own` gives for it just if the tables that it counts for stay. -/
structure Settling (replace : Table → Result Relation) where
  own : Table → Result Relation
  counts : Table → List Table
  settle : Relation → Result Relation
  settle_derived : ∀ query aliasName,
    settle (.derived query aliasName) = .ok (.derived query aliasName)
  own_eq_ok : ∀ table relation, settle (.table table) = .ok relation →
    (own table = .ok relation ↔ Stay replace (counts table))

/-- Inside a query FROM stays if its tables do. -/
def Settling.inside (replace : Table → Result Relation) (scope : List String) :
    Settling replace where
  own := Table.replaceUnlessNamed replace scope
  counts := Table.unlessNamed scope
  settle := .ok
  settle_derived query aliasName := rfl
  own_eq_ok table relation done := by
    cases done
    exact stay_unlessNamed.symm

/-- Changing relations changes FROM and nothing else. -/
theorem Select.mapRelationsM_eq_ok {change : Relation → Result Relation} {select after : Select} :
    select.mapRelationsM change = .ok after ↔
      ∃ changed, select.sources.mapM (List.mapM (Source.mapRelationsM change)) = .ok changed ∧
        { select with sources := changed } = after := by
  obtain ⟨_, _, sources, _, _, _, _, _, _⟩ := select
  cases sources with
  | none =>
      rw [mapRelationsM, Result.pure_eq_ok, Option.mapM_none]
      simp [Result.pure_eq_ok]
  | some sources =>
      rw [mapRelationsM, Option.mapM_some, ← bind_pure_comp]
      simp [-bind_pure_comp, Result.bind_eq_ok, Result.pure_eq_ok]

theorem Source.mapRelationsM_ok (source : Source) :
    source.mapRelationsM (.ok : Relation → Result Relation) = .ok source := by
  obtain ⟨primary, joins⟩ := source
  have same : joins.mapM (fun join => (do
      pure { join with relation := ← .ok join.relation } : Result Join)) = .ok joins := by
    refine Result.mapM_eq_ok_iff.2 (List.forall₂_same.2 ?_)
    rintro ⟨kind, relation, on⟩ _
    rfl
  exact Result.bind_eq_ok.2 ⟨primary, rfl, Result.bind_eq_ok.2 ⟨joins, same, rfl⟩⟩

theorem Select.mapRelationsM_ok (select : Select) :
    select.mapRelationsM (.ok : Relation → Result Relation) = .ok select := by
  obtain ⟨_, _, sources, _, _, _, _, _, _⟩ := select
  cases sources with
  | none => rfl
  | some sources =>
      have same : sources.mapM (Source.mapRelationsM (.ok : Relation → Result Relation)) =
          .ok sources :=
        Result.mapM_eq_ok_iff.2 (List.forall₂_same.2 fun source _ => source.mapRelationsM_ok)
      exact Result.bind_eq_ok.2 ⟨sources, same, rfl⟩

section

variable {replace : Table → Result Relation}

mutual

/-- An expression stays just if the tables do that its subqueries read. -/
theorem Expr.replaceTables_eq_self_iff : ∀ (scope : List String) (expr : Expr),
    expr.replaceTables replace scope = .ok expr ↔ Stay replace (expr.reads scope)
  | scope, .column _ | scope, .literal _ | scope, .wildcard _ => by
      simp [-bind_pure_comp, Expr.replaceTables, Expr.reads, Stay, Result.pure_eq_ok]
  | scope, .binary left _ right => by
      simp [-bind_pure_comp, Expr.replaceTables, Expr.reads, Result.bind_eq_ok, Result.pure_eq_ok,
        Expr.replaceTables_eq_self_iff scope left, Expr.replaceTables_eq_self_iff scope right]
  | scope, .unary _ operand => by
      simp [-bind_pure_comp, Expr.replaceTables, Expr.reads, Result.bind_eq_ok, Result.pure_eq_ok,
        Expr.replaceTables_eq_self_iff scope operand]
  | scope, .call _ _ args _ => by
      simp [-bind_pure_comp, Expr.replaceTables, Expr.reads, Result.bind_eq_ok, Result.pure_eq_ok,
        replaceInList_eq_self_iff scope args]
  | scope, .case operand conditions results otherwise => by
      simp [-bind_pure_comp, Expr.replaceTables, Expr.reads, Result.bind_eq_ok, Result.pure_eq_ok,
        replaceInOption_eq_self_iff scope operand, replaceInList_eq_self_iff scope conditions,
        replaceInList_eq_self_iff scope results, replaceInOption_eq_self_iff scope otherwise]
  | scope, .between subject low high _ => by
      simp [-bind_pure_comp, Expr.replaceTables, Expr.reads, Result.bind_eq_ok, Result.pure_eq_ok,
        Expr.replaceTables_eq_self_iff scope subject, Expr.replaceTables_eq_self_iff scope low,
        Expr.replaceTables_eq_self_iff scope high]
  | scope, .isNull subject _ => by
      simp [-bind_pure_comp, Expr.replaceTables, Expr.reads, Result.bind_eq_ok, Result.pure_eq_ok,
        Expr.replaceTables_eq_self_iff scope subject]
  | scope, .inList subject items _ => by
      simp [-bind_pure_comp, Expr.replaceTables, Expr.reads, Result.bind_eq_ok, Result.pure_eq_ok,
        Expr.replaceTables_eq_self_iff scope subject, replaceInList_eq_self_iff scope items]
  | scope, .aliased _ child => by
      simp [-bind_pure_comp, Expr.replaceTables, Expr.reads, Result.bind_eq_ok, Result.pure_eq_ok,
        Expr.replaceTables_eq_self_iff scope child]
  | scope, .nested inner => by
      simp [-bind_pure_comp, Expr.replaceTables, Expr.reads, Result.bind_eq_ok, Result.pure_eq_ok,
        Expr.replaceTables_eq_self_iff scope inner]
  | scope, .subquery query => by
      simp [-bind_pure_comp, Expr.replaceTables, Expr.reads, Result.bind_eq_ok, Result.pure_eq_ok,
        Query.replaceTables_eq_self_iff scope query]
termination_by structural _ expr => expr

theorem replaceInOption_eq_self_iff : ∀ (scope : List String) (expr? : Option Expr),
    replaceInOption replace scope expr? = .ok expr? ↔ Stay replace (readsOfOption scope expr?)
  | scope, none => by simp [replaceInOption, readsOfOption, Stay, Result.pure_eq_ok]
  | scope, some expr => by
      simp [-bind_pure_comp, replaceInOption, readsOfOption, Result.bind_eq_ok, Result.pure_eq_ok,
        Expr.replaceTables_eq_self_iff scope expr]
termination_by structural _ expr? => expr?

theorem replaceInList_eq_self_iff : ∀ (scope : List String) (exprs : List Expr),
    replaceInList replace scope exprs = .ok exprs ↔ Stay replace (readsOfList scope exprs)
  | scope, [] => by simp [replaceInList, readsOfList, Stay, Result.pure_eq_ok]
  | scope, expr :: rest => by
      simp [-bind_pure_comp, replaceInList, readsOfList, Result.bind_eq_ok, Result.pure_eq_ok,
        Expr.replaceTables_eq_self_iff scope expr, replaceInList_eq_self_iff scope rest]
termination_by structural _ exprs => exprs

theorem Relation.replaceTables_eq_settled_iff :
    ∀ (settling : Settling replace) (scope : List String) (relation : Relation)
      {after : Relation}, settling.settle relation = .ok after →
        (relation.replaceTables replace settling.own scope = .ok after ↔
          Stay replace (relation.reads settling.counts scope))
  | settling, scope, .table table, after, done => by
      rw [Relation.replaceTables, Relation.reads, settling.own_eq_ok table after done]
  | settling, scope, .derived query aliasName, after, done => by
      cases (settling.settle_derived query aliasName).symm.trans done
      simp [-bind_pure_comp, Relation.replaceTables, Relation.reads, Result.bind_eq_ok,
        Result.pure_eq_ok, Query.replaceTables_eq_self_iff scope query]
termination_by structural _ _ relation => relation

theorem Join.replaceTables_eq_settled_iff :
    ∀ (settling : Settling replace) (scope : List String) (join : Join) {after : Relation},
      settling.settle join.relation = .ok after →
      (join.replaceTables replace settling.own scope = .ok { join with relation := after } ↔
        Stay replace (join.reads settling.counts scope))
  | settling, scope, ⟨kind, relation, on⟩, after, done => by
      simp [-bind_pure_comp, Join.replaceTables, Join.reads, Result.bind_eq_ok, Result.pure_eq_ok,
        Relation.replaceTables_eq_settled_iff settling scope relation done,
        replaceInOption_eq_self_iff scope on]
termination_by structural _ _ join => join

theorem replaceInJoins_eq_settled_iff :
    ∀ (settling : Settling replace) (scope : List String) (joins : List Join) {after : List Join},
      List.Forall₂ (fun join changed => (do
        pure { join with relation := ← settling.settle join.relation }) = .ok changed) joins after →
      (replaceInJoins replace settling.own scope joins = .ok after ↔
        Stay replace (readsOfJoins settling.counts scope joins))
  | settling, scope, [], after, each => by
      cases each
      simp [-bind_pure_comp, replaceInJoins, readsOfJoins, Stay, Result.pure_eq_ok]
  | settling, scope, join :: rest, after, each => by
      cases each with
      | cons here later =>
          obtain ⟨relation, settled, last⟩ := Result.bind_eq_ok.1 here
          cases Result.pure_eq_ok.1 last
          simp [-bind_pure_comp, replaceInJoins, readsOfJoins, Result.bind_eq_ok, Result.pure_eq_ok,
            Join.replaceTables_eq_settled_iff settling scope join settled,
            replaceInJoins_eq_settled_iff settling scope rest later]
termination_by structural _ _ joins => joins

theorem Source.replaceTables_eq_settled_iff :
    ∀ (settling : Settling replace) (scope : List String) (source : Source) {after : Source},
      source.mapRelationsM settling.settle = .ok after →
        (source.replaceTables replace settling.own scope = .ok after ↔
          Stay replace (source.reads settling.counts scope))
  | settling, scope, ⟨primary, joins⟩, after, done => by
      obtain ⟨first, settled, rest⟩ := Result.bind_eq_ok.1 done
      obtain ⟨changed, each, last⟩ := Result.bind_eq_ok.1 rest
      cases Result.pure_eq_ok.1 last
      simp [-bind_pure_comp, Source.replaceTables, Source.reads, Result.bind_eq_ok,
        Result.pure_eq_ok, Relation.replaceTables_eq_settled_iff settling scope primary settled,
        replaceInJoins_eq_settled_iff settling scope joins (Result.mapM_eq_ok_iff.1 each)]
termination_by structural _ _ source => source

theorem replaceInSources_eq_settled_iff :
    ∀ (settling : Settling replace) (scope : List String) (sources : List Source)
      {after : List Source},
      List.Forall₂ (fun source changed => source.mapRelationsM settling.settle = .ok changed)
        sources after →
      (replaceInSources replace settling.own scope sources = .ok after ↔
        Stay replace (readsOfSources settling.counts scope sources))
  | settling, scope, [], after, each => by
      cases each
      simp [-bind_pure_comp, replaceInSources, readsOfSources, Stay, Result.pure_eq_ok]
  | settling, scope, source :: rest, after, each => by
      cases each with
      | cons here later =>
          simp [-bind_pure_comp, replaceInSources, readsOfSources, Result.bind_eq_ok,
            Result.pure_eq_ok, Source.replaceTables_eq_settled_iff settling scope source here,
            replaceInSources_eq_settled_iff settling scope rest later]
termination_by structural _ _ sources => sources

theorem replaceInFrom_eq_settled_iff :
    ∀ (settling : Settling replace) (scope : List String) (sources? : Option (List Source))
      {after : Option (List Source)},
      sources?.mapM (List.mapM (Source.mapRelationsM settling.settle)) = .ok after →
      (replaceInFrom replace settling.own scope sources? = .ok after ↔
        Stay replace (readsOfFrom settling.counts scope sources?))
  | settling, scope, none, after, done => by
      cases Result.pure_eq_ok.1 done
      simp [-bind_pure_comp, replaceInFrom, readsOfFrom, Stay, Result.pure_eq_ok]
  | settling, scope, some sources, after, done => by
      obtain ⟨changed, each, last⟩ := Result.bind_eq_ok.1 done
      cases Result.pure_eq_ok.1 last
      simp [-bind_pure_comp, replaceInFrom, readsOfFrom, Result.bind_eq_ok, Result.pure_eq_ok,
        replaceInSources_eq_settled_iff settling scope sources (Result.mapM_eq_ok_iff.1 each)]
termination_by structural _ _ sources? => sources?

theorem Ordering.replaceTables_eq_self_iff : ∀ (scope : List String) (ordering : Ordering),
    ordering.replaceTables replace scope = .ok ordering ↔ Stay replace (ordering.reads scope)
  | scope, ⟨expr, _, _⟩ => by
      simp [-bind_pure_comp, Ordering.replaceTables, Ordering.reads, Result.bind_eq_ok,
        Result.pure_eq_ok, Expr.replaceTables_eq_self_iff scope expr]
termination_by structural _ ordering => ordering

theorem replaceInOrderings_eq_self_iff : ∀ (scope : List String) (orderings : List Ordering),
    replaceInOrderings replace scope orderings = .ok orderings ↔
      Stay replace (readsOfOrderings scope orderings)
  | scope, [] => by simp [replaceInOrderings, readsOfOrderings, Stay, Result.pure_eq_ok]
  | scope, ordering :: rest => by
      simp [-bind_pure_comp, replaceInOrderings, readsOfOrderings, Result.bind_eq_ok,
        Result.pure_eq_ok, Ordering.replaceTables_eq_self_iff scope ordering,
        replaceInOrderings_eq_self_iff scope rest]
termination_by structural _ orderings => orderings

/-- A SELECT whose FROM is settled is the replaced one just if the tables stay that it reads
elsewhere. -/
theorem Select.replaceTables_eq_settled_iff :
    ∀ (settling : Settling replace) (scope : List String) (select : Select) {after : Select},
      select.mapRelationsM settling.settle = .ok after →
        (select.replaceTables replace settling.own scope = .ok after ↔
          Stay replace (select.reads settling.counts scope))
  | settling, scope, ⟨_, projection, sources, filter, groupBy, having, orderBy, _, _⟩, after,
      done => by
      obtain ⟨changed, settled, rfl⟩ := Select.mapRelationsM_eq_ok.1 done
      simp [-bind_pure_comp, Select.replaceTables, Select.reads, Result.bind_eq_ok,
        Result.pure_eq_ok, replaceInList_eq_self_iff scope projection,
        replaceInFrom_eq_settled_iff settling scope sources settled,
        replaceInOption_eq_self_iff scope filter, replaceInList_eq_self_iff scope groupBy,
        replaceInOption_eq_self_iff scope having, replaceInOrderings_eq_self_iff scope orderBy]
termination_by structural _ _ select => select

theorem Cte.replaceTables_eq_self_iff : ∀ (scope : List String) (cte : Cte),
    cte.replaceTables replace scope = .ok cte ↔ Stay replace (cte.reads scope)
  | scope, ⟨_, query⟩ => by
      simp [-bind_pure_comp, Cte.replaceTables, Cte.reads, Result.bind_eq_ok, Result.pure_eq_ok,
        Query.replaceTables_eq_self_iff scope query]
termination_by structural _ cte => cte

theorem replaceInCtes_eq_self_iff : ∀ (scope : List String) (ctes : List Cte),
    replaceInCtes replace scope ctes = .ok ctes ↔ Stay replace (readsOfCtes scope ctes)
  | scope, [] => by simp [replaceInCtes, readsOfCtes, Stay, Result.pure_eq_ok]
  | scope, cte :: rest => by
      simp [-bind_pure_comp, replaceInCtes, readsOfCtes, Result.bind_eq_ok, Result.pure_eq_ok,
        Cte.replaceTables_eq_self_iff scope cte, replaceInCtes_eq_self_iff (cte.name.value :: scope) rest]
termination_by structural _ ctes => ctes

/-- A query stays just if every table does that it reads. -/
theorem Query.replaceTables_eq_self_iff : ∀ (scope : List String) (query : Query),
    query.replaceTables replace scope = .ok query ↔ Stay replace (query.reads scope)
  | scope, ⟨ctes, select⟩ => by
      have behind : select.replaceTables replace (Table.replaceUnlessNamed replace
            (namesBehind scope ctes)) (namesBehind scope ctes) = .ok select ↔
          Stay replace (select.reads (Table.unlessNamed (namesBehind scope ctes))
            (namesBehind scope ctes)) := Select.replaceTables_eq_settled_iff
        (.inside replace (namesBehind scope ctes)) (namesBehind scope ctes) select
        select.mapRelationsM_ok
      simp [-bind_pure_comp, Query.replaceTables, Query.reads, Result.bind_eq_ok, Result.pure_eq_ok,
        replaceInCtes_eq_self_iff scope ctes, behind]
termination_by structural _ query => query

end

/-- A query whose FROM is settled is the replaced one just if the tables stay that the queries inside
it read. -/
theorem Query.replaceEverywhere_eq_settled_iff {settle : Relation → Result Relation} {query : Query}
    {select : Select} (done : query.select.mapRelationsM settle = .ok select)
    (derived : ∀ query aliasName, settle (.derived query aliasName) = .ok (.derived query aliasName))
    (table : ∀ table, settle (.table table) = replace table) :
    query.replaceEverywhere replace = .ok { query with select } ↔
      Stay replace query.readsInside := by
  let settling : Settling replace :=
    { own := replace, counts := fun _ => [], settle, settle_derived := derived
      own_eq_ok := fun given relation done => by simpa [Stay] using table given ▸ done }
  have outermost : query.select.replaceTables replace replace (namesBehind [] query.ctes) =
        .ok select ↔
      Stay replace (query.select.reads (fun _ => []) (namesBehind [] query.ctes)) :=
    Select.replaceTables_eq_settled_iff settling (namesBehind [] query.ctes) query.select done
  simp [-bind_pure_comp, Query.replaceEverywhere, Query.readsInside, Result.bind_eq_ok,
    Result.pure_eq_ok, replaceInCtes_eq_self_iff [] query.ctes, outermost]

end

/-! ## Changed columns -/

section

variable (scope : List String)

mutual

/-- What an expression reads is read by its subqueries. -/
theorem Expr.reads_eq : (expr : Expr) →
    expr.reads scope = expr.subqueries.flatMap fun query => query.reads scope
  | .column _ | .literal _ | .wildcard _ => rfl
  | .binary left _ right => by
      rw [Expr.reads, Expr.subqueries, List.flatMap_append, Expr.reads_eq left,
        Expr.reads_eq right]
  | .unary _ inner | .isNull inner _ | .aliased _ inner | .nested inner => by
      rw [Expr.reads, Expr.subqueries, Expr.reads_eq inner]
  | .call _ _ args _ => by
      rw [Expr.reads, Expr.subqueries, readsOfList_eq args]
  | .case operand conditions results otherwise => by
      rw [Expr.reads, Expr.subqueries, List.flatMap_append, List.flatMap_append,
        List.flatMap_append, readsOfOption_eq operand, readsOfList_eq conditions,
        readsOfList_eq results, readsOfOption_eq otherwise]
  | .between subject low high _ => by
      rw [Expr.reads, Expr.subqueries, List.flatMap_append, List.flatMap_append,
        Expr.reads_eq subject, Expr.reads_eq low, Expr.reads_eq high]
  | .inList subject items _ => by
      rw [Expr.reads, Expr.subqueries, List.flatMap_append, Expr.reads_eq subject,
        readsOfList_eq items]
  | .subquery query => by
      rw [Expr.reads, Expr.subqueries, List.flatMap_singleton]

theorem readsOfOption_eq : (expr? : Option Expr) →
    readsOfOption scope expr? = (subqueriesOfOption expr?).flatMap fun query => query.reads scope
  | none => rfl
  | some expr => by
      rw [readsOfOption, subqueriesOfOption, Expr.reads_eq expr]

theorem readsOfList_eq : (exprs : List Expr) →
    readsOfList scope exprs = (subqueriesOfList exprs).flatMap fun query => query.reads scope
  | [] => rfl
  | expr :: rest => by
      rw [readsOfList, subqueriesOfList, List.flatMap_append, Expr.reads_eq expr,
        readsOfList_eq rest]

end

/-- Changed columns leave the tables alone that subqueries read. -/
theorem Expr.reads_of_mapColumnsM {change : Column → Result Column} {expr after : Expr}
    (done : Expr.mapColumnsM change expr = .ok after) : after.reads scope = expr.reads scope := by
  rw [Expr.reads_eq, Expr.reads_eq, Expr.subqueries_of_mapColumnsM done]

end

section

variable {change : Expr → Result Expr} {scope : List String}

theorem readsOfList_of_mapM
    (kept : ∀ expr after, change expr = .ok after → after.reads scope = expr.reads scope)
    {exprs others : List Expr} (done : exprs.mapM change = .ok others) :
    readsOfList scope others = readsOfList scope exprs := by
  have each := Result.mapM_eq_ok_iff.1 done
  clear done
  induction each with
  | nil => rfl
  | cons here _ ih => rw [readsOfList, readsOfList, kept _ _ here, ih]

theorem readsOfOption_of_mapM
    (kept : ∀ expr after, change expr = .ok after → after.reads scope = expr.reads scope)
    {expr? other? : Option Expr} (done : expr?.mapM change = .ok other?) :
    readsOfOption scope other? = readsOfOption scope expr? := by
  cases expr? with
  | none =>
      cases Result.pure_eq_ok.1 done
      rfl
  | some expr =>
      rw [Option.mapM_some, ← bind_pure_comp] at done
      obtain ⟨other, changed, last⟩ := Result.bind_eq_ok.1 done
      cases Result.pure_eq_ok.1 last
      rw [readsOfOption, readsOfOption, kept _ _ changed]

theorem readsOfOrderings_of_mapM
    (kept : ∀ expr after, change expr = .ok after → after.reads scope = expr.reads scope)
    {orderings others : List Ordering}
    (done : orderings.mapM (fun ordering => do
      pure { ordering with expr := ← change ordering.expr }) = .ok others) :
    readsOfOrderings scope others = readsOfOrderings scope orderings := by
  have each := Result.mapM_eq_ok_iff.1 done
  clear done
  induction each with
  | nil => rfl
  | @cons ordering _ _ _ here _ ih =>
      obtain ⟨expr, ascending, nullsFirst⟩ := ordering
      obtain ⟨_, changed, last⟩ := Result.bind_eq_ok.1 here
      cases Result.pure_eq_ok.1 last
      rw [readsOfOrderings, readsOfOrderings, ih, Ordering.reads, Ordering.reads,
        kept _ _ changed]

theorem Source.reads_of_mapConditionsM {counts : Table → List Table}
    (kept : ∀ expr after, change expr = .ok after → after.reads scope = expr.reads scope)
    {source after : Source} (done : source.mapConditionsM change = .ok after) :
    after.reads counts scope = source.reads counts scope := by
  obtain ⟨primary, joins⟩ := source
  obtain ⟨changed, each, last⟩ := Result.bind_eq_ok.1 done
  cases Result.pure_eq_ok.1 last
  have same : readsOfJoins counts scope changed = readsOfJoins counts scope joins := by
    have listed : List.Forall₂ _ joins changed := Result.mapM_eq_ok_iff.1 each
    clear done each last
    induction listed with
    | nil => rfl
    | @cons join _ _ _ here _ ih =>
        obtain ⟨kind, relation, on?⟩ := join
        rw [readsOfJoins, readsOfJoins, ih]
        cases on? with
        | none =>
            cases Result.pure_eq_ok.1 here
            rfl
        | some on =>
            obtain ⟨_, first, last⟩ := Result.bind_eq_ok.1 here
            cases Result.pure_eq_ok.1 last
            rw [Join.reads, Join.reads, readsOfOption, readsOfOption, kept _ _ first]
  rw [reads, reads, same]

/-- Changed expressions that read the same tables leave what a SELECT reads alone. -/
theorem Select.reads_of_mapExprsM {counts : Table → List Table}
    (kept : ∀ expr after, change expr = .ok after → after.reads scope = expr.reads scope)
    {select after : Select} (done : select.mapExprsM change = .ok after) :
    after.reads counts scope = select.reads counts scope := by
  obtain ⟨_, _, sources, _, _, _, _, _, _⟩ := select
  obtain ⟨projection, first, rest⟩ := Result.bind_eq_ok.1 done
  obtain ⟨filter, second, rest⟩ := Result.bind_eq_ok.1 rest
  obtain ⟨groupBy, third, rest⟩ := Result.bind_eq_ok.1 rest
  obtain ⟨having, fourth, rest⟩ := Result.bind_eq_ok.1 rest
  obtain ⟨orderBy, fifth, last⟩ := Result.bind_eq_ok.1 rest
  cases Result.pure_eq_ok.1 last
  rw [reads, reads, readsOfList_of_mapM kept first, readsOfOption_of_mapM kept second,
    readsOfList_of_mapM kept third, readsOfOption_of_mapM kept fourth,
    readsOfOrderings_of_mapM kept fifth]

theorem Select.reads_of_mapConditionsM {counts : Table → List Table}
    (kept : ∀ expr after, change expr = .ok after → after.reads scope = expr.reads scope)
    {select after : Select} (done : select.mapConditionsM change = .ok after) :
    after.reads counts scope = select.reads counts scope := by
  obtain ⟨_, _, sources?, _, _, _, _, _, _⟩ := select
  cases sources? with
  | none =>
      cases Result.pure_eq_ok.1 done
      rfl
  | some sources =>
      obtain ⟨changed, each, last⟩ := Result.bind_eq_ok.1 done
      cases Result.pure_eq_ok.1 last
      have same : readsOfSources counts scope changed = readsOfSources counts scope sources := by
        have listed := Result.mapM_eq_ok_iff.1 each
        clear done each last
        induction listed with
        | nil => rfl
        | cons here _ ih =>
            rw [readsOfSources, readsOfSources, Source.reads_of_mapConditionsM kept here, ih]
      rw [reads, reads, readsOfFrom, readsOfFrom, same]

end

/-! ## More names in scope -/

section

variable {scope larger : List String}

theorem Table.unlessNamed_sublist (more : scope ⊆ larger) (table : Table) :
    (table.unlessNamed larger).Sublist (table.unlessNamed scope) := by
  rw [unlessNamed, unlessNamed]
  by_cases named : table.isNamed larger
  · rw [if_pos named]
    exact List.nil_sublist _
  · have other : ¬ table.isNamed scope := by
      simp only [isNamed, Bool.and_eq_true, List.contains_iff_mem, not_and] at named ⊢
      exact fun bare inScope => named bare (more inScope)
    rw [if_neg named, if_neg other]

theorem namesBehind_subset (more : scope ⊆ larger) (ctes : List Cte) :
    namesBehind scope ctes ⊆ namesBehind larger ctes :=
  fun _ member => List.mem_append.2 ((List.mem_append.1 member).imp_right (more ·))

mutual

/-- Where more names are those of named queries fewer tables are read. -/
theorem Expr.reads_sublist : ∀ {scope larger : List String} (_ : scope ⊆ larger) (expr : Expr),
    (expr.reads larger).Sublist (expr.reads scope)
  | _, _, _, .column _ | _, _, _, .literal _ | _, _, _, .wildcard _ => .slnil
  | _, _, more, .binary left _ right =>
    (Expr.reads_sublist more left).append (Expr.reads_sublist more right)
  | _, _, more, .unary _ operand => Expr.reads_sublist more operand
  | _, _, more, .call _ _ args _ => readsOfList_sublist more args
  | _, _, more, .case operand conditions results otherwise =>
    (((readsOfOption_sublist more operand).append (readsOfList_sublist more conditions)).append
      (readsOfList_sublist more results)).append (readsOfOption_sublist more otherwise)
  | _, _, more, .between subject low high _ =>
    ((Expr.reads_sublist more subject).append (Expr.reads_sublist more low)).append
      (Expr.reads_sublist more high)
  | _, _, more, .isNull subject _ => Expr.reads_sublist more subject
  | _, _, more, .inList subject items _ =>
    (Expr.reads_sublist more subject).append (readsOfList_sublist more items)
  | _, _, more, .aliased _ child => Expr.reads_sublist more child
  | _, _, more, .nested inner => Expr.reads_sublist more inner
  | _, _, more, .subquery query => Query.reads_sublist more query
termination_by structural _ _ _ expr => expr

theorem readsOfOption_sublist : ∀ {scope larger : List String} (_ : scope ⊆ larger)
    (expr? : Option Expr), (readsOfOption larger expr?).Sublist (readsOfOption scope expr?)
  | _, _, _, none => .slnil
  | _, _, more, some expr => Expr.reads_sublist more expr
termination_by structural _ _ _ expr? => expr?

theorem readsOfList_sublist : ∀ {scope larger : List String} (_ : scope ⊆ larger)
    (exprs : List Expr), (readsOfList larger exprs).Sublist (readsOfList scope exprs)
  | _, _, _, [] => .slnil
  | _, _, more, expr :: rest =>
    (Expr.reads_sublist more expr).append (readsOfList_sublist more rest)
termination_by structural _ _ _ exprs => exprs

theorem Relation.reads_sublist : ∀ {scope larger : List String} (_ : scope ⊆ larger)
    {counts fewer : Table → List Table} (_ : ∀ table, (fewer table).Sublist (counts table))
    (relation : Relation), (relation.reads fewer larger).Sublist (relation.reads counts scope)
  | _, _, _, _, _, less, .table table => less table
  | _, _, more, _, _, _, .derived query _ => Query.reads_sublist more query
termination_by structural _ _ _ _ _ _ relation => relation

theorem Join.reads_sublist : ∀ {scope larger : List String} (_ : scope ⊆ larger)
    {counts fewer : Table → List Table} (_ : ∀ table, (fewer table).Sublist (counts table))
    (join : Join), (join.reads fewer larger).Sublist (join.reads counts scope)
  | _, _, more, _, _, less, ⟨_, relation, on⟩ =>
    (Relation.reads_sublist more less relation).append (readsOfOption_sublist more on)
termination_by structural _ _ _ _ _ _ join => join

theorem readsOfJoins_sublist : ∀ {scope larger : List String} (_ : scope ⊆ larger)
    {counts fewer : Table → List Table} (_ : ∀ table, (fewer table).Sublist (counts table))
    (joins : List Join),
      (readsOfJoins fewer larger joins).Sublist (readsOfJoins counts scope joins)
  | _, _, _, _, _, _, [] => .slnil
  | _, _, more, _, _, less, join :: rest =>
    (Join.reads_sublist more less join).append (readsOfJoins_sublist more less rest)
termination_by structural _ _ _ _ _ _ joins => joins

theorem Source.reads_sublist : ∀ {scope larger : List String} (_ : scope ⊆ larger)
    {counts fewer : Table → List Table} (_ : ∀ table, (fewer table).Sublist (counts table))
    (source : Source), (source.reads fewer larger).Sublist (source.reads counts scope)
  | _, _, more, _, _, less, ⟨primary, joins⟩ =>
    (Relation.reads_sublist more less primary).append (readsOfJoins_sublist more less joins)
termination_by structural _ _ _ _ _ _ source => source

theorem readsOfSources_sublist : ∀ {scope larger : List String} (_ : scope ⊆ larger)
    {counts fewer : Table → List Table} (_ : ∀ table, (fewer table).Sublist (counts table))
    (sources : List Source),
      (readsOfSources fewer larger sources).Sublist (readsOfSources counts scope sources)
  | _, _, _, _, _, _, [] => .slnil
  | _, _, more, _, _, less, source :: rest =>
    (Source.reads_sublist more less source).append (readsOfSources_sublist more less rest)
termination_by structural _ _ _ _ _ _ sources => sources

theorem readsOfFrom_sublist : ∀ {scope larger : List String} (_ : scope ⊆ larger)
    {counts fewer : Table → List Table} (_ : ∀ table, (fewer table).Sublist (counts table))
    (sources? : Option (List Source)),
      (readsOfFrom fewer larger sources?).Sublist (readsOfFrom counts scope sources?)
  | _, _, _, _, _, _, none => .slnil
  | _, _, more, _, _, less, some sources => readsOfSources_sublist more less sources
termination_by structural _ _ _ _ _ _ sources? => sources?

theorem Ordering.reads_sublist : ∀ {scope larger : List String} (_ : scope ⊆ larger)
    (ordering : Ordering), (ordering.reads larger).Sublist (ordering.reads scope)
  | _, _, more, ⟨expr, _, _⟩ => Expr.reads_sublist more expr
termination_by structural _ _ _ ordering => ordering

theorem readsOfOrderings_sublist : ∀ {scope larger : List String} (_ : scope ⊆ larger)
    (orderings : List Ordering),
      (readsOfOrderings larger orderings).Sublist (readsOfOrderings scope orderings)
  | _, _, _, [] => .slnil
  | _, _, more, ordering :: rest =>
    (Ordering.reads_sublist more ordering).append (readsOfOrderings_sublist more rest)
termination_by structural _ _ _ orderings => orderings

theorem Select.reads_sublist : ∀ {scope larger : List String} (_ : scope ⊆ larger)
    {counts fewer : Table → List Table} (_ : ∀ table, (fewer table).Sublist (counts table))
    (select : Select), (select.reads fewer larger).Sublist (select.reads counts scope)
  | _, _, more, _, _, less, ⟨_, projection, sources, filter, groupBy, having, orderBy, _, _⟩ =>
    (((((readsOfList_sublist more projection).append
      (readsOfFrom_sublist more less sources)).append
      (readsOfOption_sublist more filter)).append (readsOfList_sublist more groupBy)).append
      (readsOfOption_sublist more having)).append (readsOfOrderings_sublist more orderBy)
termination_by structural _ _ _ _ _ _ select => select

theorem Cte.reads_sublist : ∀ {scope larger : List String} (_ : scope ⊆ larger) (cte : Cte),
    (cte.reads larger).Sublist (cte.reads scope)
  | _, _, more, ⟨_, query⟩ => Query.reads_sublist more query
termination_by structural _ _ _ cte => cte

theorem readsOfCtes_sublist : ∀ {scope larger : List String} (_ : scope ⊆ larger)
    (ctes : List Cte), (readsOfCtes larger ctes).Sublist (readsOfCtes scope ctes)
  | _, _, _, [] => .slnil
  | _, _, more, cte :: rest =>
    (Cte.reads_sublist more cte).append
      (readsOfCtes_sublist (List.cons_subset_cons cte.name.value more) rest)
termination_by structural _ _ _ ctes => ctes

/-- Where more names are those of named queries fewer tables are read. -/
theorem Query.reads_sublist : ∀ {scope larger : List String} (_ : scope ⊆ larger)
    (query : Query), (query.reads larger).Sublist (query.reads scope)
  | _, _, more, ⟨ctes, select⟩ =>
    (readsOfCtes_sublist more ctes).append (Select.reads_sublist (namesBehind_subset more ctes)
      (Table.unlessNamed_sublist (namesBehind_subset more ctes)) select)
termination_by structural _ _ _ query => query

end

end

end SemanticLayer.Sql
