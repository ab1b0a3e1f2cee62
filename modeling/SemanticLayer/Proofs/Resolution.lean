import SemanticLayer.Proofs.Charges
import SemanticLayer.Proofs.Noting
import SemanticLayer.Proofs.Plans

/-!
# Columns of SQL over metrics

Once metrics stand for what they compute, each column of the SELECT is resolved: a column of a table
and an alias of the projection stay, any other one gets the relation of its node, or the call fails
as it does. Which of the three it is depends on the column alone, not on what was met before.
-/

namespace SemanticLayer.Planner

open SemanticLayer.Sql
open Result (Notes FailsWith)
open Catalog (Node References)

variable {catalog : Catalog} {scope : Scope} {column after : Column}

/-! ## One column -/

/-- Whether a column is a bare name that is taken for an alias of the projection. -/
def Scope.IsAlias (scope : Scope) (column : Column) : Prop :=
  column.table = none ∧ column.path = none ∧ column.name.value ∈ scope.aliases

instance (scope : Scope) (column : Column) : Decidable (scope.IsAlias column) :=
  inferInstanceAs (Decidable (_ ∧ _ ∧ _))

/-- Whether a column is a bare name that is no alias of the projection and names no node. -/
def Scope.IsUnknown (scope : Scope) (column : Column) : Prop :=
  column.table = none ∧ column.path = none ∧ column.name.value ∉ scope.aliases ∧
    Text.splitLastDot? column.name.value = none

instance (scope : Scope) (column : Column) : Decidable (scope.IsUnknown column) :=
  inferInstanceAs (Decidable (_ ∧ _ ∧ _ ∧ _))

/-- A column with its owner, whatever was met before. -/
def ownedColumn (catalog : Catalog) (scope : Scope) (column : Column) : Result Column :=
  if column.table.isSome ∨ scope.IsAlias column then .ok column
  else
    match nodeAndColumn? column with
    | none => .error (.invalidIdentifier column.name.value)
    | some (node, name) => do
      let (owner, _) ← owner catalog scope node name
      pure
        { name := if column.path.isNone then { value := name } else column.name
          table := some { name := owner } }

/-- What was met before, and a column. -/
def Found.note (catalog : Catalog) (scope : Scope) (found : Found) (column : Column) : Found :=
  if column.table.isSome ∨ scope.IsAlias column then found
  else
    match nodeAndColumn? column with
    | none => found
    | some (node, name) =>
      match owner catalog scope node name with
      | .error _ => found
      | .ok (_, isJoined) =>
        { references := found.references.add node name
          joined :=
            if isJoined && !found.joined.contains node then found.joined ++ [node]
            else found.joined }

theorem notes_resolveColumn (catalog : Catalog) (scope : Scope) (column : Column) :
    Notes (Found.note catalog scope) [column] (resolveColumn catalog scope column)
      (ownedColumn catalog scope column) := by
  intro found
  rw [resolveColumn, ownedColumn, List.foldl_cons, List.foldl_nil, Found.note]
  have stays : (column.table.isSome ||
      (column.path.isNone && scope.aliases.contains column.name.value)) = true ↔
        column.table.isSome ∨ scope.IsAlias column := by
    cases table : column.table with
    | none => simp [Scope.IsAlias, table]
    | some => simp
  simp only [stays]
  split
  next => rfl
  next =>
    cases nodeAndColumn? column with
    | none => rfl
    | some named =>
        obtain ⟨node, name⟩ := named
        dsimp only
        cases owner catalog scope node name with
        | error failure => rfl
        | ok owned => rfl

/-- An unknown name is refused. -/
theorem ownedColumn_of_unknown (unknown : scope.IsUnknown column) :
    ownedColumn catalog scope column = .error (.invalidIdentifier column.name.value) := by
  obtain ⟨table, path, absent, undotted⟩ := unknown
  have moves : ¬ (column.table.isSome ∨ scope.IsAlias column) := by
    simp [Scope.IsAlias, table, absent]
  have none : nodeAndColumn? column = none := by rw [nodeAndColumn?, path, undotted]
  rw [ownedColumn, if_neg moves, none]

/-- What becomes of a column that is not refused. -/
inductive Resolved (catalog : Catalog) (scope : Scope) (column : Column) : Column → Prop
  | table (owned : column.table.isSome) : Resolved catalog scope column column
  | called (is : scope.IsAlias column) : Resolved catalog scope column column
  | owned {node name : String} {owner : Name} {isJoined : Bool} {label : Name}
      (moves : ¬ (column.table.isSome ∨ scope.IsAlias column))
      (named : nodeAndColumn? column = some (node, name))
      (found : Planner.owner catalog scope node name = .ok (owner, isJoined)) :
      Resolved catalog scope column { name := label, table := some { name := owner } }

theorem resolved_of_ownedColumn (done : ownedColumn catalog scope column = .ok after) :
    Resolved catalog scope column after := by
  rw [ownedColumn] at done
  split at done
  next stays =>
    cases done
    rcases stays with owned | is
    · exact .table owned
    · exact .called is
  next moves =>
    split at done
    next => cases done
    next node name named =>
      obtain ⟨⟨owner, isJoined⟩, found, last⟩ := Result.bind_eq_ok.1 done
      cases Result.pure_eq_ok.1 last
      exact .owned moves named found

/-- The dimensions to join are kept, and those of a column are among them. -/
theorem mem_joined_of_note {found : Found} {columns : List Column} :
    (∀ node ∈ found.joined, node ∈ (columns.foldl (Found.note catalog scope) found).joined) ∧
      ∀ column ∈ columns, ¬ (column.table.isSome ∨ scope.IsAlias column) →
        ∀ node name owner, nodeAndColumn? column = some (node, name) →
          Planner.owner catalog scope node name = .ok (owner, true) →
            node ∈ (columns.foldl (Found.note catalog scope) found).joined := by
  induction columns generalizing found with
  | nil => exact ⟨fun _ member => member, nofun⟩
  | cons first rest ih =>
      obtain ⟨kept, others⟩ := @ih (found.note catalog scope first)
      have stays : ∀ node ∈ found.joined, node ∈ (found.note catalog scope first).joined := by
        intro node member
        rw [Found.note]
        split
        · exact member
        · split
          · exact member
          · split
            · exact member
            · dsimp only
              split
              · exact List.mem_append_left _ member
              · exact member
      refine ⟨fun node member => kept node (stays node member), fun column member moves => ?_⟩
      rcases List.mem_cons.1 member with rfl | later
      · intro node name owner named owned
        apply kept
        rw [Found.note, if_neg moves, named]
        simp only [owned, Bool.true_and]
        split
        next => simp
        next there => simpa using there
      · exact others column later moves

/-! ## The SELECT that columns are resolved in -/

/-- What SQL over metrics says, once metrics stand for what they compute: the query as it is
written, its items, the SELECT with the FROM of its metrics, what columns of that can refer to, and
the columns that the metrics take from their parents. -/
structure Logical where
  query : Query
  items : Items
  select : Select
  scope : Scope
  references : References

/-- What SQL over metrics says. -/
def logicalOf (catalog : Catalog) (sql : String) : Result Logical := do
  let query ← Query.ofText sql none
  if !query.ctes.isEmpty then throw (.notImplemented "WITH")
  checkSources query.select
  let items ← query.select.projection.foldlM (Items.add catalog) {}
  checkParents items.metrics
  let select := withItems query.select items
  let (sources, scope) ← scopeOf catalog items.metrics select
  let references ← metricReferences catalog items.metrics
  pure { query, items, select := { select with sources }, scope, references }

namespace Logical

/-- The columns outside of FROM, before they are resolved. -/
def columns (logical : Logical) : List Column :=
  logical.select.exprs.flatMap Expr.columns

/-- The SELECT with its columns resolved, and what they were found to refer to. -/
def resolve (catalog : Catalog) (logical : Logical) : Result (Select × Found) :=
  (logical.select.mapExprsM (Expr.mapColumnsM (resolveColumn catalog logical.scope))).run
    { references := logical.references }

/-- The query over relations of a database. -/
def finish (catalog : Catalog) (requested : Option Int) (logical : Logical) (select : Select)
    (found : Found) : Result Compiled := do
  let (demand, paths) ← found.joined.foldlM
    (demandJoin catalog (subjectName logical.items) logical.scope.parents)
    ({ nodes := logical.scope.parents, references := found.references }, [])
  let database ← demand.database catalog requested
  let joins ← paths.foldlM (Joins.addPath catalog database) (Joins.start select logical.scope.names)
  let bound ← bindRelations (relationOf catalog database) joins.select logical.scope.parents
  pure { database, query := { logical.query with select := bound } }

end Logical

/-- SQL over metrics is compiled in three steps. -/
theorem metricQuery_eq (catalog : Catalog) (sql : String) (requested : Option Int) :
    metricQuery catalog sql requested = (do
      let logical ← logicalOf catalog sql
      let (select, found) ← logical.resolve catalog
      logical.finish catalog requested select found) := by
  rw [metricQuery, logicalOf]
  simp only [bind_assoc]
  refine bind_congr fun query => ?_
  split
  · rfl
  · simp only [pure_bind, bind_assoc]
    rfl

/-- What is known of the steps is known of what they compile, and the text is read once. -/
theorem exists_run (catalog : Catalog) (sql : String) (requested : Option Int)
    (known : Logical → Compiled → Prop) [∀ logical compiled, Decidable (known logical compiled)]
    (runs : ((logicalOf catalog sql).toOption.bind fun logical =>
      (logical.resolve catalog >>= fun found =>
        logical.finish catalog requested found.1 found.2).toOption.map fun compiled =>
          decide (known logical compiled)) = some true) :
    ∃ logical compiled, logicalOf catalog sql = .ok logical ∧
      metricQuery catalog sql requested = .ok compiled ∧ known logical compiled := by
  obtain ⟨logical, begun, rest⟩ := Option.bind_eq_some_iff.1 runs
  obtain ⟨compiled, finished, holds⟩ := Option.map_eq_some_iff.1 rest
  have started := Result.eq_ok_of_toOption begun
  refine ⟨logical, compiled, started, ?_, of_decide_eq_true holds⟩
  rw [metricQuery_eq, Result.bind_of_ok started]
  exact Result.eq_ok_of_toOption finished

/-- A SELECT with an unknown name is not resolved, and fails as one of its columns does. -/
theorem Logical.resolve_of_unknown (logical : Logical) (catalog : Catalog)
    (unknown : ∃ column ∈ logical.columns, logical.scope.IsUnknown column) :
    ∃ failure, logical.resolve catalog = .error failure ∧
      ∃ column ∈ logical.columns, ownedColumn catalog logical.scope column = .error failure := by
  have notes := logical.select.notes_mapExprsM (notes_resolveColumn catalog logical.scope)
  have fails : (logical.select.mapExprsM
      (Expr.mapColumnsM (ownedColumn catalog logical.scope))).FailsWith fun failure =>
        ∃ column ∈ logical.columns, ownedColumn catalog logical.scope column = .error failure := by
    refine logical.select.mapExprsM_failsWith fun expr isExpr => ?_
    refine Expr.mapColumnsM_failsWith fun column there failure failed => ?_
    exact ⟨column, List.mem_flatMap.2 ⟨expr, isExpr, there⟩, failed⟩
  cases done : logical.select.mapExprsM (Expr.mapColumnsM (ownedColumn catalog logical.scope)) with
  | error failure => exact ⟨failure, notes.of_error done _, fails failure done⟩
  | ok after =>
      obtain ⟨column, isColumn, lost⟩ := unknown
      have each := flatMap_columns_of_forall₂ (Select.exprs_of_mapExprsM done)
      obtain ⟨_, _, owned⟩ := Result.exists_result_of_forall₂ each isColumn
      rw [ownedColumn_of_unknown lost] at owned
      cases owned

end SemanticLayer.Planner
