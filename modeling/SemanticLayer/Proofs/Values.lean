import SemanticLayer.Planner.NodeQuery
import SemanticLayer.Proofs.Walks

/-!
# Columns by value

Two columns are the same column if they agree after their quotation marks are dropped and their
owners are reduced to the names that qualify them. What is added once is added unless the same
column is there.
-/

namespace SemanticLayer.Sql

/-- A name without the quotation mark it was written in. -/
def Name.byValue (name : Name) : Name :=
  { value := name.value }

theorem Name.beq_iff {a b : Name} : (a == b) = true ↔ a.value = b.value := by
  show (a.value == b.value) = true ↔ _
  exact beq_iff_eq

theorem Name.byValue_eq_iff {a b : Name} : a.byValue = b.byValue ↔ a.value = b.value := by
  simp [Name.byValue]

theorem Path.beq_iff {a b : Path} : (a == b) = true ↔ a.map Name.byValue = b.map Name.byValue := by
  induction a generalizing b with
  | nil => cases b <;> simp
  | cons name rest ih =>
      cases b with
      | nil => simp
      | cons other others =>
          rw [List.cons_beq_cons, Bool.and_eq_true, ih, List.map_cons, List.map_cons,
            List.cons.injEq, Name.beq_iff, Name.byValue_eq_iff]

/-- A column by its name and its qualifier, whatever its owner. -/
def Column.byValue (column : Column) : Column :=
  { name := column.name.byValue, path := some (column.qualifier.map Name.byValue) }

theorem Column.beq_iff {a b : Column} : (a == b) = true ↔ a.byValue = b.byValue := by
  show (a.name == b.name && a.qualifier == b.qualifier) = true ↔ _
  rw [Bool.and_eq_true, Name.beq_iff, Path.beq_iff, ← Name.byValue_eq_iff]
  simp [Column.byValue]

namespace Expr

/-- An expression with its columns by value. -/
def byValue (expr : Expr) : Expr :=
  expr.mapColumns Column.byValue

theorem byValue_column (column : Column) : byValue (.column column) = .column column.byValue := rfl

/-- What is equal to a column is the same column by value. -/
theorem beq_column_iff {expr : Expr} {column : Column} :
    (expr == .column column) = true ↔ expr.byValue = (Expr.column column).byValue := by
  show expr.equal (.column column) = true ↔ _
  cases expr with
  | column other => simp [Expr.equal, byValue_column, Column.beq_iff]
  | _ => simp [Expr.equal, byValue]

/-- A change keeps an expression by value just if it keeps each of its columns so. -/
theorem byValue_mapColumns_eq_iff {change : Column → Column} {expr : Expr} :
    (expr.mapColumns change).byValue = expr.byValue ↔
      ∀ column ∈ expr.columns, (change column == column) = true := by
  rw [byValue, byValue, mapColumns_mapColumns, mapColumns_eq_iff]
  simp only [Column.beq_iff]

theorem columns_unaliased (expr : Expr) : expr.unaliased.columns = expr.columns := by
  cases expr with
  | aliased name child => simp [unaliased, columns]
  | _ => rfl

theorem unaliased_aliased (name : Name) (child : Expr) : unaliased (.aliased name child) = child :=
  rfl

end Expr

/-- A SELECT with its columns by value and without the aliases of its projection. -/
def Select.byValue (select : Select) : Select :=
  { select with
    projection := select.projection.map fun item => item.unaliased.byValue
    filter := select.filter.map Expr.byValue
    groupBy := select.groupBy.map Expr.byValue
    having := select.having.map Expr.byValue
    orderBy := select.orderBy.map fun ordering => { ordering with expr := ordering.expr.byValue } }

end SemanticLayer.Sql

namespace SemanticLayer.Planner

open SemanticLayer.Sql

variable {exprs : List Expr} {column : Column} {columns : List Column}

theorem any_beq_column_iff :
    exprs.any (· == .column column) = true ↔
      (Expr.column column).byValue ∈ exprs.map Expr.byValue := by
  rw [List.any_eq_true, List.mem_map]
  simp only [Expr.beq_column_iff]

theorem addOnce_of_mem (there : (Expr.column column).byValue ∈ exprs.map Expr.byValue) :
    addOnce exprs (.column column) = exprs := by
  rw [addOnce, if_pos (any_beq_column_iff.2 there)]

theorem addOnce_of_not_mem (absent : (Expr.column column).byValue ∉ exprs.map Expr.byValue) :
    addOnce exprs (.column column) = exprs ++ [.column column] := by
  rw [addOnce, if_neg fun there => absent (any_beq_column_iff.1 there)]

/-- Columns that are all there already are not added. -/
theorem foldl_addOnce_of_subset
    (there : ∀ column ∈ columns, (Expr.column column).byValue ∈ exprs.map Expr.byValue) :
    (columns.map Expr.column).foldl addOnce exprs = exprs := by
  induction columns with
  | nil => rfl
  | cons column columns ih =>
      rw [List.map_cons, List.foldl_cons, addOnce_of_mem (there column List.mem_cons_self)]
      exact ih fun other member => there other (List.mem_cons_of_mem column member)

/-- Columns that are different from each other and from all that is there are all added. -/
theorem foldl_addOnce_of_nodup
    (distinct : ((exprs ++ columns.map Expr.column).map Expr.byValue).Nodup) :
    (columns.map Expr.column).foldl addOnce exprs = exprs ++ columns.map Expr.column := by
  induction columns generalizing exprs with
  | nil => simp
  | cons column columns ih =>
      rw [List.map_cons, List.append_cons] at distinct
      have absent : (Expr.column column).byValue ∉ exprs.map Expr.byValue := by
        rw [List.map_append, List.map_append] at distinct
        have first := (List.nodup_append.1 distinct).1
        intro there
        exact (List.nodup_append.1 first).2.2 _ there _ (by simp) rfl
      rw [List.map_cons, List.foldl_cons, addOnce_of_not_mem absent, ih distinct,
        List.append_assoc]
      rfl

/-- Adding columns keeps what is there in front. -/
theorem prefix_foldl_addOnce : exprs <+: (columns.map Expr.column).foldl addOnce exprs := by
  induction columns generalizing exprs with
  | nil => exact List.prefix_rfl
  | cons column columns ih =>
      rw [List.map_cons, List.foldl_cons]
      apply List.IsPrefix.trans _ ih
      rw [addOnce]
      split
      · exact List.prefix_rfl
      · exact List.prefix_append _ _

theorem length_addOnce_le (exprs : List Expr) (column : Column) :
    (addOnce exprs (.column column)).length ≤ exprs.length + 1 := by
  rw [addOnce]
  split
  · exact Nat.le_succ _
  · simp

theorem length_foldl_addOnce_le (columns : List Column) (exprs : List Expr) :
    ((columns.map Expr.column).foldl addOnce exprs).length ≤ exprs.length + columns.length := by
  induction columns generalizing exprs with
  | nil => exact Nat.le_refl _
  | cons column columns ih =>
      rw [List.map_cons, List.foldl_cons, List.length_cons]
      have one := length_addOnce_le exprs column
      have rest := ih (addOnce exprs (.column column))
      omega

/-- If none of the columns was left out they are different from each other and from what was
there. -/
theorem nodup_of_length_foldl_addOnce (start : (exprs.map Expr.byValue).Nodup)
    (all : ((columns.map Expr.column).foldl addOnce exprs).length = exprs.length + columns.length) :
    ((exprs ++ columns.map Expr.column).map Expr.byValue).Nodup := by
  induction columns generalizing exprs with
  | nil => simpa using start
  | cons column columns ih =>
      rw [List.map_cons, List.foldl_cons, List.length_cons] at all
      by_cases there : (Expr.column column).byValue ∈ exprs.map Expr.byValue
      · rw [addOnce_of_mem there] at all
        have few := length_foldl_addOnce_le columns exprs
        omega
      · rw [addOnce_of_not_mem there] at all
        rw [List.map_cons, List.append_cons]
        apply ih
        · rw [List.map_append, List.nodup_append]
          refine ⟨start, by simp, ?_⟩
          intro value before other last same
          rw [List.map_singleton, List.mem_singleton] at last
          exact there (last ▸ same ▸ before)
        · rw [all, List.length_append]
          simp only [List.length_singleton]
          omega

/-- Adding columns to some of themselves, which come first, gives back the columns. -/
theorem foldl_addOnce_eq_iff_isPrefixOf
    (distinct : ((columns.map Expr.column).map Expr.byValue).Nodup) :
    ((columns.map Expr.column).foldl addOnce exprs).map Expr.byValue =
        (columns.map Expr.column).map Expr.byValue ↔
      exprs.map Expr.byValue <+: (columns.map Expr.column).map Expr.byValue := by
  constructor
  · intro same
    rw [← same]
    exact prefix_foldl_addOnce.map Expr.byValue
  · rintro ⟨rest, split⟩
    obtain ⟨early, late, whole, same, others⟩ := List.map_eq_append_iff.1 split.symm
    obtain ⟨first, second, rfl, rfl, rfl⟩ := List.map_eq_append_iff.1 whole
    have known : (first.map Expr.column).foldl addOnce exprs = exprs := by
      apply foldl_addOnce_of_subset
      intro column member
      rw [← same]
      exact List.mem_map_of_mem (List.mem_map_of_mem member)
    have added : (second.map Expr.column).foldl addOnce exprs = exprs ++ second.map Expr.column := by
      apply foldl_addOnce_of_nodup
      rw [List.map_append, ← same, ← List.map_append, ← List.map_append]
      exact distinct
    rw [List.map_append, List.foldl_append, known, added, List.map_append, ← same,
      ← List.map_append]

end SemanticLayer.Planner
