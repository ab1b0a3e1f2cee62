import SemanticLayer.Proofs.Refilling

/-!
# Substitution

Expressions can be put for the columns of an expression. Its columns are then those of what was put
there, one after the other, and a walk over them changes what was put there and nothing else.
-/

namespace SemanticLayer.Sql.Expr

variable (stands : Column → Expr)

/-- What is put for an expression if that is a column. -/
def atColumn : Expr → Option Expr
  | .column found => some (stands found)
  | _ => none

/-- The rewriting that puts expressions for columns. -/
abbrev visitColumn (expr : Expr) : Id (Option Expr) :=
  pure (atColumn stands expr)

/-- The expression with expressions put for its columns, outside of subqueries. -/
def substitute (expr : Expr) : Expr :=
  (rewriteM (visitColumn stands) expr).run

/-- The columns of what is put for columns. -/
def columnsPut (found : List Column) : List Column :=
  found.flatMap fun column => (stands column).columns

@[simp] theorem substitute_column (found : Column) :
    (column found).substitute stands = stands found := by
  rw [substitute, rewriteM]
  rfl

theorem substitute_eq_withParts {expr : Expr} (node : expr.column? = none) :
    expr.substitute stands = expr.withParts (expr.parts.map (substitute stands)) := by
  have kept : atColumn stands expr = none := by
    cases expr with
    | column found => cases node
    | _ => rfl
  rw [substitute, rewriteM_eq_mapM_parts, visitColumn, kept]
  exact congrArg expr.withParts (congrArg Id.run (List.mapM_pure (f := substitute stands)))

theorem columns_substitute (expr : Expr) :
    (expr.substitute stands).columns = columnsPut stands expr.columns := by
  induction expr using parts_induction with
  | step expr ih =>
    cases node : expr.column? with
    | some found =>
        cases eq_column_of_column? node
        rw [substitute_column, columns, columnsPut, List.flatMap_singleton]
    | none =>
        rw [substitute_eq_withParts stands node,
          columns_eq_flatMap_parts ((column?_withParts _ _).trans node),
          parts_withParts (List.length_map _), columns_eq_flatMap_parts node, columnsPut,
          List.flatMap_assoc, List.flatMap_map]
        exact List.flatMap_congr ih

/-! ## Walks over what is put for columns -/

variable {stands} (change : Column → Result Column)

/-- What a walk gives of what is put for a column, where it succeeds. -/
def carried (stands : Column → Expr) (found : Column) : Expr :=
  (mapColumnsM change (stands found)).toOption.getD (stands found)

variable {change}

/-- A walk over an expression with expressions put for its columns walks over each of them. -/
theorem substitute_of_mapColumnsM (expr : Expr) {after : Expr}
    (done : mapColumnsM change (expr.substitute stands) = .ok after) :
    after = expr.substitute (carried change stands) := by
  induction expr using parts_induction generalizing after with
  | step expr ih =>
    cases node : expr.column? with
    | some found =>
        cases eq_column_of_column? node
        rw [substitute_column] at done ⊢
        rw [carried, done]
        rfl
    | none =>
        have size : (expr.parts.map (substitute stands)).length = expr.parts.length :=
          List.length_map _
        rw [substitute_eq_withParts stands node,
          mapColumnsM_eq_mapM_parts _ ((column?_withParts _ _).trans node),
          parts_withParts size] at done
        obtain ⟨others, ran, rfl⟩ := Result.map_eq_ok.1 done
        have many := (Result.mapM_eq_ok_iff.1 ran).length_eq
        rw [withParts_withParts size many.symm, substitute_eq_withParts _ node]
        rw [List.mapM_map] at ran
        have each : expr.parts.mapM (fun part => pure (part.substitute (carried change stands))) =
            Except.ok others :=
          Result.mapM_of_agree (fun part member _ made => congrArg _ (ih part member made).symm) ran
        rw [List.mapM_pure] at each
        exact congrArg expr.withParts (Result.pure_eq_ok.1 each).symm

end SemanticLayer.Sql.Expr
