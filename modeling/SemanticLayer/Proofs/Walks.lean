import SemanticLayer.Proofs.Refilling

/-!
# Walks over columns

A walk changes exactly the columns that `columns` lists: it does nothing where each of them stays,
and two walks agree where they agree on each of them.
-/

namespace SemanticLayer.Sql.Expr

section

variable {m : Type → Type} [Monad m] [LawfulMonad m] {change other : Column → m Column}

/-- Walks that do the same to every listed column do the same. -/
theorem mapColumnsM_congr (expr : Expr)
    (same : ∀ column ∈ columns expr, change column = other column) :
    mapColumnsM change expr = mapColumnsM other expr := by
  rw [mapColumnsM_eq_mapM_columns, mapColumnsM_eq_mapM_columns, Result.mapM_congr same]

/-- A walk that keeps every column keeps the expression. -/
theorem mapColumnsM_pure (expr : Expr) : mapColumnsM (m := m) pure expr = pure expr := by
  rw [mapColumnsM_eq_mapM_columns, List.mapM_pure, List.map_id', map_pure, withColumns_columns]

/-- A walk keeps an expression if it keeps every listed column. -/
theorem mapColumnsM_eq_pure {expr : Expr}
    (kept : ∀ column ∈ columns expr, change column = pure column) :
    mapColumnsM change expr = pure expr := by
  rw [mapColumnsM_congr expr kept, mapColumnsM_pure]

end

/-! ## Changes without effects -/

theorem mapColumns_eq_withParts {change : Column → Column} {expr : Expr}
    (node : expr.column? = none) :
    mapColumns change expr = expr.withParts (expr.parts.map (mapColumns change)) := by
  rw [mapColumns, mapColumnsM_eq_mapM_parts _ node]
  exact congrArg expr.withParts (congrArg Id.run (List.mapM_pure (f := mapColumns change)))

section

variable (change : Column → Column)

@[simp] theorem mapColumns_column (c : Column) :
    mapColumns change (.column c) = .column (change c) := rfl

@[simp] theorem mapColumns_literal (value : Literal) :
    mapColumns change (.literal value) = .literal value := rfl

@[simp] theorem mapColumns_wildcard (path : Option Path) :
    mapColumns change (.wildcard path) = .wildcard path := rfl

@[simp] theorem mapColumns_subquery (query : Query) :
    mapColumns change (.subquery query) = .subquery query := rfl

@[simp] theorem mapColumns_binary (left : Expr) (op : BinaryOp) (right : Expr) :
    mapColumns change (.binary left op right) =
      .binary (mapColumns change left) op (mapColumns change right) := rfl

@[simp] theorem mapColumns_unary (op : UnaryOp) (operand : Expr) :
    mapColumns change (.unary op operand) = .unary op (mapColumns change operand) := rfl

@[simp] theorem mapColumns_call (name : Name) (path : Option Path) (args : List Expr)
    (distinct : Bool) :
    mapColumns change (.call name path args distinct) =
      .call name path (args.map (mapColumns change)) distinct := by
  rw [mapColumns_eq_withParts rfl, withParts_call]
  rfl

@[simp] theorem mapColumns_case (operand : Option Expr) (conditions results : List Expr)
    (otherwise : Option Expr) :
    mapColumns change (.case operand conditions results otherwise) =
      .case (operand.map (mapColumns change)) (conditions.map (mapColumns change))
        (results.map (mapColumns change)) (otherwise.map (mapColumns change)) := by
  have optional (expr? : Option Expr) : expr?.toList.map (mapColumns change) =
      (expr?.map (mapColumns change)).toList := by
    cases expr? <;> rfl
  rw [mapColumns_eq_withParts rfl, parts, List.map_append, List.map_append, List.map_append,
    optional, optional]
  refine withParts_case _ _ ?_ (List.length_map _) (List.length_map _)
  rw [← optional, List.length_map]

@[simp] theorem mapColumns_between (subject low high : Expr) (negated : Bool) :
    mapColumns change (.between subject low high negated) =
      .between (mapColumns change subject) (mapColumns change low) (mapColumns change high)
        negated := rfl

@[simp] theorem mapColumns_isNull (subject : Expr) (negated : Bool) :
    mapColumns change (.isNull subject negated) = .isNull (mapColumns change subject) negated := rfl

@[simp] theorem mapColumns_inList (subject : Expr) (items : List Expr) (negated : Bool) :
    mapColumns change (.inList subject items negated) =
      .inList (mapColumns change subject) (items.map (mapColumns change)) negated := by
  rw [mapColumns_eq_withParts rfl]
  rfl

@[simp] theorem mapColumns_aliased (name : Name) (child : Expr) :
    mapColumns change (.aliased name child) = .aliased name (mapColumns change child) := rfl

@[simp] theorem mapColumns_nested (inner : Expr) :
    mapColumns change (.nested inner) = .nested (mapColumns change inner) := rfl

end

variable {change other : Column → Column}

theorem mapColumns_eq_withColumns (expr : Expr) :
    mapColumns change expr = expr.withColumns ((columns expr).map change) := by
  rw [mapColumns, mapColumnsM_eq_mapM_columns, List.mapM_pure]
  rfl

/-- The columns of a changed expression are its columns, changed. -/
theorem columns_mapColumns (expr : Expr) :
    columns (mapColumns change expr) = (columns expr).map change := by
  rw [mapColumns_eq_withColumns, columns_withColumns (List.length_map change)]

/-- Two changes give the same expression just if they agree on every listed column. -/
theorem mapColumns_eq_iff (expr : Expr) : mapColumns change expr = mapColumns other expr ↔
    ∀ column ∈ columns expr, change column = other column := by
  constructor
  · intro same
    have each := congrArg columns same
    rwa [columns_mapColumns, columns_mapColumns, List.map_inj_left] at each
  · intro same
    rw [mapColumns_eq_withColumns, mapColumns_eq_withColumns, List.map_inj_left.2 same]

/-- One change after another is the change by both. -/
theorem mapColumns_mapColumns (expr : Expr) : mapColumns other (mapColumns change expr) =
    mapColumns (fun column => other (change column)) expr := by
  induction expr using parts_induction with
  | step expr ih =>
    cases node : expr.column? with
    | some found =>
        cases eq_column_of_column? node
        rfl
    | none =>
        have size : (expr.parts.map (mapColumns change)).length = expr.parts.length :=
          List.length_map _
        rw [mapColumns_eq_withParts node,
          mapColumns_eq_withParts ((column?_withParts _ _).trans node), parts_withParts size,
          withParts_withParts size (List.length_map _), mapColumns_eq_withParts node, List.map_map]
        exact congrArg expr.withParts (List.map_congr_left ih)

end SemanticLayer.Sql.Expr
