import SemanticLayer.Proofs.Parts

/-!
# Other columns in the places of the columns

The columns of an expression stand in the order in which they are listed, and other columns can be
put in their places, one for one. Whatever is done at each column, a walk does it at the listed
columns in their order and then puts the results in their places. A rewriting that answers at
columns alone is such a walk.
-/

namespace SemanticLayer.Sql.Expr

/-- The next of some columns for the one visited, which stays if there is none left. -/
def nextColumn (found : Column) : StateM (List Column) Column :=
  modifyGet fun later => (later.headD found, later.tail)

/-- The expression with other columns in the places of those it lists, of which there are as
many. -/
def withColumns (expr : Expr) (others : List Column) : Expr :=
  ((mapColumnsM nextColumn expr).run others).run.1

/-- Expressions with other columns in the places of those they list one after the other. -/
def withColumnsEach (exprs : List Expr) (others : List Column) : List Expr :=
  ((exprs.mapM (mapColumnsM nextColumn)).run others).run.1

/-- The callback of a rewriting that changes columns and goes on into everything else. -/
def onColumns {m : Type → Type} [Monad m] (change : Column → m Column) (expr : Expr) :
    m (Option Expr) :=
  expr.column?.elim (pure none) fun found =>
    (fun changed => some (.column changed)) <$> change found

theorem withColumns_of_node {expr : Expr} (node : expr.column? = none) :
    expr.withColumns = fun others => expr.withParts (withColumnsEach expr.parts others) := by
  funext others
  rw [withColumns, mapColumnsM_eq_mapM_parts nextColumn node]
  rfl

/-! ## Whatever is done at each column -/

/-- A run over columns that takes as many others leaves the later ones. -/
theorem run_mapM_nextColumn {columns others : List Column} (later : List Column)
    (size : others.length = columns.length) :
    (columns.mapM nextColumn).run (others ++ later) = pure (others, later) := by
  induction columns generalizing others with
  | nil =>
      rw [List.length_eq_zero_iff.1 size]
      rfl
  | cons column rest ih =>
      obtain _ | ⟨other, others⟩ := others
      · cases size
      · have taken : (nextColumn column).run (other :: (others ++ later)) =
            pure (other, others ++ later) := rfl
        rw [List.mapM_cons, List.cons_append, StateT.run_bind, taken, pure_bind, StateT.run_bind,
          ih (Nat.succ.inj size)]
        rfl

/-- Whether a walk over an expression, whatever it does at each column, does it at the listed
columns in their order, and puts what comes of it in their places. -/
def Refills (expr : Expr) : Prop :=
  ∀ (m : Type → Type) [Monad m] [LawfulMonad m] (change : Column → m Column),
    mapColumnsM change expr = expr.withColumns <$> expr.columns.mapM change

theorem Refills.withColumnsEach_cons {expr : Expr} (refills : Refills expr) (rest : List Expr)
    {others : List Column} (later : List Column) (size : others.length = expr.columns.length) :
    withColumnsEach (expr :: rest) (others ++ later) =
      expr.withColumns others :: withColumnsEach rest later := by
  have first : (mapColumnsM nextColumn expr).run (others ++ later) =
      pure (expr.withColumns others, later) := by
    rw [refills, StateT.run_map, run_mapM_nextColumn later size]
    rfl
  rw [withColumnsEach, List.mapM_cons, StateT.run_bind, first]
  rfl

variable {m : Type → Type} [Monad m] [LawfulMonad m]

theorem mapM_mapColumnsM {exprs : List Expr} (each : ∀ expr ∈ exprs, Refills expr)
    (change : Column → m Column) :
    exprs.mapM (mapColumnsM change) =
      withColumnsEach exprs <$> (exprs.flatMap columns).mapM change := by
  induction exprs with
  | nil => simp [withColumnsEach]
  | cons expr rest ih =>
      rw [List.forall_mem_cons] at each
      rw [List.mapM_cons, each.1, ih each.2, List.flatMap_cons, List.mapM_append]
      simp only [map_bind, bind_map_left, map_pure]
      refine Result.mapM_bind_congr fun others size => ?_
      simp only [each.1.withColumnsEach_cons rest _ size]

theorem refills (expr : Expr) : Refills expr := by
  -- Needed of the parts for two monads: the given one, and the one that takes columns from a list.
  induction expr using parts_induction with
  | step expr ih =>
    intro m _ _ change
    cases node : expr.column? with
    | some found =>
        cases eq_column_of_column? node
        simp [mapColumnsM, columns, withColumns, nextColumn]
    | none =>
        rw [mapColumnsM_eq_mapM_parts change node, mapM_mapColumnsM ih,
          columns_eq_flatMap_parts node, withColumns_of_node node, Functor.map_map]

/-- Whatever a walk does at each column, it does at the listed columns in their order, and it puts
what comes of it in their places. -/
theorem mapColumnsM_eq_mapM_columns (change : Column → m Column) (expr : Expr) :
    mapColumnsM change expr = expr.withColumns <$> expr.columns.mapM change :=
  refills expr m change

/-- A rewriting that answers at columns alone changes them as a walk does. -/
theorem rewriteM_onColumns (change : Column → m Column) (expr : Expr) :
    rewriteM (onColumns change) expr = mapColumnsM change expr := by
  induction expr using parts_induction with
  | step expr ih =>
    rw [rewriteM_eq_mapM_parts, onColumns]
    cases node : expr.column? with
    | some found =>
        cases eq_column_of_column? node
        simp [mapColumnsM]
    | none =>
        rw [Option.elim_none, pure_bind, Option.elim_none, Result.mapM_congr ih,
          mapColumnsM_eq_mapM_parts change node]

/-! ## What stands in the places -/

theorem withColumnsEach_columns {exprs : List Expr}
    (each : ∀ expr ∈ exprs, expr.withColumns expr.columns = expr) :
    withColumnsEach exprs (exprs.flatMap columns) = exprs := by
  induction exprs with
  | nil => rfl
  | cons expr rest ih =>
      rw [List.forall_mem_cons] at each
      rw [List.flatMap_cons, (refills expr).withColumnsEach_cons rest _ rfl, each.1, ih each.2]

/-- With its own columns in their places an expression is itself. -/
theorem withColumns_columns (expr : Expr) : expr.withColumns expr.columns = expr := by
  induction expr using parts_induction with
  | step expr ih =>
    cases node : expr.column? with
    | some found =>
        cases eq_column_of_column? node
        rfl
    | none =>
        rw [columns_eq_flatMap_parts node, withColumns_of_node node]
        exact (congrArg expr.withParts (withColumnsEach_columns ih)).trans expr.withParts_parts

/-- What may stand in the places of the columns of several expressions is split between them. -/
theorem exists_others_append {first second : List Column} {others : List Column}
    (size : others.length = (first ++ second).length) :
    ∃ before after, others = before ++ after ∧ before.length = first.length ∧
      after.length = second.length := by
  have whole : List.Forall₂ (fun _ _ : Column => True) (first ++ second) others :=
    List.forall₂_iff_get.2 ⟨size.symm, fun _ _ _ => trivial⟩
  obtain ⟨before, after, same, left, right⟩ := Result.exists_append_of_forall₂ whole
  exact ⟨before, after, same, left.length_eq.symm, right.length_eq.symm⟩

theorem flatMap_columns_withColumnsEach {exprs : List Expr}
    (each : ∀ expr ∈ exprs, ∀ others, others.length = expr.columns.length →
      (expr.withColumns others).columns = others)
    {others : List Column} (size : others.length = (exprs.flatMap columns).length) :
    (withColumnsEach exprs others).length = exprs.length ∧
      (withColumnsEach exprs others).flatMap columns = others := by
  induction exprs generalizing others with
  | nil => exact ⟨rfl, (List.length_eq_zero_iff.1 size).symm⟩
  | cons expr rest ih =>
      rw [List.forall_mem_cons] at each
      obtain ⟨before, after, rfl, first, second⟩ := exists_others_append size
      obtain ⟨many, columns⟩ := ih each.2 second
      rw [(refills expr).withColumnsEach_cons rest after first, List.length_cons, many,
        List.flatMap_cons, each.1 before first, columns]
      exact ⟨rfl, rfl⟩

/-- What is put in the places of the columns are the columns then. -/
theorem columns_withColumns {expr : Expr} {others : List Column}
    (size : others.length = expr.columns.length) : (expr.withColumns others).columns = others := by
  induction expr using parts_induction generalizing others with
  | step expr ih =>
    cases node : expr.column? with
    | some found =>
        cases eq_column_of_column? node
        obtain ⟨other, rfl⟩ := List.length_eq_one_iff.1 size
        rfl
    | none =>
        rw [columns_eq_flatMap_parts node] at size
        obtain ⟨many, columns⟩ :=
          flatMap_columns_withColumnsEach (fun part member _ => ih part member) size
        rw [withColumns_of_node node,
          columns_eq_flatMap_parts ((column?_withParts _ _).trans node), parts_withParts many,
          columns]

end SemanticLayer.Sql.Expr
