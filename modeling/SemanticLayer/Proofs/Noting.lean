import SemanticLayer.Proofs.Qualifiers

/-!
# Walks that note what they meet

A walk over columns may keep a state that none of its results depends on. Such a walk gives what a
walk without a state gives, it fails as that one does, and in its last state the columns are noted
one after the other.
-/

namespace SemanticLayer

namespace Result

section

variable {σ ι κ α β : Type} {note : σ → ι → σ}

/-- Whether a run with a state gives what a run without one gives, and notes some items. -/
def Notes (note : σ → ι → σ) (items : List ι) (run : StateT σ Result α) (plain : Result α) : Prop :=
  ∀ state, run.run state = (fun value => (value, items.foldl note state)) <$> plain

namespace Notes

variable {items later : List ι} {run : StateT σ Result α} {plain : Result α}

theorem pure (value : α) :
    Notes note [] (Pure.pure value : StateT σ Result α) (Pure.pure value) :=
  fun _ => rfl

theorem bind {next : α → StateT σ Result β} {others : α → Result β}
    (notes : Notes note items run plain)
    (rest : ∀ value, Notes note later (next value) (others value)) :
    Notes note (items ++ later) (run >>= next) (plain >>= others) := by
  intro state
  rw [StateT.run_bind, notes state]
  cases plain with
  | error failure => rfl
  | ok value =>
      rw [List.foldl_append]
      exact rest value (items.foldl note state)

/-- What is made of the result notes nothing more. -/
theorem map (notes : Notes note items run plain) (change : α → β) :
    Notes note items (run >>= fun value => Pure.pure (change value))
      (plain >>= fun value => Pure.pure (change value)) := by
  have both : Notes note (items ++ []) _ _ := notes.bind fun value => .pure (change value)
  rwa [List.append_nil] at both

theorem mapM {step : κ → StateT σ Result β} {other : κ → Result β} {noted : κ → List ι}
    (each : ∀ item, Notes note (noted item) (step item) (other item)) (list : List κ) :
    Notes note (list.flatMap noted) (list.mapM step) (list.mapM other) := by
  induction list with
  | nil => exact .pure []
  | cons item rest ih =>
      rw [List.mapM_cons, List.mapM_cons, List.flatMap_cons]
      exact (each item).bind fun first => ih.map (first :: ·)

theorem optionMapM {step : κ → StateT σ Result β} {other : κ → Result β} {noted : κ → List ι}
    (each : ∀ item, Notes note (noted item) (step item) (other item)) (item? : Option κ) :
    Notes note (item?.toList.flatMap noted) (item?.mapM step) (item?.mapM other) := by
  cases item? with
  | none => exact .pure none
  | some item =>
      rw [Option.mapM_some, Option.mapM_some, Option.toList_some, List.flatMap_singleton,
        map_eq_pure_bind, map_eq_pure_bind]
      exact (each item).map some

/-- A run that succeeds gave what the run without a state gives, with all items noted. -/
theorem of_ok (notes : Notes note items run plain) {start final : σ} {value : α}
    (done : run.run start = .ok (value, final)) :
    plain = .ok value ∧ final = items.foldl note start := by
  rw [notes start] at done
  obtain ⟨_, made, same⟩ := map_eq_ok.1 done
  cases same
  exact ⟨made, rfl⟩

/-- A run that fails fails as the run without a state does. -/
theorem of_error (notes : Notes note items run plain) {failure : Error}
    (failed : plain = .error failure) (start : σ) : run.run start = .error failure := by
  rw [notes start, failed]
  rfl

end Notes

end

end Result

namespace Sql

open Result (Notes)

variable {σ : Type} {note : σ → Column → σ} {change : Column → StateT σ Result Column}
  {other : Column → Result Column}

theorem Expr.notes_mapColumnsM
    (each : ∀ column, Notes note [column] (change column) (other column)) (expr : Expr) :
    Notes note expr.columns (Expr.mapColumnsM change expr) (Expr.mapColumnsM other expr) := by
  have listed := (Notes.mapM each expr.columns).map expr.withColumns
  rw [← map_eq_pure_bind, ← map_eq_pure_bind, List.flatMap_singleton'] at listed
  rwa [Expr.mapColumnsM_eq_mapM_columns, Expr.mapColumnsM_eq_mapM_columns]

/-- A walk over the clauses of a SELECT notes its columns outside of FROM. -/
theorem Select.notes_mapExprsM (each : ∀ column, Notes note [column] (change column) (other column))
    (select : Select) :
    Notes note (select.exprs.flatMap Expr.columns) (select.mapExprsM (Expr.mapColumnsM change))
      (select.mapExprsM (Expr.mapColumnsM other)) := by
  have expr := Expr.notes_mapColumnsM each
  have ordering (ordering : Ordering) :
      Notes note ordering.expr.columns
        (do pure { ordering with expr := ← Expr.mapColumnsM change ordering.expr })
        (do pure { ordering with expr := ← Expr.mapColumnsM other ordering.expr }) :=
    (expr ordering.expr).map fun expr => { ordering with expr }
  simp only [exprs, List.flatMap_append, List.append_assoc, List.flatMap_map]
  exact (Notes.mapM expr select.projection).bind fun projection =>
    (Notes.optionMapM expr select.filter).bind fun filter =>
      (Notes.mapM expr select.groupBy).bind fun groupBy =>
        (Notes.optionMapM expr select.having).bind fun having =>
          (Notes.mapM ordering select.orderBy).map fun orderBy =>
            { select with projection, filter, groupBy, having, orderBy }

end Sql
end SemanticLayer
