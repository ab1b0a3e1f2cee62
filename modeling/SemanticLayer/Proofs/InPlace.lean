import SemanticLayer.Proofs.Owning

/-!
# Rewriting in place

A rewriting in place changes an expression part by part, and when its callback fails it stops there:
what was changed before stays changed, and the rest stays as it was. It comes to what a rewriting
comes to that gives nothing when it fails. If the callback answers at columns alone, the columns in
front of the one it fails at are the changed ones.
-/

namespace SemanticLayer.Sql

variable {ε σ α β : Type}

/-- What a step that keeps a state comes to from a state: a value or a failure, and the state it is
left in. -/
def runFrom (step : ExceptT ε (StateM σ) α) (state : σ) : Except ε α × σ :=
  (step.run.run state).run

/-- How a walk in place leaves things: the value as it then stands, the failure that the walk
stopped at, if any, and the state of its callback. -/
structure Standing (ε σ α : Type) where
  value : α
  failure? : Option ε
  state : σ

namespace Standing

/-- What stands if the value is put into another one. -/
def map (change : α → β) (standing : Standing ε σ α) : Standing ε σ β :=
  ⟨change standing.value, standing.failure?, standing.state⟩

/-- What a step leaves of a value that it is to give another one for. -/
def ofStep (kept : α) : Except ε α × σ → Standing ε σ α
  | (.ok value, state) => ⟨value, none, state⟩
  | (.error failure, state) => ⟨kept, some failure, state⟩

/-- What stands after a walk over later items too. They stay if the walk had stopped before them. -/
def followedBy (standing : Standing ε σ (List α)) (later : List α)
    (walk : σ → Standing ε σ (List α)) : Standing ε σ (List α) :=
  standing.failure?.elim ((walk standing.state).map (standing.value ++ ·)) fun _ =>
    standing.map (· ++ later)

/-- What a walk comes to: the value it leaves counts if it did not fail. -/
def outcome (standing : Standing ε σ α) : Except ε α × σ :=
  (standing.failure?.elim (.ok standing.value) .error, standing.state)

end Standing

/-- A walk in place over items from left to right that stops at the first failure. -/
def eachInPlace : (items : List α) → (∀ item ∈ items, σ → Standing ε σ α) → σ →
    Standing ε σ (List α)
  | [], _, state => ⟨[], none, state⟩
  | item :: rest, walk, state =>
    ((walk item List.mem_cons_self state).map fun value => [value]).followedBy rest
      (eachInPlace rest fun other member => walk other (List.mem_cons_of_mem _ member))

namespace Expr

/-- A rewriting in place. Where `visit` gives an expression it stands for the one visited and is not
entered; where it gives none the parts are visited from left to right. -/
def rewriteInPlace (visit : Expr → ExceptT ε (StateM σ) (Option Expr)) (expr : Expr) (state : σ) :
    Standing ε σ Expr :=
  match runFrom (visit expr) state with
  | (.error failure, state) => ⟨expr, some failure, state⟩
  | (.ok (some replacement), state) => ⟨replacement, none, state⟩
  | (.ok none, state) =>
    (eachInPlace expr.parts (fun part _ => rewriteInPlace visit part) state).map expr.withParts
termination_by expr
decreasing_by exact sizeOf_lt_of_mem_parts ‹_›

end Expr

/-! ## Steps with a state -/

section

variable {first : ExceptT ε (StateM σ) α} {state final : σ}

theorem runFrom_bind_of_ok {value : α} (done : runFrom first state = (.ok value, final))
    (next : α → ExceptT ε (StateM σ) β) :
    runFrom (first >>= next) state = runFrom (next value) final := by
  rw [runFrom] at done
  rw [runFrom, ExceptT.run_bind, StateT.run_bind, Id.run_bind, done]
  rfl

theorem runFrom_bind_of_error {failure : ε} (failed : runFrom first state = (.error failure, final))
    (next : α → ExceptT ε (StateM σ) β) :
    runFrom (first >>= next) state = (.error failure, final) := by
  rw [runFrom] at failed
  rw [runFrom, ExceptT.run_bind, StateT.run_bind, Id.run_bind, failed]
  rfl

end

theorem runFrom_map (change : α → β) (step : ExceptT ε (StateM σ) α) (state : σ) :
    runFrom (change <$> step) state =
      (change <$> (runFrom step state).1, (runFrom step state).2) := by
  rw [map_eq_pure_bind]
  cases come : runFrom step state with
  | mk result final =>
    cases result with
    | error failure =>
        rw [runFrom_bind_of_error come]
        rfl
    | ok value =>
        rw [runFrom_bind_of_ok come]
        rfl

/-! ## What a walk in place leaves -/

namespace Standing

theorem outcome_map (change : α → β) (standing : Standing ε σ α) :
    (standing.map change).outcome = (change <$> standing.outcome.1, standing.outcome.2) := by
  obtain ⟨value, failure?, state⟩ := standing
  cases failure? <;> rfl

theorem outcome_ofStep (kept : α) (result : Except ε α × σ) :
    (ofStep kept result).outcome = result := by
  obtain ⟨value | failure, state⟩ := result <;> rfl

/-- What a walk leaves that did not fail is what it comes to. -/
theorem eq_of_outcome_eq_ok {standing : Standing ε σ α} {value : α} {state : σ}
    (done : standing.outcome = (.ok value, state)) : standing = ⟨value, none, state⟩ := by
  obtain ⟨left, failure?, final⟩ := standing
  cases failure? with
  | some failure => cases done
  | none =>
      cases done
      rfl

theorem followedBy_assoc (standing : Standing ε σ (List α)) (next later : List α)
    (walk another : σ → Standing ε σ (List α)) :
    (standing.followedBy next walk).followedBy later another =
      standing.followedBy (next ++ later) fun state => (walk state).followedBy later another := by
  obtain ⟨value, failure?, state⟩ := standing
  cases failure? with
  | some failure => simp only [followedBy, map, Option.elim_some, List.append_assoc]
  | none =>
      simp only [followedBy, map, Option.elim_none]
      cases walk state with
      | mk others failure? final =>
        cases failure? <;> simp

end Standing

section

variable {walk : α → σ → Standing ε σ α} {items : List α}

theorem eachInPlace_append (items later : List α) (state : σ) :
    eachInPlace (items ++ later) (fun item _ => walk item) state =
      (eachInPlace items (fun item _ => walk item) state).followedBy later
        (eachInPlace later fun item _ => walk item) := by
  induction items generalizing state with
  | nil => rfl
  | cons item rest ih =>
      rw [eachInPlace, Standing.followedBy_assoc, List.cons_append, eachInPlace]
      exact congrArg _ (funext ih)

theorem length_eachInPlace (items : List α) (state : σ) :
    (eachInPlace items (fun item _ => walk item) state).value.length = items.length := by
  induction items generalizing state with
  | nil => rfl
  | cons item rest ih =>
      rw [eachInPlace]
      cases walk item state with
      | mk value failure? middle =>
        cases failure? with
        | some failure => rfl
        | none => exact congrArg Nat.succ (ih middle)

/-- Each item stands where it stood, and is related to what stood there if every step keeps to
that. -/
theorem forall₂_eachInPlace {related : α → α → Prop} (unchanged : ∀ item, related item item)
    (each : ∀ item state, related item (walk item state).value) (items : List α) (state : σ) :
    List.Forall₂ related items (eachInPlace items (fun item _ => walk item) state).value := by
  induction items generalizing state with
  | nil => exact .nil
  | cons item rest ih =>
      have first := each item state
      rw [eachInPlace]
      cases found : walk item state with
      | mk value failure? middle =>
        rw [found] at first
        cases failure? with
        | some failure => exact .cons first (List.forall₂_same.2 fun other _ => unchanged other)
        | none => exact .cons first (ih middle)

/-- A run over items comes to what a walk in place comes to, if each step does. -/
theorem runFrom_mapM {step : α → ExceptT ε (StateM σ) α}
    (each : ∀ item ∈ items, ∀ state, runFrom (step item) state = (walk item state).outcome)
    (state : σ) :
    runFrom (items.mapM step) state =
      (eachInPlace items (fun item _ => walk item) state).outcome := by
  induction items generalizing state with
  | nil => rfl
  | cons item rest ih =>
      rw [List.forall_mem_cons] at each
      have first := each.1 state
      rw [List.mapM_cons, eachInPlace]
      cases found : walk item state with
      | mk value failure? middle =>
        rw [found] at first
        cases failure? with
        | some failure =>
            rw [runFrom_bind_of_error first]
            rfl
        | none =>
            rw [runFrom_bind_of_ok first, ← map_eq_pure_bind, runFrom_map, ih each.2]
            exact (Standing.outcome_map _ _).symm

end

namespace Expr

/-- A rewriting comes to what the rewriting in place comes to. -/
theorem runFrom_rewriteM (visit : Expr → ExceptT ε (StateM σ) (Option Expr)) (expr : Expr)
    (state : σ) :
    runFrom (rewriteM visit expr) state = (rewriteInPlace visit expr state).outcome := by
  induction expr using parts_induction generalizing state with
  | step expr ih =>
    rw [rewriteM_eq_mapM_parts, rewriteInPlace]
    cases visited : runFrom (visit expr) state with
    | mk result middle =>
      cases result with
      | error failure =>
          rw [runFrom_bind_of_error visited]
          rfl
      | ok answer =>
          rw [runFrom_bind_of_ok visited]
          cases answer with
          | some replacement => rfl
          | none =>
              rw [Option.elim_none, runFrom_map, runFrom_mapM ih]
              exact (Standing.outcome_map _ _).symm

/-! ## A callback that answers at columns alone -/

/-- A change in place of columns one after the other. -/
def changeInPlace (change : Column → ExceptT ε (StateM σ) Column) (columns : List Column)
    (state : σ) : Standing ε σ (List Column) :=
  eachInPlace columns (fun column _ state => .ofStep column (runFrom (change column) state)) state

variable {change : Column → ExceptT ε (StateM σ) Column}

theorem changeInPlace_append (before later : List Column) (state : σ) :
    changeInPlace change (before ++ later) state =
      (changeInPlace change before state).followedBy later (changeInPlace change later) :=
  eachInPlace_append before later state

theorem length_changeInPlace (columns : List Column) (state : σ) :
    (changeInPlace change columns state).value.length = columns.length :=
  length_eachInPlace columns state

/-- A run over columns comes to what changing them in place comes to. -/
theorem runFrom_mapM_eq_changeInPlace (columns : List Column) (state : σ) :
    runFrom (columns.mapM change) state = (changeInPlace change columns state).outcome :=
  runFrom_mapM (fun _ _ _ => (Standing.outcome_ofStep _ _).symm) state

/-- The columns in front of the one at which a change in place fails are changed, and no other. -/
theorem changeInPlace_of_failure {before later changed : List Column} {column : Column}
    {state between final : σ} {failure : ε}
    (done : runFrom (before.mapM change) state = (.ok changed, between))
    (failed : runFrom (change column) between = (.error failure, final)) :
    changeInPlace change (before ++ column :: later) state =
      ⟨changed ++ column :: later, some failure, final⟩ := by
  have first : changeInPlace change before state = ⟨changed, none, between⟩ :=
    Standing.eq_of_outcome_eq_ok ((runFrom_mapM_eq_changeInPlace _ _).symm.trans done)
  have second : changeInPlace change (column :: later) between =
      ⟨column :: later, some failure, final⟩ := by
    rw [changeInPlace, eachInPlace, failed]
    rfl
  rw [changeInPlace_append, first, Standing.followedBy, Option.elim_none, second]
  rfl

theorem eachInPlace_rewriteInPlace {exprs : List Expr}
    (each : ∀ expr ∈ exprs, ∀ state, rewriteInPlace (onColumns change) expr state =
      (changeInPlace change expr.columns state).map expr.withColumns) (state : σ) :
    eachInPlace exprs (fun expr _ => rewriteInPlace (onColumns change) expr) state =
      (changeInPlace change (exprs.flatMap columns) state).map (withColumnsEach exprs) := by
  induction exprs generalizing state with
  | nil => rfl
  | cons expr rest ih =>
      rw [List.forall_mem_cons] at each
      have size : (changeInPlace change expr.columns state).value.length = expr.columns.length :=
        length_changeInPlace expr.columns state
      rw [eachInPlace, each.1, List.flatMap_cons, changeInPlace_append]
      cases found : changeInPlace change expr.columns state with
      | mk left failure? middle =>
        rw [found] at size
        have put (later : List Column) := (refills expr).withColumnsEach_cons rest later size
        cases failure? with
        | some failure =>
            -- What comes later stays: it is itself with its own columns in their places.
            simp only [Standing.followedBy, Standing.map, Option.elim_some, put,
              withColumnsEach_columns fun expr _ => withColumns_columns expr, List.singleton_append]
        | none =>
            simp only [Standing.followedBy, Standing.map, Option.elim_none, put, ih each.2,
              List.singleton_append]

/-- A rewriting in place whose callback answers at columns alone changes the listed columns in place
and puts what stands then in their places. -/
theorem rewriteInPlace_onColumns (expr : Expr) (state : σ) :
    rewriteInPlace (onColumns change) expr state =
      (changeInPlace change expr.columns state).map expr.withColumns := by
  induction expr using parts_induction generalizing state with
  | step expr ih =>
    rw [rewriteInPlace, onColumns]
    cases node : expr.column? with
    | some found =>
        cases eq_column_of_column? node
        rw [Option.elim_some, runFrom_map, columns, changeInPlace, eachInPlace]
        obtain ⟨value | failure, final⟩ := runFrom (change found) state <;> rfl
    | none =>
        have visited : runFrom (pure none : ExceptT ε (StateM σ) (Option Expr)) state =
            (.ok none, state) := rfl
        rw [Option.elim_none, visited, columns_eq_flatMap_parts node, withColumns_of_node node]
        exact congrArg (Standing.map expr.withParts) (eachInPlace_rewriteInPlace ih state)

/-- Whether a callback changes the owners of columns alone. -/
def KeepsNames (change : Column → ExceptT ε (StateM σ) Column) : Prop :=
  ∀ column state changed final, runFrom (change column) state = (.ok changed, final) →
    changed.name = column.name

/-- What a rewriting in place leaves, be it stopped or not, is the expression with other owners. -/
theorem KeepsNames.alike_rewriteInPlace (kept : KeepsNames change) (expr : Expr) (state : σ) :
    Alike (fun column changed => changed.name = column.name) expr
      (rewriteInPlace (onColumns change) expr state).value := by
  have each : List.Forall₂ (fun column changed => changed.name = column.name) expr.columns
      (changeInPlace change expr.columns state).value := by
    refine forall₂_eachInPlace ?_ (fun column start => ?_) expr.columns state
    · exact fun column => rfl
    · cases come : runFrom (change column) start with
      | mk result final =>
        cases result with
        | error failure => rfl
        | ok changed => exact kept column start changed final come
  rw [rewriteInPlace_onColumns]
  exact alike_withColumns each

/-- Whatever is done at each column, a walk over columns and a rewriting that answers at columns
alone do it at the listed columns, once at each and in their order, and put what comes of it in
their places. A rewriting in place comes to the same. Where the callback changes owners alone
everything else stays, subqueries among it, and where it fails at a column the ones in front of that
are changed and no other. -/
theorem walks_change_listed_columns (expr : Expr) :
    (∀ (m : Type → Type) [Monad m] [LawfulMonad m] (change : Column → m Column),
      rewriteM (onColumns change) expr = expr.withColumns <$> expr.columns.mapM change ∧
        mapColumnsM change expr = expr.withColumns <$> expr.columns.mapM change) ∧
    (∀ (related : Column → Column → Prop) (others : List Column),
      List.Forall₂ related expr.columns others →
        Alike related expr (expr.withColumns others) ∧
          (expr.withColumns others).columns = others) ∧
    (∀ (ε σ : Type) (visit : Expr → ExceptT ε (StateM σ) (Option Expr)) (state : σ),
      runFrom (rewriteM visit expr) state = (rewriteInPlace visit expr state).outcome) ∧
    ∀ (ε σ : Type) (change : Column → ExceptT ε (StateM σ) Column) (state : σ),
      (KeepsNames change → Alike (fun column changed => changed.name = column.name) expr
        (rewriteInPlace (onColumns change) expr state).value) ∧
      ∀ (before : List Column) (column : Column) (later changed : List Column) (between final : σ)
        (failure : ε), expr.columns = before ++ column :: later →
        runFrom (before.mapM change) state = (.ok changed, between) →
        runFrom (change column) between = (.error failure, final) →
          rewriteInPlace (onColumns change) expr state =
            ⟨expr.withColumns (changed ++ column :: later), some failure, final⟩ := by
  refine ⟨fun m _ _ change => ?_,
    fun related others suited =>
      ⟨alike_withColumns suited, columns_withColumns suited.length_eq.symm⟩,
    fun ε σ visit state => runFrom_rewriteM visit expr state, fun ε σ change state => ?_⟩
  · rw [rewriteM_onColumns, mapColumnsM_eq_mapM_columns]
    exact ⟨rfl, rfl⟩
  · refine ⟨fun kept => kept.alike_rewriteInPlace expr state, ?_⟩
    intro before column later changed between final failure listed done failed
    rw [rewriteInPlace_onColumns, listed, changeInPlace_of_failure done failed]
    rfl

end Expr
end SemanticLayer.Sql

namespace SemanticLayer.Planner

open Sql

/-- Qualification among payments and customers, which counts the columns it is asked for. -/
def qualifyPaymentColumn (column : Column) : ExceptT Error (StateM Nat) Column :=
  ExceptT.mk (modifyGet fun calls =>
    (qualifyColumn (NodeNames.ofSelect amountsByCountry paymentNodes) paymentNodes column,
      calls + 1))

theorem keepsNames_qualifyPaymentColumn : Expr.KeepsNames qualifyPaymentColumn :=
  fun _ _ _ _ come => name_of_qualifyColumn (congrArg Prod.fst come)

/-- Payments by their countries, over two columns with an owner or without. -/
def amountOrId (country amount : Column) : Expr :=
  .binary
    (.case none [.binary (.column country) .eq (.literal (.string "NL"))]
      [.call { value := "SUM" } none [.column amount] false] (some (.col "id")))
    .plus
    (.inList (.col "payer") [.subquery { select := { projection := [.col "amount"] } }] false)

/-- Qualification fails at `id`, which both nodes have. The columns in front of it have got their
owners then, and the ones behind it are left, the one in the subquery too. -/
theorem walks_change_listed_columns_amountOrId :
    let plain (name : String) : Column := { name := { value := name } }
    let expr := amountOrId (plain "country") (plain "amount")
    let left := amountOrId (columnOf { value := "customers" } "country")
      (columnOf { value := "p" } "amount")
    Expr.rewriteM (Expr.onColumns qualifyPaymentColumn) expr =
        Expr.mapColumnsM qualifyPaymentColumn expr ∧
      expr.columns = [plain "country", plain "amount"] ++ plain "id" :: [plain "payer"] ∧
      runFrom ([plain "country", plain "amount"].mapM qualifyPaymentColumn) 0 =
        (.ok [columnOf { value := "customers" } "country", columnOf { value := "p" } "amount"], 2) ∧
      runFrom (qualifyPaymentColumn (plain "id")) 2 = (.error (.ambiguousColumn "id"), 3) ∧
      Expr.rewriteInPlace (Expr.onColumns qualifyPaymentColumn) expr 0 =
        ⟨left, some (.ambiguousColumn "id"), 3⟩ ∧
      Expr.Alike (fun column changed => changed.name = column.name) expr left := by
  intro plain expr left
  obtain ⟨same, put, ran, changes⟩ := Expr.walks_change_listed_columns expr
  obtain ⟨rewritten, walked⟩ := same (ExceptT Error (StateM Nat)) qualifyPaymentColumn
  obtain ⟨alike, stops⟩ := changes Error Nat qualifyPaymentColumn 0
  have listed : expr.columns = [plain "country", plain "amount"] ++ plain "id" :: [plain "payer"] :=
    rfl
  have done : runFrom ([plain "country", plain "amount"].mapM qualifyPaymentColumn) 0 =
      (.ok [columnOf { value := "customers" } "country", columnOf { value := "p" } "amount"], 2) :=
    rfl
  have failed : runFrom (qualifyPaymentColumn (plain "id")) 2 =
      (.error (.ambiguousColumn "id"), 3) :=
    rfl
  have stopped : Expr.rewriteInPlace (Expr.onColumns qualifyPaymentColumn) expr 0 =
      ⟨left, some (.ambiguousColumn "id"), 3⟩ :=
    stops _ _ _ _ _ _ _ listed done failed
  have kept := alike keepsNames_qualifyPaymentColumn
  rw [stopped] at kept
  exact ⟨rewritten.trans walked.symm, listed, done, failed, stopped, kept⟩

end SemanticLayer.Planner
