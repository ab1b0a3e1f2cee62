import SemanticLayer.Sql.Expr
import SemanticLayer.Sql.Reading
import SemanticLayer.Sql.Select
import SemanticLayer.Proofs.Refilling

/-!
# Ways to fail

Which errors a computation can fail with: those of its steps and no others. Reading a query from
text fails with a fault of the text and with nothing else, and a walk over a query fails as the
changes fail that it makes.
-/

namespace SemanticLayer

namespace Result

variable {α β : Type} {allowed : Error → Prop}

/-- Whether a computation fails with some errors only. -/
def FailsWith (allowed : Error → Prop) (run : Result α) : Prop :=
  ∀ error, run = .error error → allowed error

namespace FailsWith

theorem ok (value : α) : FailsWith allowed (.ok value) :=
  fun _ failed => nomatch failed

theorem pure (value : α) : FailsWith allowed (Pure.pure value) :=
  ok value

theorem error {failure : Error} (known : allowed failure) :
    FailsWith allowed (.error failure : Result α) := by
  intro other failed
  cases failed
  exact known

theorem mono {run : Result α} {others : Error → Prop} (fails : run.FailsWith allowed)
    (weaker : ∀ error, allowed error → others error) : run.FailsWith others :=
  fun error failed => weaker error (fails error failed)

/-- What comes after a step has to be looked at only for the results of the step. -/
theorem bind {run : Result α} {next : α → Result β} (fails : run.FailsWith allowed)
    (later : ∀ value, run = .ok value → (next value).FailsWith allowed) :
    (run >>= next).FailsWith allowed := by
  cases run with
  | ok value => exact later value rfl
  | error failure =>
      intro other failed
      cases failed
      exact fails failure rfl

theorem map {run : Result α} (fails : run.FailsWith allowed) (change : α → β) :
    (change <$> run).FailsWith allowed := by
  cases run with
  | ok value => exact ok (change value)
  | error failure => exact error (fails failure rfl)

theorem mapM {items : List α} {step : α → Result β}
    (each : ∀ item ∈ items, (step item).FailsWith allowed) :
    (items.mapM step).FailsWith allowed := by
  induction items with
  | nil => exact pure []
  | cons item rest ih =>
      rw [List.mapM_cons]
      refine (each item List.mem_cons_self).bind fun _ _ => ?_
      exact (ih fun later member => each later (List.mem_cons_of_mem item member)).bind
        fun _ _ => pure _

theorem mapM_option {item? : Option α} {step : α → Result β}
    (each : ∀ item ∈ item?, (step item).FailsWith allowed) :
    (item?.mapM step).FailsWith allowed := by
  cases item? with
  | none => exact pure none
  | some item => exact (each item rfl).map some

/-- A run fails only as its steps fail from what was kept so far. -/
theorem foldlM {items : List α} {step : β → α → Result β} (kept : β → Prop) {start : β}
    (holds : kept start)
    (each : ∀ item ∈ items, ∀ state, kept state → (step state item).FailsWith allowed)
    (keeps : ∀ item ∈ items, ∀ state next, kept state → step state item = .ok next → kept next) :
    (items.foldlM step start).FailsWith allowed := by
  induction items generalizing start with
  | nil => exact pure start
  | cons item rest ih =>
      rw [List.foldlM_cons]
      refine (each item List.mem_cons_self start holds).bind fun next done => ?_
      apply ih (keeps item List.mem_cons_self start next holds done)
      · intro later member
        exact each later (List.mem_cons_of_mem item member)
      · intro later member
        exact keeps later (List.mem_cons_of_mem item member)

end FailsWith

end Result

open Result

/-- The faults of a text that is read as a query. -/
def Error.OfText : Error → Prop
  | .notImplemented _ | .invalidSql _ | .unreadableSql => True
  | _ => False

namespace Sql

theorem unsupported_failsWith {α : Type} (kind : String) :
    (unsupported kind : Result α).FailsWith Error.OfText :=
  .error trivial

theorem numberOf_failsWith (text : String) : (numberOf text).FailsWith Error.OfText := by
  rw [numberOf]
  split
  · exact .ok _
  · split
    · exact .ok _
    · exact .error trivial

theorem literalOf_failsWith : (value : Grammar.Value) → (literalOf value).FailsWith Error.OfText
  | .number text => numberOf_failsWith text
  | .string _ | .boolean _ | .null => .ok _
  | .marked _ _ => unsupported_failsWith _

theorem binaryOpOf_failsWith (op : Grammar.Operator) : (binaryOpOf op).FailsWith Error.OfText := by
  cases op with
  | other kind => exact unsupported_failsWith kind
  | _ => exact .ok _

theorem unaryOpOf_failsWith (op : Grammar.UnaryOperator) :
    (unaryOpOf op).FailsWith Error.OfText := by
  cases op with
  | other kind => exact unsupported_failsWith kind
  | _ => exact .ok _

theorem joinKindOf_failsWith (operator : Grammar.JoinOperator) :
    (joinKindOf operator).FailsWith Error.OfText := by
  rw [joinKindOf.eq_def]
  split
  any_goals exact .ok _
  exact unsupported_failsWith _

theorem countOf_failsWith (count : Grammar.Expr) : (countOf count).FailsWith Error.OfText := by
  rw [countOf.eq_def]
  split
  · split
    · exact .ok _
    · exact .error trivial
  · exact unsupported_failsWith _

theorem countOf?_failsWith (count? : Option Grammar.Expr) :
    (countOf? count?).FailsWith Error.OfText := by
  cases count? with
  | some count => exact (countOf_failsWith count).map some
  | none => exact .ok none

theorem distinctOf_failsWith (kept : Grammar.Distinct) :
    (distinctOf kept).FailsWith Error.OfText := by
  cases kept with
  | all | distinct => exact .ok _
  | on => exact unsupported_failsWith _

mutual

theorem exprOf_failsWith : (expr : Grammar.Expr) → (exprOf expr).FailsWith Error.OfText
  | .identifier _ | .compound _ _ => .ok _
  | .value value => (literalOf_failsWith value).map _
  | .binary left op right => by
      rw [exprOf]
      exact (exprOf_failsWith left).bind fun _ _ => (binaryOpOf_failsWith op).bind fun _ _ =>
        (exprOf_failsWith right).bind fun _ _ => .pure _
  | .pattern op negated _ subject pattern escape => by
      rw [exprOf.eq_def]
      split
      any_goals contradiction
      next same =>
        cases same
        exact (exprOf_failsWith subject).bind fun _ _ => (exprOf_failsWith pattern).bind
          fun _ _ => .pure _
      next => exact unsupported_failsWith _
  | .unary op operand => by
      rw [exprOf]
      exact (unaryOpOf_failsWith op).bind fun _ _ => (exprOf_failsWith operand).bind
        fun _ _ => .pure _
  | .call call => by
      rw [exprOf]
      exact callOf_failsWith call
  | .case operand conditions results otherwise => by
      rw [exprOf]
      exact (exprOf?_failsWith operand).bind fun _ _ => (exprsOf_failsWith conditions).bind
        fun _ _ => (exprsOf_failsWith results).bind fun _ _ => (exprOf?_failsWith otherwise).bind
          fun _ _ => .pure _
  | .between subject low high _ => by
      rw [exprOf]
      exact (exprOf_failsWith subject).bind fun _ _ => (exprOf_failsWith low).bind
        fun _ _ => (exprOf_failsWith high).bind fun _ _ => .pure _
  | .isNull subject => by
      rw [exprOf]
      exact (exprOf_failsWith subject).bind fun _ _ => .pure _
  | .isNotNull subject => by
      rw [exprOf]
      exact (exprOf_failsWith subject).bind fun _ _ => .pure _
  | .inList subject items _ => by
      rw [exprOf]
      exact (exprOf_failsWith subject).bind fun _ _ => (exprsOf_failsWith items).bind
        fun _ _ => .pure _
  | .nested inner => by
      rw [exprOf]
      exact (exprOf_failsWith inner).map _
  | .subquery query => by
      rw [exprOf]
      exact (queryOf_failsWith query).map _
  | .tuple _ | .test _ _ | .comparison _ _ _ | .inSubquery _ _ _ | .exists _ _ | .grouping _ _
  | .special _ _ => unsupported_failsWith _

theorem exprsOf_failsWith : (exprs : List Grammar.Expr) → (exprsOf exprs).FailsWith Error.OfText
  | [] => .ok _
  | first :: rest => by
      rw [exprsOf]
      exact (exprOf_failsWith first).bind fun _ _ => (exprsOf_failsWith rest).bind fun _ _ => .pure _

theorem exprOf?_failsWith : (expr? : Option Grammar.Expr) → (exprOf? expr?).FailsWith Error.OfText
  | some expr => by
      rw [exprOf?]
      exact (exprOf_failsWith expr).map _
  | none => .ok _

theorem callOf_failsWith : (call : Grammar.Call) → (callOf call).FailsWith Error.OfText
  | ⟨_, _, arguments, _, _, _, _⟩ => by
      rw [callOf]
      split
      · exact unsupported_failsWith _
      · exact (argumentsOf_failsWith arguments).bind fun _ _ => .pure _

theorem argumentsOf_failsWith : (arguments : Option Grammar.Arguments) →
    (argumentsOf arguments).FailsWith Error.OfText
  | none => .ok _
  | some (.query _) => unsupported_failsWith _
  | some (.list _ items _ _ _ _) => by
      rw [argumentsOf]
      exact (argumentListOf_failsWith items).bind fun _ _ => .pure _

theorem argumentOf_failsWith : (argument : Grammar.Argument) →
    (argumentOf argument).FailsWith Error.OfText
  | .expr expr => by
      rw [argumentOf]
      exact exprOf_failsWith expr
  | .wildcard | .qualifiedWildcard _ => .ok _
  | .named _ _ => unsupported_failsWith _

theorem argumentListOf_failsWith : (items : List Grammar.Argument) →
    (argumentListOf items).FailsWith Error.OfText
  | [] => .ok _
  | first :: rest => by
      rw [argumentListOf]
      exact (argumentOf_failsWith first).bind fun _ _ => (argumentListOf_failsWith rest).bind
        fun _ _ => .pure _

theorem orderingOf_failsWith : (ordering : Grammar.Ordering) →
    (orderingOf ordering).FailsWith Error.OfText
  | ⟨expr, _, _⟩ => by
      rw [orderingOf]
      exact (exprOf_failsWith expr).bind fun _ _ => .pure _

theorem orderingsOf_failsWith : (orderings : List Grammar.Ordering) →
    (orderingsOf orderings).FailsWith Error.OfText
  | [] => .ok _
  | first :: rest => by
      rw [orderingsOf]
      exact (orderingOf_failsWith first).bind fun _ _ => (orderingsOf_failsWith rest).bind
        fun _ _ => .pure _

theorem queryOf_failsWith : (query : Grammar.Query) → (queryOf query).FailsWith Error.OfText
  | ⟨_, ctes, body, orderBy, limit, _, offset, _, _, _⟩ => by
      rw [queryOf]
      refine (ctesOf_failsWith ctes).bind fun _ _ => (bodyOf_failsWith body).bind fun found _ => ?_
      cases found with
      | inr query => exact .pure _
      | inl select =>
          exact (orderingsOf_failsWith orderBy).bind fun _ _ => (countOf?_failsWith limit).bind
            fun _ _ => (countOf?_failsWith offset).bind fun _ _ => .pure _

theorem cteOf_failsWith : (cte : Grammar.Cte) → (cteOf cte).FailsWith Error.OfText
  | ⟨_, query, _⟩ => by
      rw [cteOf]
      exact (queryOf_failsWith query).bind fun _ _ => .pure _

theorem ctesOf_failsWith : (ctes : List Grammar.Cte) → (ctesOf ctes).FailsWith Error.OfText
  | [] => .ok _
  | first :: rest => by
      rw [ctesOf]
      exact (cteOf_failsWith first).bind fun _ _ => (ctesOf_failsWith rest).bind fun _ _ => .pure _

theorem bodyOf_failsWith : (body : Grammar.Body) → (bodyOf body).FailsWith Error.OfText
  | .select select => by
      rw [bodyOf]
      exact (selectOf_failsWith select).map _
  | .query query => by
      rw [bodyOf]
      exact (queryOf_failsWith query).map _
  | .combined _ _ _ _ | .values _ | .table _ | .change _ _ _ _ _ => unsupported_failsWith _

theorem selectOf_failsWith : (select : Grammar.Select) → (selectOf select).FailsWith Error.OfText
  | ⟨kept, _, _, projection, _, sources, _, filter, groupBy, groupModifiers, _, _, _, having, _,
      _⟩ => by
      rw [selectOf]
      exact (distinctOf_failsWith kept).bind fun _ _ => (itemsOf_failsWith projection).bind
        fun _ _ => (sourcesOf?_failsWith sources).bind fun _ _ =>
          (groupByOf_failsWith groupModifiers groupBy).bind fun _ _ =>
            (exprOf?_failsWith filter).bind fun _ _ => (exprOf?_failsWith having).bind
              fun _ _ => .pure _

theorem groupByOf_failsWith (modifiers : List String) : (keys? : Option (List Grammar.Expr)) →
    (groupByOf modifiers keys?).FailsWith Error.OfText
  | none => unsupported_failsWith _
  | some keys => by
      rw [groupByOf]
      split
      · exact exprsOf_failsWith keys
      · exact unsupported_failsWith _

theorem itemOf_failsWith : (item : Grammar.SelectItem) → (itemOf item).FailsWith Error.OfText
  | .unnamed expr => by
      rw [itemOf]
      exact exprOf_failsWith expr
  | .aliased expr _ => by
      rw [itemOf]
      exact (exprOf_failsWith expr).map _
  | .wildcard _ | .qualifiedWildcard _ _ => .ok _

theorem itemsOf_failsWith : (items : List Grammar.SelectItem) →
    (itemsOf items).FailsWith Error.OfText
  | [] => .ok _
  | first :: rest => by
      rw [itemsOf]
      exact (itemOf_failsWith first).bind fun _ _ => (itemsOf_failsWith rest).bind fun _ _ => .pure _

theorem sourcesOf?_failsWith : (sources : List Grammar.TableWithJoins) →
    (sourcesOf? sources).FailsWith Error.OfText
  | [] => .ok _
  | first :: rest => by
      rw [sourcesOf?]
      exact (sourceOf_failsWith first).bind fun _ _ => (sourcesOf?_failsWith rest).bind
        fun _ _ => .pure _

theorem sourceOf_failsWith : (source : Grammar.TableWithJoins) →
    (sourceOf source).FailsWith Error.OfText
  | ⟨relation, joins⟩ => by
      rw [sourceOf]
      exact (relationOf_failsWith relation).bind fun _ _ => (joinsOf_failsWith joins).bind
        fun _ _ => .pure _

theorem relationOf_failsWith : (factor : Grammar.TableFactor) →
    (relationOf factor).FailsWith Error.OfText
  | .table _ _ _ _ _ => .ok _
  | .derived _ query _ => by
      rw [relationOf]
      exact (queryOf_failsWith query).bind fun _ _ => .pure _
  | .nestedJoin _ _ | .function _ _ _ | .unnest _ _ | .tableFunction _ _ => unsupported_failsWith _

theorem joinOf_failsWith : (join : Grammar.Join) → (joinOf join).FailsWith Error.OfText
  | ⟨operator, relation, matching, _⟩ => by
      rw [joinOf]
      exact (joinKindOf_failsWith operator).bind fun _ _ => (conditionOf_failsWith matching).bind
        fun _ _ => (relationOf_failsWith relation).bind fun _ _ => .pure _

theorem conditionOf_failsWith : (matching : Option Grammar.Matching) →
    (conditionOf matching).FailsWith Error.OfText
  | none => .ok _
  | some (.on condition) => by
      rw [conditionOf]
      exact (exprOf_failsWith condition).map _
  | some (.using _) | some .natural => unsupported_failsWith _

theorem joinsOf_failsWith : (joins : List Grammar.Join) → (joinsOf joins).FailsWith Error.OfText
  | [] => .ok _
  | first :: rest => by
      rw [joinsOf]
      exact (joinOf_failsWith first).bind fun _ _ => (joinsOf_failsWith rest).bind fun _ _ => .pure _

end

theorem statementsOf_failsWith (text : String) (dialect : Option Dialect) :
    (statementsOf text dialect).FailsWith Error.OfText := by
  rw [statementsOf]
  split
  · exact .ok _
  · exact .error trivial

/-- A text that is not read as a query is at fault. -/
theorem Query.ofText_failsWith (text : String) (dialect : Option Dialect) :
    (Query.ofText text dialect).FailsWith Error.OfText := by
  refine FailsWith.bind ?_ fun query _ => queryOf_failsWith query
  refine (statementsOf_failsWith text dialect).bind fun found _ => ?_
  split
  · exact .ok _
  · exact .error trivial
  · exact .error trivial

/-! ## Walks -/

section

variable {allowed : Error → Prop} {change : Column → Result Column}

/-- A walk fails as what it does at the listed columns fails. -/
theorem Expr.mapColumnsM_failsWith {expr : Expr}
    (each : ∀ column ∈ expr.columns, (change column).FailsWith allowed) :
    (Expr.mapColumnsM change expr).FailsWith allowed := by
  rw [Expr.mapColumnsM_eq_mapM_columns]
  exact (FailsWith.mapM each).map _

end

variable {allowed : Error → Prop}

theorem Source.mapRelationsM_failsWith {change : Relation → Result Relation}
    (each : ∀ relation, (change relation).FailsWith allowed) (source : Source) :
    (source.mapRelationsM change).FailsWith allowed :=
  (each source.primary).bind fun _ _ =>
    (FailsWith.mapM fun join _ => (each join.relation).bind fun _ _ => .pure _).bind
      fun _ _ => .pure _

theorem Select.mapRelationsM_failsWith {change : Relation → Result Relation}
    (each : ∀ relation, (change relation).FailsWith allowed) (select : Select) :
    (select.mapRelationsM change).FailsWith allowed := by
  rw [mapRelationsM]
  split
  · exact .pure _
  · exact (FailsWith.mapM fun source _ => source.mapRelationsM_failsWith each).bind
      fun _ _ => .pure _

variable {change : Expr → Result Expr}

theorem Source.mapConditionsM_failsWith (source : Source)
    (each : ∀ join ∈ source.joins, ∀ on ∈ join.on, (change on).FailsWith allowed) :
    (source.mapConditionsM change).FailsWith allowed := by
  refine (FailsWith.mapM fun join member => ?_).bind fun _ _ => .pure _
  split
  next on condition => exact (each join member on condition).bind fun _ _ => .pure _
  · exact .pure _

theorem Select.mapConditionsM_failsWith (select : Select)
    (each : ∀ source ∈ select.sources.getD [], ∀ join ∈ source.joins, ∀ on ∈ join.on,
      (change on).FailsWith allowed) :
    (select.mapConditionsM change).FailsWith allowed := by
  rw [mapConditionsM]
  split
  · exact .pure _
  next sources listed =>
    rw [listed, Option.getD_some] at each
    exact (FailsWith.mapM fun source member =>
      source.mapConditionsM_failsWith (each source member)).bind fun _ _ => .pure _

theorem Select.mapExprsM_failsWith (select : Select)
    (each : ∀ expr ∈ select.exprs, (change expr).FailsWith allowed) :
    (select.mapExprsM change).FailsWith allowed := by
  simp only [exprs, List.mem_append, or_imp, forall_and, Option.mem_toList] at each
  obtain ⟨⟨⟨⟨projection, filter⟩, groupBy⟩, having⟩, orderBy⟩ := each
  rw [mapExprsM]
  refine (FailsWith.mapM projection).bind fun _ _ => ?_
  refine (FailsWith.mapM_option filter).bind fun _ _ => ?_
  refine (FailsWith.mapM groupBy).bind fun _ _ => ?_
  refine (FailsWith.mapM_option having).bind fun _ _ => ?_
  exact (FailsWith.mapM fun ordering member =>
    (orderBy ordering.expr (List.mem_map_of_mem member)).bind fun _ _ => .pure _).bind
      fun _ _ => .pure _

end Sql
end SemanticLayer
