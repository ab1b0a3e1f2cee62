import SemanticLayer.Proofs.Qualifiers
import SemanticLayer.Proofs.Substitution
import SemanticLayer.Proofs.Walks

/-!
# Alike apart from columns

Two expressions are alike if they differ in their columns alone, outside of subqueries, and the
columns in the same place are related. What a walk over columns makes of an expression is alike to
it, and walks do the same to alike expressions if they do the same to related columns.
-/

namespace SemanticLayer.Sql

section

variable (related : Column → Column → Prop)

mutual

/-- Whether two expressions are the same apart from columns, which are related. Subqueries are the
same. -/
inductive Expr.Alike : Expr → Expr → Prop
  | column {c d : Column} (here : related c d) : Expr.Alike (.column c) (.column d)
  | literal (value : Literal) : Expr.Alike (.literal value) (.literal value)
  | wildcard (path : Option Path) : Expr.Alike (.wildcard path) (.wildcard path)
  | subquery (query : Query) : Expr.Alike (.subquery query) (.subquery query)
  | binary {left left' right right' : Expr} (op : BinaryOp) (first : Expr.Alike left left')
      (second : Expr.Alike right right') :
      Expr.Alike (.binary left op right) (.binary left' op right')
  | unary {operand operand' : Expr} (op : UnaryOp) (inner : Expr.Alike operand operand') :
      Expr.Alike (.unary op operand) (.unary op operand')
  | call {args args' : List Expr} (name : Name) (path : Option Path) (distinct : Bool)
      (inner : Expr.AlikeList args args') :
      Expr.Alike (.call name path args distinct) (.call name path args' distinct)
  | case {operand operand' otherwise otherwise' : Option Expr}
      {conditions conditions' results results' : List Expr}
      (first : Expr.AlikeOption operand operand') (second : Expr.AlikeList conditions conditions')
      (third : Expr.AlikeList results results') (last : Expr.AlikeOption otherwise otherwise') :
      Expr.Alike (.case operand conditions results otherwise)
        (.case operand' conditions' results' otherwise')
  | between {subject subject' low low' high high' : Expr} (negated : Bool)
      (first : Expr.Alike subject subject') (second : Expr.Alike low low')
      (third : Expr.Alike high high') :
      Expr.Alike (.between subject low high negated) (.between subject' low' high' negated)
  | isNull {subject subject' : Expr} (negated : Bool) (inner : Expr.Alike subject subject') :
      Expr.Alike (.isNull subject negated) (.isNull subject' negated)
  | inList {subject subject' : Expr} {items items' : List Expr} (negated : Bool)
      (first : Expr.Alike subject subject') (second : Expr.AlikeList items items') :
      Expr.Alike (.inList subject items negated) (.inList subject' items' negated)
  | aliased {child child' : Expr} (name : Name) (inner : Expr.Alike child child') :
      Expr.Alike (.aliased name child) (.aliased name child')
  | nested {child child' : Expr} (inner : Expr.Alike child child') :
      Expr.Alike (.nested child) (.nested child')

/-- Whether optional expressions are alike. -/
inductive Expr.AlikeOption : Option Expr → Option Expr → Prop
  | none : Expr.AlikeOption none none
  | some {expr other : Expr} (here : Expr.Alike expr other) :
      Expr.AlikeOption (some expr) (some other)

/-- Whether lists of expressions are alike, one by one. -/
inductive Expr.AlikeList : List Expr → List Expr → Prop
  | nil : Expr.AlikeList [] []
  | cons {expr other : Expr} {rest others : List Expr} (here : Expr.Alike expr other)
      (later : Expr.AlikeList rest others) : Expr.AlikeList (expr :: rest) (other :: others)

end

end

namespace Expr

variable {related : Column → Column → Prop}

/-! ## Alike parts -/

theorem alikeList_iff {exprs others : List Expr} :
    AlikeList related exprs others ↔ List.Forall₂ (Alike related) exprs others := by
  induction exprs generalizing others with
  | nil => exact ⟨fun alike => by cases alike; exact .nil, fun each => by cases each; exact .nil⟩
  | cons expr rest ih =>
      constructor
      · intro alike
        cases alike with
        | cons here later => exact .cons here (ih.1 later)
      · intro each
        cases each with
        | cons here later => exact .cons here (ih.2 later)

theorem AlikeOption.toList {expr? other? : Option Expr} (alike : AlikeOption related expr? other?) :
    List.Forall₂ (Alike related) expr?.toList other?.toList := by
  cases alike with
  | none => exact .nil
  | some here => exact .cons here .nil

theorem exists_alikeOption_of_forall₂ {expr? : Option Expr} {others : List Expr}
    (each : List.Forall₂ (Alike related) expr?.toList others) :
    ∃ other?, others = Option.toList other? ∧ AlikeOption related expr? other? := by
  cases expr? with
  | none =>
      cases each
      exact ⟨none, rfl, .none⟩
  | some expr =>
      rcases each with _ | ⟨here, _ | _⟩
      exact ⟨some _, rfl, .some here⟩

/-- An expression with alike parts is alike. -/
theorem Alike.withParts {expr : Expr} {others : List Expr} (node : expr.column? = none)
    (each : List.Forall₂ (Alike related) expr.parts others) :
    Alike related expr (expr.withParts others) := by
  cases expr with
  | column found => cases node
  | literal value => exact .literal value
  | wildcard path => exact .wildcard path
  | subquery query => exact .subquery query
  | binary left op right =>
      rcases each with _ | ⟨first, _ | ⟨second, _ | _⟩⟩
      exact .binary op first second
  | unary op operand =>
      rcases each with _ | ⟨inner, _ | _⟩
      exact .unary op inner
  | call name path args distinct =>
      rw [withParts_call]
      exact .call name path distinct (alikeList_iff.2 each)
  | case operand conditions results otherwise =>
      obtain ⟨_, _, rfl, before, last⟩ := Result.exists_append_of_forall₂ each
      obtain ⟨_, _, rfl, before, third⟩ := Result.exists_append_of_forall₂ before
      obtain ⟨_, _, rfl, first, second⟩ := Result.exists_append_of_forall₂ before
      obtain ⟨operand', rfl, operands⟩ := exists_alikeOption_of_forall₂ first
      obtain ⟨otherwise', rfl, others⟩ := exists_alikeOption_of_forall₂ last
      rw [withParts_case _ _ operands.toList.length_eq.symm second.length_eq.symm
        third.length_eq.symm]
      exact .case operands (alikeList_iff.2 second) (alikeList_iff.2 third) others
  | between subject low high negated =>
      rcases each with _ | ⟨first, _ | ⟨second, _ | ⟨third, _ | _⟩⟩⟩
      exact .between negated first second third
  | isNull subject negated =>
      rcases each with _ | ⟨inner, _ | _⟩
      exact .isNull negated inner
  | inList subject items negated =>
      rcases each with _ | ⟨first, second⟩
      exact .inList negated first (alikeList_iff.2 second)
  | aliased name child =>
      rcases each with _ | ⟨inner, _ | _⟩
      exact .aliased name inner
  | nested inner =>
      rcases each with _ | ⟨inner, _ | _⟩
      exact .nested inner

/-- What is alike to an expression has alike parts in the places of its own. -/
theorem Alike.exists_parts {expr other : Expr} (node : expr.column? = none)
    (alike : Alike related expr other) :
    ∃ others, List.Forall₂ (Alike related) expr.parts others ∧ other = expr.withParts others := by
  cases alike with
  | column => cases node
  | literal | wildcard | subquery => exact ⟨[], .nil, rfl⟩
  | binary op first second => exact ⟨[_, _], .cons first (.cons second .nil), rfl⟩
  | call name path distinct inner => exact ⟨_, alikeList_iff.1 inner, by rw [withParts_call]⟩
  | case first second third last =>
      have operand := first.toList
      have conditions := alikeList_iff.1 second
      have results := alikeList_iff.1 third
      exact ⟨_, List.rel_append (List.rel_append (List.rel_append operand conditions) results)
        last.toList, (withParts_case _ _ operand.length_eq.symm conditions.length_eq.symm
          results.length_eq.symm).symm⟩
  | between negated first second third =>
      exact ⟨[_, _, _], .cons first (.cons second (.cons third .nil)), rfl⟩
  | inList negated first second => exact ⟨_ :: _, .cons first (alikeList_iff.1 second), rfl⟩
  | unary _ inner | isNull _ inner | aliased _ inner | nested inner =>
      exact ⟨[_], .cons inner .nil, rfl⟩

theorem forall₂_withColumnsEach {exprs : List Expr}
    (each : ∀ expr ∈ exprs, ∀ others, List.Forall₂ related expr.columns others →
      Alike related expr (expr.withColumns others))
    {others : List Column} (suited : List.Forall₂ related (exprs.flatMap columns) others) :
    List.Forall₂ (Alike related) exprs (withColumnsEach exprs others) := by
  induction exprs generalizing others with
  | nil =>
      cases suited
      exact .nil
  | cons expr rest ih =>
      rw [List.forall_mem_cons] at each
      obtain ⟨before, after, rfl, first, second⟩ := Result.exists_append_of_forall₂ suited
      rw [(refills expr).withColumnsEach_cons rest after first.length_eq.symm]
      exact .cons (each.1 before first) (ih each.2 second)

/-- With related columns in the places of its own an expression is alike. -/
theorem alike_withColumns {expr : Expr} {others : List Column}
    (suited : List.Forall₂ related expr.columns others) :
    Alike related expr (expr.withColumns others) := by
  induction expr using parts_induction generalizing others with
  | step expr ih =>
    cases node : expr.column? with
    | some found =>
        cases eq_column_of_column? node
        obtain _ | ⟨here, _ | _⟩ := suited
        exact .column here
    | none =>
        rw [columns_eq_flatMap_parts node] at suited
        rw [withColumns_of_node node]
        exact .withParts node (forall₂_withColumnsEach (fun part member _ => ih part member) suited)

mutual

/-- The columns of alike expressions are related one by one. -/
theorem Alike.columns : {expr other : Expr} → Alike related expr other →
    List.Forall₂ related expr.columns other.columns
  | .column _, _, .column here => .cons here .nil
  | .literal _, _, .literal _ | .wildcard _, _, .wildcard _ | .subquery _, _, .subquery _ => .nil
  | .binary .., _, .binary _ first second => List.rel_append first.columns second.columns
  | .unary .., _, .unary _ inner => inner.columns
  | .call .., _, .call _ _ _ inner => inner.columns
  | .case .., _, .case first second third last =>
      List.rel_append (List.rel_append (List.rel_append first.columns second.columns)
        third.columns) last.columns
  | .between .., _, .between _ first second third =>
      List.rel_append (List.rel_append first.columns second.columns) third.columns
  | .isNull .., _, .isNull _ inner => inner.columns
  | .inList .., _, .inList _ first second => List.rel_append first.columns second.columns
  | .aliased .., _, .aliased _ inner => inner.columns
  | .nested _, _, .nested inner => inner.columns

theorem AlikeOption.columns : {expr? other? : Option Expr} → AlikeOption related expr? other? →
    List.Forall₂ related (columnsOfOption expr?) (columnsOfOption other?)
  | none, _, .none => .nil
  | some _, _, .some here => here.columns

theorem AlikeList.columns : {exprs others : List Expr} → AlikeList related exprs others →
    List.Forall₂ related (columnsOfList exprs) (columnsOfList others)
  | [], _, .nil => .nil
  | _ :: _, _, .cons here later => List.rel_append here.columns later.columns

end

/-! ## Walks over alike expressions -/

section

variable {m : Type → Type} [Monad m] {change another : Column → m Column}

mutual

/-- Walks that do the same to related columns do the same to alike expressions. -/
theorem Alike.mapColumnsM_eq (same : ∀ c d, related c d → change c = another d) :
    {expr other : Expr} → Alike related expr other →
      mapColumnsM change expr = mapColumnsM another other
  | .column _, _, .column here => by simp only [mapColumnsM, same _ _ here]
  | .literal _, _, .literal _ | .wildcard _, _, .wildcard _ | .subquery _, _, .subquery _ => rfl
  | .binary .., _, .binary _ first second => by
      simp only [mapColumnsM, first.mapColumnsM_eq same, second.mapColumnsM_eq same]
  | .unary .., _, .unary _ inner => by simp only [mapColumnsM, inner.mapColumnsM_eq same]
  | .call .., _, .call _ _ _ inner => by simp only [mapColumnsM, inner.mapColumnsM_eq same]
  | .case .., _, .case first second third last => by
      simp only [mapColumnsM, first.mapColumnsM_eq same, second.mapColumnsM_eq same,
        third.mapColumnsM_eq same, last.mapColumnsM_eq same]
  | .between .., _, .between _ first second third => by
      simp only [mapColumnsM, first.mapColumnsM_eq same, second.mapColumnsM_eq same,
        third.mapColumnsM_eq same]
  | .isNull .., _, .isNull _ inner => by simp only [mapColumnsM, inner.mapColumnsM_eq same]
  | .inList .., _, .inList _ first second => by
      simp only [mapColumnsM, first.mapColumnsM_eq same, second.mapColumnsM_eq same]
  | .aliased .., _, .aliased _ inner => by simp only [mapColumnsM, inner.mapColumnsM_eq same]
  | .nested _, _, .nested inner => by simp only [mapColumnsM, inner.mapColumnsM_eq same]

theorem AlikeOption.mapColumnsM_eq (same : ∀ c d, related c d → change c = another d) :
    {expr? other? : Option Expr} → AlikeOption related expr? other? →
      mapColumnsOfOptionM change expr? = mapColumnsOfOptionM another other?
  | none, _, .none => rfl
  | some _, _, .some here => by simp only [mapColumnsOfOptionM, here.mapColumnsM_eq same]

theorem AlikeList.mapColumnsM_eq (same : ∀ c d, related c d → change c = another d) :
    {exprs others : List Expr} → AlikeList related exprs others →
      mapColumnsOfListM change exprs = mapColumnsOfListM another others
  | [], _, .nil => rfl
  | _ :: _, _, .cons here later => by
      simp only [mapColumnsOfListM, here.mapColumnsM_eq same, later.mapColumnsM_eq same]

end

end

/-- Changes that make the same of related columns make the same of alike expressions. -/
theorem Alike.mapColumns_eq {change another : Column → Column}
    (same : ∀ c d, related c d → change c = another d) {expr other : Expr}
    (alike : Alike related expr other) : mapColumns change expr = mapColumns another other :=
  alike.mapColumnsM_eq (m := Id) fun c d here => congrArg pure (same c d here)

/-! ## What walks give -/

section

variable {change : Column → Result Column}

/-- What a walk gives is alike to what it starts from. -/
theorem alike_of_mapColumnsM {expr after : Expr} (done : mapColumnsM change expr = .ok after) :
    Alike (fun column changed => change column = .ok changed) expr after := by
  rw [mapColumnsM_eq_mapM_columns] at done
  obtain ⟨others, ran, rfl⟩ := Result.map_eq_ok.1 done
  exact alike_withColumns (Result.mapM_eq_ok_iff.1 ran)

/-- A walk gives an expression just if that is alike to the one it starts from, with changed
columns. -/
theorem mapColumnsM_eq_ok_iff {expr after : Expr} : mapColumnsM change expr = .ok after ↔
    Alike (fun column changed => change column = .ok changed) expr after := by
  refine ⟨alike_of_mapColumnsM, fun alike => ?_⟩
  have same : mapColumnsM change expr = mapColumnsM pure after :=
    alike.mapColumnsM_eq fun _ _ here => here
  rw [same, mapColumnsM_pure]
  rfl

end

/-! ## An expression beside what a change makes of it -/

section

variable {change : Column → Column}

/-- A changed expression is alike to the one it is made of just if every column is related to the
changed one. -/
theorem alike_mapColumns_iff {expr : Expr} :
    Alike related expr (expr.mapColumns change) ↔ ∀ c ∈ expr.columns, related c (change c) := by
  have listed : (∀ c ∈ expr.columns, related c (change c)) ↔
      List.Forall₂ related expr.columns (expr.columns.map change) := by
    rw [List.forall₂_map_right_iff, List.forall₂_same]
  rw [listed]
  constructor
  · intro alike
    rw [← columns_mapColumns]
    exact alike.columns
  · intro each
    rw [mapColumns_eq_withColumns]
    exact alike_withColumns each

end

theorem mapColumns_id : mapColumns id = id :=
  funext mapColumnsM_pure

/-- An expression is alike to itself if every column of it is related to itself. -/
theorem Alike.refl (expr : Expr) (same : ∀ c ∈ expr.columns, related c c) :
    Alike related expr expr := by
  have alike : Alike related expr (expr.withColumns expr.columns) :=
    alike_withColumns (List.forall₂_same.2 same)
  rwa [withColumns_columns] at alike

theorem AlikeOption.refl (expr? : Option Expr)
    (same : ∀ expr ∈ expr?, ∀ c ∈ expr.columns, related c c) : AlikeOption related expr? expr? := by
  cases expr? with
  | none => exact .none
  | some expr => exact .some (.refl expr (same expr rfl))

theorem AlikeList.refl (exprs : List Expr)
    (same : ∀ expr ∈ exprs, ∀ c ∈ expr.columns, related c c) : AlikeList related exprs exprs :=
  alikeList_iff.2 (List.forall₂_same.2 fun expr member => .refl expr (same expr member))

/-! ## Substitution in alike expressions -/

section

variable {stands : Column → Expr}

/-- Putting alike expressions for related columns gives alike expressions. -/
theorem Alike.substitute (each : ∀ c d, related c d → Alike related (stands c) (stands d))
    {expr other : Expr} (alike : Alike related expr other) :
    Alike related (expr.substitute stands) (other.substitute stands) := by
  induction expr using parts_induction generalizing other with
  | step expr ih =>
    cases node : expr.column? with
    | some found =>
        cases eq_column_of_column? node
        cases alike with
        | column here =>
          rw [substitute_column, substitute_column]
          exact each _ _ here
    | none =>
        -- Both sides are the expression with other parts, so alike parts are all that is needed.
        obtain ⟨others, parts, rfl⟩ := alike.exists_parts node
        have size : (expr.parts.map (Expr.substitute stands)).length = expr.parts.length :=
          List.length_map _
        have same : (others.map (Expr.substitute stands)).length =
            (expr.parts.map (Expr.substitute stands)).length := by
          rw [List.length_map, List.length_map, parts.length_eq]
        have put := (List.forall₂_and_left expr.parts others).2 ⟨ih, parts⟩
        rw [substitute_eq_withParts _ node,
          substitute_eq_withParts _ ((column?_withParts _ _).trans node),
          parts_withParts parts.length_eq.symm,
          withParts_withParts parts.length_eq.symm (List.length_map _),
          ← withParts_withParts size same]
        refine .withParts ((column?_withParts _ _).trans node) ?_
        rw [parts_withParts size, List.forall₂_map_left_iff, List.forall₂_map_right_iff]
        exact put.imp fun _ _ here => here.1 here.2

end

end Expr

/-! ## Alike SELECTs -/

section

variable (related : Column → Column → Prop)

/-- Whether two entries of ORDER BY are alike. -/
structure Ordering.Alike (ordering other : Ordering) : Prop where
  expr : ordering.expr.Alike related other.expr
  ascending : other.ascending = ordering.ascending
  nullsFirst : other.nullsFirst = ordering.nullsFirst

/-- Whether two joins are alike: of the same relation, on alike conditions. -/
structure Join.Alike (join other : Join) : Prop where
  kind : other.kind = join.kind
  relation : other.relation = join.relation
  on : Expr.AlikeOption related join.on other.on

/-- Whether two entries of FROM are alike. -/
structure Source.Alike (source other : Source) : Prop where
  primary : other.primary = source.primary
  joins : List.Forall₂ (Join.Alike related) source.joins other.joins

namespace Select

/-- Whether the clauses of two SELECTs are alike, FROM aside. -/
structure AlikeBesideFrom (select other : Select) : Prop where
  distinct : other.distinct = select.distinct
  projection : Expr.AlikeList related select.projection other.projection
  filter : Expr.AlikeOption related select.filter other.filter
  groupBy : Expr.AlikeList related select.groupBy other.groupBy
  having : Expr.AlikeOption related select.having other.having
  orderBy : List.Forall₂ (Ordering.Alike related) select.orderBy other.orderBy
  limit : other.limit = select.limit
  offset : other.offset = select.offset

/-- Whether two SELECTs are alike: they have the same relations in FROM, and their expressions, join
conditions among them, are alike. -/
structure Alike (select other : Select) : Prop extends AlikeBesideFrom related select other where
  sources : Option.Rel (List.Forall₂ (Source.Alike related)) select.sources other.sources

end Select

end

section

variable {related : Column → Column → Prop} {m : Type → Type} [Monad m]
  {change another : Column → m Column}

theorem Expr.AlikeOption.mapM_eq (same : ∀ c d, related c d → change c = another d)
    {expr? other? : Option Expr} (alike : AlikeOption related expr? other?) :
    expr?.mapM (mapColumnsM change) = other?.mapM (mapColumnsM another) := by
  cases alike with
  | none => rfl
  | some here => rw [Option.mapM_some, Option.mapM_some, here.mapColumnsM_eq same]

variable [LawfulMonad m]

theorem Expr.AlikeList.mapM_eq (same : ∀ c d, related c d → change c = another d)
    {exprs others : List Expr} (alike : AlikeList related exprs others) :
    exprs.mapM (mapColumnsM change) = others.mapM (mapColumnsM another) := by
  induction exprs generalizing others with
  | nil =>
      cases alike
      rfl
  | cons expr rest ih =>
      cases alike with
      | cons here later => rw [List.mapM_cons, List.mapM_cons, here.mapColumnsM_eq same, ih later]

theorem Ordering.Alike.mapM_eq (same : ∀ c d, related c d → change c = another d)
    {orderings others : List Ordering}
    (alike : List.Forall₂ (Ordering.Alike related) orderings others) :
    (orderings.mapM fun ordering => do
      pure { ordering with expr := ← Expr.mapColumnsM change ordering.expr }) =
    (others.mapM fun ordering => do
      pure { ordering with expr := ← Expr.mapColumnsM another ordering.expr }) := by
  induction alike with
  | nil => rfl
  | cons here _ ih =>
      rw [List.mapM_cons, List.mapM_cons, ih, here.expr.mapColumnsM_eq same, here.ascending,
        here.nullsFirst]

/-- Walks that do the same to related columns do the same to alike clauses. -/
theorem Select.AlikeBesideFrom.mapExprsM_eq (same : ∀ c d, related c d → change c = another d)
    {select other : Select} (alike : select.AlikeBesideFrom related other)
    (sources : other.sources = select.sources) :
    select.mapExprsM (Expr.mapColumnsM change) = other.mapExprsM (Expr.mapColumnsM another) := by
  rw [mapExprsM, mapExprsM, alike.projection.mapM_eq same, alike.filter.mapM_eq same,
    alike.groupBy.mapM_eq same, alike.having.mapM_eq same, Ordering.Alike.mapM_eq same alike.orderBy,
    alike.distinct, alike.limit, alike.offset, sources]

end

/-! ## A SELECT beside itself -/

theorem Join.Alike.refl {related : Column → Column → Prop} (join : Join)
    (same : ∀ on ∈ join.on, ∀ c ∈ on.columns, related c c) : join.Alike related join :=
  ⟨rfl, rfl, .refl join.on same⟩

/-- A SELECT is alike to itself if every column of it is related to itself. -/
theorem Select.Alike.refl {related : Column → Column → Prop} (select : Select)
    (same : ∀ c ∈ select.columns, related c c) : select.Alike related select := by
  have each : ∀ expr ∈ select.exprs, ∀ c ∈ expr.columns, related c c := fun expr shown c there =>
    same c (mem_columns.2 (.inl ⟨expr, shown, there⟩))
  have condition : ∀ expr ∈ select.conditions, ∀ c ∈ expr.columns, related c c :=
    fun expr shown c there => same c (mem_columns.2 (.inr ⟨expr, shown, there⟩))
  have list : ∀ exprs : List Expr, (∀ expr ∈ exprs, expr ∈ select.exprs) →
      Expr.AlikeList related exprs exprs := fun exprs among =>
    .refl exprs fun expr shown => each expr (among expr shown)
  have option : ∀ expr? : Option Expr, (∀ expr ∈ expr?, expr ∈ select.exprs) →
      Expr.AlikeOption related expr? expr? := fun expr? among =>
    .refl expr? fun expr shown => each expr (among expr shown)
  refine ⟨⟨rfl, list _ ?_, option _ ?_, list _ ?_, option _ ?_, List.forall₂_same.2 ?_, rfl, rfl⟩, ?_⟩
  · simp +contextual [exprs]
  · simp +contextual [exprs]
  · simp +contextual [exprs]
  · simp +contextual [exprs]
  · intro ordering shown
    refine ⟨.refl _ (each _ ?_), rfl, rfl⟩
    exact List.mem_append_right _ (List.mem_map_of_mem shown)
  · cases listed : select.sources with
    | none => exact .none
    | some sources =>
        refine .some (List.forall₂_same.2 fun source isSource =>
          ⟨rfl, List.forall₂_same.2 fun join isJoin => ?_⟩)
        refine .refl join fun on isOn => condition on ?_
        rw [conditions, listed]
        exact List.mem_flatMap.2 ⟨source, isSource, List.mem_filterMap.2 ⟨join, isJoin, isOn⟩⟩

/-! ## Walks that agree -/

section

variable {select : Select} {change another : Column → Result Column}

theorem Select.mapExprsM_congr (same : ∀ c ∈ select.columns, change c = another c) :
    select.mapExprsM (Expr.mapColumnsM change) = select.mapExprsM (Expr.mapColumnsM another) := by
  have alike : select.Alike (fun c d => c = d ∧ change c = another c) select :=
    .refl select fun c member => ⟨rfl, same c member⟩
  refine alike.mapExprsM_eq ?_ rfl
  rintro c d ⟨rfl, agree⟩
  exact agree

theorem Select.mapConditionsM_congr {change another : Expr → Result Expr}
    (same : ∀ on ∈ select.conditions, change on = another on) :
    select.mapConditionsM change = select.mapConditionsM another := by
  rw [mapConditionsM, mapConditionsM]
  cases listed : select.sources with
  | none => rfl
  | some sources =>
      have each : sources.mapM (Source.mapConditionsM change) =
          sources.mapM (Source.mapConditionsM another) := by
        refine Result.mapM_congr fun source isSource => ?_
        rw [Source.mapConditionsM, Source.mapConditionsM]
        refine congrArg (· >>= _) (Result.mapM_congr fun join isJoin => ?_)
        cases condition : join.on with
        | none => rfl
        | some on =>
            dsimp only
            rw [same on]
            rw [conditions, listed]
            exact List.mem_flatMap.2 ⟨source, isSource, List.mem_filterMap.2 ⟨join, isJoin, condition⟩⟩
      dsimp only
      rw [each]

/-- Walks that do the same to every column of a SELECT do the same. -/
theorem Select.walk_congr (same : ∀ c ∈ select.columns, change c = another c) :
    (do (← select.mapExprsM (Expr.mapColumnsM change)).mapConditionsM (Expr.mapColumnsM change)) =
      (do (← select.mapExprsM (Expr.mapColumnsM another)).mapConditionsM
            (Expr.mapColumnsM another)) := by
  rw [mapExprsM_congr same]
  cases done : select.mapExprsM (Expr.mapColumnsM another) with
  | error failure => rfl
  | ok middle =>
      refine mapConditionsM_congr fun on condition => ?_
      refine Expr.mapColumnsM_congr on fun c inside => same c (mem_columns.2 (.inr ⟨on, ?_, inside⟩))
      rwa [conditions, ← sources_of_mapExprsM done]

end

/-! ## The expressions and aliases of alike SELECTs -/

section

variable {related : Column → Column → Prop}

/-- The expressions of alike clauses are alike one by one. -/
theorem Select.AlikeBesideFrom.exprs {select other : Select}
    (alike : select.AlikeBesideFrom related other) :
    List.Forall₂ (Expr.Alike related) select.exprs other.exprs := by
  have orderings : List.Forall₂ (Expr.Alike related) (select.orderBy.map Ordering.expr)
      (other.orderBy.map Ordering.expr) :=
    List.forall₂_map_left_iff.2 (List.forall₂_map_right_iff.2 (alike.orderBy.imp fun _ _ here =>
      here.expr))
  exact List.rel_append (List.rel_append (List.rel_append (List.rel_append
    (Expr.alikeList_iff.1 alike.projection) alike.filter.toList)
      (Expr.alikeList_iff.1 alike.groupBy)) alike.having.toList) orderings

/-- The columns of alike clauses are related one by one. -/
theorem Select.AlikeBesideFrom.columns {select other : Select}
    (alike : select.AlikeBesideFrom related other) :
    List.Forall₂ related (select.exprs.flatMap Expr.columns) (other.exprs.flatMap Expr.columns) := by
  have each := alike.exprs
  generalize select.exprs = exprs, other.exprs = others at each
  induction each with
  | nil => exact .nil
  | cons here _ ih => exact List.rel_append here.columns ih

/-- Alike expressions have the same alias. -/
theorem Expr.Alike.aliasName?_eq {expr other : Expr} (alike : Alike related expr other) :
    other.aliasName? = expr.aliasName? := by
  cases alike <;> rfl

end

/-! ## What walks give of a SELECT -/

section

variable {change : Column → Result Column}

/-- Whether a walk gives one column for another. -/
abbrev Gives (change : Column → Result Column) (column changed : Column) : Prop :=
  change column = .ok changed

theorem Expr.mapM_eq_ok_iff_alikeList {exprs after : List Expr} :
    exprs.mapM (mapColumnsM change) = .ok after ↔ AlikeList (Gives change) exprs after := by
  simp only [Result.mapM_eq_ok_iff, mapColumnsM_eq_ok_iff, alikeList_iff]

theorem Expr.mapM_eq_ok_iff_alikeOption {expr? after? : Option Expr} :
    expr?.mapM (mapColumnsM change) = .ok after? ↔ AlikeOption (Gives change) expr? after? := by
  constructor
  · intro done
    cases expr? with
    | none =>
        cases Result.pure_eq_ok.1 done
        exact .none
    | some expr =>
        obtain ⟨after, here, rfl⟩ := Result.map_eq_ok.1 (done : some <$> _ = _)
        exact .some (alike_of_mapColumnsM here)
  · intro alike
    cases alike with
    | none => rfl
    | some here => exact Result.map_eq_ok.2 ⟨_, mapColumnsM_eq_ok_iff.2 here, rfl⟩

theorem Ordering.eq_ok_iff_alike {ordering after : Ordering} :
    (do pure { ordering with expr := ← Expr.mapColumnsM change ordering.expr }) = Except.ok after ↔
      ordering.Alike (Gives change) after := by
  obtain ⟨expr, ascending, nullsFirst⟩ := after
  rw [Result.bind_eq_ok]
  constructor
  · rintro ⟨expr, done, last⟩
    cases Result.pure_eq_ok.1 last
    exact ⟨Expr.alike_of_mapColumnsM done, rfl, rfl⟩
  · rintro ⟨alike, rfl, rfl⟩
    exact ⟨expr, Expr.mapColumnsM_eq_ok_iff.2 alike, rfl⟩

theorem Source.mapConditionsM_eq_ok_iff {source after : Source} :
    source.mapConditionsM (Expr.mapColumnsM change) = .ok after ↔
      source.Alike (Gives change) after := by
  obtain ⟨primary, joins⟩ := after
  rw [mapConditionsM, Result.bind_eq_ok]
  constructor
  · rintro ⟨changed, done, last⟩
    cases Result.pure_eq_ok.1 last
    refine ⟨rfl, (Result.mapM_eq_ok_iff.1 done).imp fun join other here => ?_⟩
    obtain ⟨kind, relation, on⟩ := join
    cases on with
    | none =>
        cases Result.pure_eq_ok.1 here
        exact ⟨rfl, rfl, .none⟩
    | some on =>
        obtain ⟨expr, walked, whole⟩ := Result.bind_eq_ok.1 here
        cases Result.pure_eq_ok.1 whole
        exact ⟨rfl, rfl, .some (Expr.alike_of_mapColumnsM walked)⟩
  · rintro ⟨rfl, each⟩
    refine ⟨joins, Result.mapM_eq_ok_iff.2 (each.imp fun join other here => ?_), rfl⟩
    obtain ⟨kind, relation, on⟩ := join
    obtain ⟨kind', relation', on'⟩ := other
    obtain ⟨rfl, rfl, alike⟩ := here
    cases alike with
    | none => rfl
    | some here => exact Result.bind_eq_ok.2 ⟨_, Expr.mapColumnsM_eq_ok_iff.2 here, rfl⟩

namespace Select

variable {select after : Select}

/-- A walk over the expressions outside of FROM gives just what is alike. -/
theorem mapExprsM_eq_ok_iff : select.mapExprsM (Expr.mapColumnsM change) = .ok after ↔
    select.AlikeBesideFrom (Gives change) after ∧ after.sources = select.sources := by
  rw [mapExprsM]
  simp only [Result.bind_eq_ok, Expr.mapM_eq_ok_iff_alikeList, Expr.mapM_eq_ok_iff_alikeOption,
    Result.pure_eq_ok]
  constructor
  · rintro ⟨projection, first, filter, second, groupBy, third, having, fourth, orderBy, fifth, rfl⟩
    simp only [Result.mapM_eq_ok_iff, Ordering.eq_ok_iff_alike] at fifth
    exact ⟨⟨rfl, first, second, third, fourth, fifth, rfl, rfl⟩, rfl⟩
  · rintro ⟨alike, same⟩
    obtain ⟨distinct, projection, sources, filter, groupBy, having, orderBy, limit, offset⟩ := after
    obtain ⟨rfl, projection, filter, groupBy, having, orderBy, rfl, rfl⟩ := alike
    cases same
    refine ⟨_, projection, _, filter, _, groupBy, _, having, _, ?_, rfl⟩
    simpa only [Result.mapM_eq_ok_iff, Ordering.eq_ok_iff_alike] using orderBy

/-- A walk over the join conditions gives just what is alike in FROM. -/
theorem mapConditionsM_eq_ok_iff : select.mapConditionsM (Expr.mapColumnsM change) = .ok after ↔
    ∃ sources, Option.Rel (List.Forall₂ (Source.Alike (Gives change))) select.sources sources ∧
      after = { select with sources } := by
  obtain ⟨distinct, projection, sources, filter, groupBy, having, orderBy, limit, offset⟩ := select
  constructor
  · intro done
    cases sources with
    | none =>
        cases Result.pure_eq_ok.1 done
        exact ⟨none, .none, rfl⟩
    | some sources =>
        obtain ⟨changed, each, last⟩ := Result.bind_eq_ok.1 done
        cases Result.pure_eq_ok.1 last
        simp only [Result.mapM_eq_ok_iff, Source.mapConditionsM_eq_ok_iff] at each
        exact ⟨some changed, .some each, rfl⟩
  · rintro ⟨changed, each, rfl⟩
    cases each with
    | none => rfl
    | some each =>
        refine Result.bind_eq_ok.2 ⟨_, ?_, rfl⟩
        simpa only [Result.mapM_eq_ok_iff, Source.mapConditionsM_eq_ok_iff] using each

/-- A walk over all columns gives just what is alike. -/
theorem walk_eq_ok_iff :
    (do (← select.mapExprsM (Expr.mapColumnsM change)).mapConditionsM (Expr.mapColumnsM change)) =
      Except.ok after ↔ select.Alike (Gives change) after := by
  rw [Result.bind_eq_ok]
  constructor
  · rintro ⟨middle, first, second⟩
    obtain ⟨alike, same⟩ := mapExprsM_eq_ok_iff.1 first
    obtain ⟨sources, each, rfl⟩ := mapConditionsM_eq_ok_iff.1 second
    rw [same] at each
    exact ⟨⟨alike.distinct, alike.projection, alike.filter, alike.groupBy, alike.having,
      alike.orderBy, alike.limit, alike.offset⟩, each⟩
  · intro alike
    obtain ⟨distinct, projection, sources, filter, groupBy, having, orderBy, limit, offset⟩ := after
    refine ⟨{ distinct, projection, sources := select.sources, filter, groupBy, having, orderBy,
              limit, offset }, mapExprsM_eq_ok_iff.2 ⟨?_, rfl⟩,
      mapConditionsM_eq_ok_iff.2 ⟨sources, alike.sources, rfl⟩⟩
    exact ⟨alike.distinct, alike.projection, alike.filter, alike.groupBy, alike.having,
      alike.orderBy, alike.limit, alike.offset⟩

end Select

end

/-! ## Walks back -/

/-- Changes every column of an entry of ORDER BY. -/
def Ordering.mapColumns (change : Column → Column) (ordering : Ordering) : Ordering :=
  { ordering with expr := ordering.expr.mapColumns change }

/-- Changes every column of a join condition. -/
def Join.mapColumns (change : Column → Column) (join : Join) : Join :=
  { join with on := join.on.map (Expr.mapColumns change) }

/-- Changes every column of the join conditions of an entry of FROM. -/
def Source.mapColumns (change : Column → Column) (source : Source) : Source :=
  { source with joins := source.joins.map (Join.mapColumns change) }

/-- Changes every column of a SELECT outside of subqueries, and nothing else. -/
def Select.mapColumns (change : Column → Column) (select : Select) : Select :=
  { select with
    projection := select.projection.map (Expr.mapColumns change)
    filter := select.filter.map (Expr.mapColumns change)
    groupBy := select.groupBy.map (Expr.mapColumns change)
    having := select.having.map (Expr.mapColumns change)
    orderBy := select.orderBy.map (Ordering.mapColumns change)
    sources := select.sources.map (List.map (Source.mapColumns change)) }

section

variable {related : Column → Column → Prop} {change another : Column → Column}

/-- Entries that become the same one by one become the same lists. -/
theorem map_eq_map_of_forall₂ {α : Type} {related : α → α → Prop} {change another : α → α}
    {items others : List α} (same : ∀ item other, related item other → change item = another other)
    (each : List.Forall₂ related items others) : items.map change = others.map another := by
  induction each with
  | nil => rfl
  | cons here _ ih => rw [List.map_cons, List.map_cons, same _ _ here, ih]

theorem Expr.AlikeList.map_mapColumns_eq (same : ∀ c d, related c d → change c = another d)
    {exprs others : List Expr} (alike : AlikeList related exprs others) :
    exprs.map (Expr.mapColumns change) = others.map (Expr.mapColumns another) :=
  map_eq_map_of_forall₂ (fun _ _ here => here.mapColumns_eq same) (alikeList_iff.1 alike)

theorem Expr.AlikeOption.map_mapColumns_eq (same : ∀ c d, related c d → change c = another d)
    {expr? other? : Option Expr} (alike : AlikeOption related expr? other?) :
    expr?.map (Expr.mapColumns change) = other?.map (Expr.mapColumns another) := by
  cases alike with
  | none => rfl
  | some here => rw [Option.map_some, Option.map_some, here.mapColumns_eq same]

theorem Ordering.Alike.mapColumns_eq (same : ∀ c d, related c d → change c = another d)
    {ordering other : Ordering} (alike : ordering.Alike related other) :
    ordering.mapColumns change = other.mapColumns another := by
  rw [mapColumns, mapColumns, alike.expr.mapColumns_eq same, alike.ascending, alike.nullsFirst]

theorem Join.Alike.mapColumns_eq (same : ∀ c d, related c d → change c = another d)
    {join other : Join} (alike : join.Alike related other) :
    join.mapColumns change = other.mapColumns another := by
  rw [mapColumns, mapColumns, alike.on.map_mapColumns_eq same, alike.kind, alike.relation]

theorem Source.Alike.mapColumns_eq (same : ∀ c d, related c d → change c = another d)
    {source other : Source} (alike : source.Alike related other) :
    source.mapColumns change = other.mapColumns another := by
  rw [mapColumns, mapColumns, alike.primary,
    map_eq_map_of_forall₂ (fun _ _ here => here.mapColumns_eq same) alike.joins]

/-- Changes that make the same of related columns make the same of alike SELECTs. -/
theorem Select.Alike.mapColumns_eq (same : ∀ c d, related c d → change c = another d)
    {select other : Select} (alike : select.Alike related other) :
    select.mapColumns change = other.mapColumns another := by
  have sources : select.sources.map (List.map (Source.mapColumns change)) =
      other.sources.map (List.map (Source.mapColumns another)) := by
    have each := alike.sources
    generalize select.sources = written, other.sources = changed at each
    cases each with
    | none => rfl
    | some each =>
        exact congrArg some
          (map_eq_map_of_forall₂ (fun _ _ here => here.mapColumns_eq same) each)
  rw [mapColumns, mapColumns, alike.projection.map_mapColumns_eq same,
    alike.filter.map_mapColumns_eq same, alike.groupBy.map_mapColumns_eq same,
    alike.having.map_mapColumns_eq same,
    map_eq_map_of_forall₂ (fun _ _ here => here.mapColumns_eq same) alike.orderBy, sources,
    alike.distinct, alike.limit, alike.offset]

end

/-- A change that leaves every column alone leaves the SELECT alone. -/
theorem Select.mapColumns_id (select : Select) : select.mapColumns id = select := by
  obtain ⟨distinct, projection, sources, filter, groupBy, having, orderBy, limit, offset⟩ := select
  have expr := Expr.mapColumns_id
  have ordering : Ordering.mapColumns id = id := by
    funext ordering
    rw [Ordering.mapColumns, expr]
    cases ordering
    rfl
  have join : Join.mapColumns id = id := by
    funext join
    rw [Join.mapColumns, expr, Option.map_id]
    cases join
    rfl
  have source : Source.mapColumns id = id := by
    funext source
    rw [Source.mapColumns, join, List.map_id]
    cases source
    rfl
  simp only [mapColumns, expr, ordering, source, List.map_id, Option.map_id, List.map_id_fun, id_eq]

/-- A change that gives back related columns gives back the SELECT they are from. -/
theorem Select.Alike.mapColumns_eq_self {related : Column → Column → Prop}
    {change : Column → Column} (back : ∀ c d, related c d → change d = c) {select other : Select}
    (alike : select.Alike related other) : other.mapColumns change = select := by
  have same : select.mapColumns id = other.mapColumns change :=
    alike.mapColumns_eq fun c d here => (back c d here).symm
  rw [← same, mapColumns_id]

end SemanticLayer.Sql
