import SemanticLayer.Proofs.Outcomes
import SemanticLayer.Sql.Expr

/-!
# The parts of an expression

The expressions right below an expression stand in one order, and others can be put in their places.
Each walk over an expression is a walk over its parts in that order which keeps everything else, so
what is to be shown of walks is shown of a list of parts and not for one kind of expression after
the other.
-/

namespace SemanticLayer.Sql.Expr

/-- The column that an expression is, if it is one. -/
def column? : Expr → Option Column
  | .column found => some found
  | _ => none

/-- The expressions right below an expression, from left to right. None is right below a
subquery. -/
def parts : Expr → List Expr
  | .column _ | .literal _ | .wildcard _ | .subquery _ => []
  | .binary left _ right => [left, right]
  | .unary _ operand => [operand]
  | .call _ _ args _ => args
  | .case operand conditions results otherwise =>
    operand.toList ++ conditions ++ results ++ otherwise.toList
  | .between subject low high _ => [subject, low, high]
  | .isNull subject _ => [subject]
  | .inList subject items _ => subject :: items
  | .aliased _ child => [child]
  | .nested inner => [inner]

/-- The expression with others in the places of its parts, of which there are as many. -/
def withParts : Expr → List Expr → Expr
  | .binary _ op _, [left, right] => .binary left op right
  | .unary op _, [operand] => .unary op operand
  | .call name path _ distinct, args => .call name path args distinct
  | .case operand conditions results _, others =>
    let afterOperand := others.drop operand.toList.length
    let afterConditions := afterOperand.drop conditions.length
    .case (others.take operand.toList.length).head? (afterOperand.take conditions.length)
      (afterConditions.take results.length) (afterConditions.drop results.length).head?
  | .between _ _ _ negated, [subject, low, high] => .between subject low high negated
  | .isNull _ negated, [subject] => .isNull subject negated
  | .inList _ _ negated, subject :: items => .inList subject items negated
  | .aliased name _, [child] => .aliased name child
  | .nested _, [inner] => .nested inner
  | expr, _ => expr

theorem eq_column_of_column? {expr : Expr} {found : Column} (here : expr.column? = some found) :
    expr = .column found := by
  cases expr with
  | column other => exact congrArg Expr.column (Option.some.inj here)
  | _ => cases here

/-! ## Other parts -/

theorem withParts_call (name : Name) (path : Option Path) (args : List Expr) (distinct : Bool) :
    withParts (.call name path args distinct) = fun others => .call name path others distinct := by
  funext others
  rw [withParts]

theorem withParts_case {operand operand' : Option Expr} (otherwise otherwise' : Option Expr)
    {conditions conditions' results results' : List Expr}
    (first : operand'.toList.length = operand.toList.length)
    (second : conditions'.length = conditions.length) (third : results'.length = results.length) :
    withParts (.case operand conditions results otherwise)
        (operand'.toList ++ conditions' ++ results' ++ otherwise'.toList) =
      .case operand' conditions' results' otherwise' := by
  have single (expr? : Option Expr) : expr?.toList.head? = expr? := by cases expr? <;> rfl
  simp only [withParts, List.append_assoc, ← first, ← second, ← third, List.take_left,
    List.drop_left, single]

/-- With its own parts in their places an expression is itself. -/
theorem withParts_parts (expr : Expr) : expr.withParts expr.parts = expr := by
  cases expr with
  | case operand conditions results otherwise => exact withParts_case _ _ rfl rfl rfl
  | call name path args distinct => rw [withParts_call, parts]
  | _ => rfl

theorem toList_head?_of_length_le_one {α : Type} {items : List α} (short : items.length ≤ 1) :
    items.head?.toList = items := by
  rcases items with _ | ⟨item, _ | ⟨other, rest⟩⟩
  · rfl
  · rfl
  · simp at short

/-- What is put in the places of the parts are the parts then. -/
theorem parts_withParts {expr : Expr} {others : List Expr}
    (size : others.length = expr.parts.length) : (expr.withParts others).parts = others := by
  cases expr with
  | case operand conditions results otherwise =>
      have single (expr? : Option Expr) : expr?.toList.length ≤ 1 := by cases expr? <;> simp
      have first := single operand
      have last := single otherwise
      simp only [parts, List.length_append] at size
      rw [withParts, parts, toList_head?_of_length_le_one, toList_head?_of_length_le_one]
      · simp only [List.append_assoc, List.take_append_drop]
      · simp only [List.length_drop]
        omega
      · simp only [List.length_take]
        omega
  | call name path args distinct => rw [withParts, parts]
  | inList subject items negated =>
      rcases others with _ | ⟨other, rest⟩
      · cases size
      · rfl
  | column | literal | wildcard | subquery =>
      obtain rfl := List.length_eq_zero_iff.1 size
      rfl
  | unary | isNull | aliased | nested =>
      obtain ⟨_, rfl⟩ := List.length_eq_one_iff.1 size
      rfl
  | binary =>
      obtain ⟨_, _, rfl⟩ := List.length_eq_two.1 size
      rfl
  | between =>
      obtain ⟨_, _, _, rfl⟩ := List.length_eq_three.1 size
      rfl

/-- Of what is put in the places of the parts one after the other the last counts. -/
theorem withParts_withParts {expr : Expr} {others last : List Expr}
    (size : others.length = expr.parts.length) (again : last.length = others.length) :
    (expr.withParts others).withParts last = expr.withParts last := by
  cases expr with
  | case operand conditions results otherwise =>
      have single : operand.toList.length ≤ 1 := by cases operand <;> simp
      simp only [parts, List.length_append] at size
      have first : (others.take operand.toList.length).head?.toList.length =
          operand.toList.length := by
        rw [toList_head?_of_length_le_one] <;> simp only [List.length_take] <;> omega
      have second : ((others.drop operand.toList.length).take conditions.length).length =
          conditions.length := by
        simp only [List.length_take, List.length_drop]
        omega
      have third : (((others.drop operand.toList.length).drop conditions.length).take
          results.length).length = results.length := by
        simp only [List.length_take, List.length_drop]
        omega
      simp only [withParts, first, second, third]
  | call name path args distinct => rw [withParts_call, withParts_call]
  | inList subject items negated =>
      rcases others with _ | ⟨other, rest⟩
      · cases size
      · rcases last with _ | ⟨other', rest'⟩
        · cases again
        · rfl
  | column | literal | wildcard | subquery => rfl
  | unary | isNull | aliased | nested =>
      obtain ⟨_, rfl⟩ := List.length_eq_one_iff.1 size
      obtain ⟨_, rfl⟩ := List.length_eq_one_iff.1 again
      rfl
  | binary =>
      obtain ⟨_, _, rfl⟩ := List.length_eq_two.1 size
      obtain ⟨_, _, rfl⟩ := List.length_eq_two.1 again
      rfl
  | between =>
      obtain ⟨_, _, _, rfl⟩ := List.length_eq_three.1 size
      obtain ⟨_, _, _, rfl⟩ := List.length_eq_three.1 again
      rfl

theorem column?_withParts (expr : Expr) (others : List Expr) :
    (expr.withParts others).column? = expr.column? := by
  rw [column?.eq_def, column?.eq_def]
  fun_cases withParts expr others <;> rfl

/-! ## Induction over parts -/

theorem sizeOf_lt_of_mem_parts {expr part : Expr} (member : part ∈ expr.parts) :
    sizeOf part < sizeOf expr := by
  cases expr with
  | column _ | literal _ | wildcard _ | subquery _ => cases member
  | binary left op right =>
      simp only [parts, List.mem_cons, List.not_mem_nil, or_false] at member
      rcases member with rfl | rfl <;> simp only [binary.sizeOf_spec] <;> omega
  | between subject low high negated =>
      simp only [parts, List.mem_cons, List.not_mem_nil, or_false] at member
      rcases member with rfl | rfl | rfl <;> simp only [between.sizeOf_spec] <;> omega
  | unary op operand =>
      cases List.mem_singleton.1 member
      simp only [unary.sizeOf_spec]
      omega
  | isNull subject negated =>
      cases List.mem_singleton.1 member
      simp only [isNull.sizeOf_spec]
      omega
  | aliased name child =>
      cases List.mem_singleton.1 member
      simp only [aliased.sizeOf_spec]
      omega
  | nested inner =>
      cases List.mem_singleton.1 member
      simp only [nested.sizeOf_spec]
      omega
  | call name path args distinct =>
      have inside := List.sizeOf_lt_of_mem (show part ∈ args from member)
      simp only [call.sizeOf_spec]
      omega
  | inList subject items negated =>
      simp only [inList.sizeOf_spec]
      rcases List.mem_cons.1 member with rfl | here
      · omega
      · have inside := List.sizeOf_lt_of_mem here
        omega
  | case operand conditions results otherwise =>
      simp only [parts, List.mem_append, Option.mem_toList] at member
      simp only [case.sizeOf_spec]
      rcases member with ((rfl | here) | here) | rfl
      · simp only [Option.some.sizeOf_spec]
        omega
      · have inside := List.sizeOf_lt_of_mem here
        omega
      · have inside := List.sizeOf_lt_of_mem here
        omega
      · simp only [Option.some.sizeOf_spec]
        omega

/-- What holds of an expression if it holds of its parts holds of every expression. -/
theorem parts_induction {motive : Expr → Prop}
    (step : ∀ expr, (∀ part ∈ expr.parts, motive part) → motive expr) (expr : Expr) :
    motive expr :=
  step expr fun part _ => parts_induction step part
termination_by expr
decreasing_by exact sizeOf_lt_of_mem_parts ‹_›

/-! ## Columns of the parts -/

theorem columnsOfList_eq_flatMap (exprs : List Expr) :
    columnsOfList exprs = exprs.flatMap columns := by
  induction exprs with
  | nil => rfl
  | cons expr rest ih => rw [columnsOfList, List.flatMap_cons, ih]

theorem columnsOfOption_eq_flatMap (expr? : Option Expr) :
    columnsOfOption expr? = expr?.toList.flatMap columns := by
  cases expr? with
  | none => rfl
  | some expr => simp [columnsOfOption]

/-- The columns of an expression that is none are those of its parts. -/
theorem columns_eq_flatMap_parts {expr : Expr} (node : expr.column? = none) :
    expr.columns = expr.parts.flatMap columns := by
  cases expr with
  | column found => cases node
  | case operand conditions results otherwise =>
      rw [columns, columnsOfOption_eq_flatMap, columnsOfList_eq_flatMap, columnsOfList_eq_flatMap,
        columnsOfOption_eq_flatMap]
      simp only [parts, List.flatMap_append]
  | _ => simp [columns, parts, columnsOfList_eq_flatMap]

/-! ## Walks over the parts -/

variable {m : Type → Type} [Monad m] [LawfulMonad m]

theorem map_withParts_case (step : Expr → m Expr) (operand : Option Expr)
    (conditions results : List Expr) (otherwise : Option Expr) :
    withParts (.case operand conditions results otherwise) <$>
        (operand.toList ++ conditions ++ results ++ otherwise.toList).mapM step = (do
      let operand ← operand.mapM step
      let conditions ← conditions.mapM step
      let results ← results.mapM step
      let otherwise ← otherwise.mapM step
      pure (.case operand conditions results otherwise)) := by
  have optional (expr? : Option Expr) :
      expr?.toList.mapM step = Option.toList <$> expr?.mapM step := by
    cases expr? <;> simp
  simp only [List.mapM_append, optional, map_bind, bind_map_left, bind_assoc, pure_bind, map_pure]
  refine Result.optionMapM_bind_congr fun operand' first => ?_
  refine Result.mapM_bind_congr fun conditions' second => ?_
  refine Result.mapM_bind_congr fun results' third => ?_
  simp only [withParts_case _ _ first second third]

theorem rewriteOptionM_eq_mapM (visit : Expr → m (Option Expr)) (expr? : Option Expr) :
    rewriteOptionM visit expr? = expr?.mapM (rewriteM visit) := by
  cases expr? <;> simp [rewriteOptionM]

theorem rewriteListM_eq_mapM (visit : Expr → m (Option Expr)) (exprs : List Expr) :
    rewriteListM visit exprs = exprs.mapM (rewriteM visit) := by
  induction exprs with
  | nil => rw [rewriteListM, List.mapM_nil]
  | cons expr rest ih => rw [rewriteListM, List.mapM_cons, ih]

/-- A rewriting goes on at the parts where nothing is put for the expression. -/
theorem rewriteM_eq_mapM_parts (visit : Expr → m (Option Expr)) (expr : Expr) :
    rewriteM visit expr = visit expr >>= fun answer =>
      answer.elim (expr.withParts <$> expr.parts.mapM (rewriteM visit)) pure := by
  cases expr with
  | case operand conditions results otherwise =>
      rw [rewriteM]
      refine bind_congr fun answer => ?_
      cases answer with
      | some replacement => rfl
      | none =>
        simp only [rewriteOptionM_eq_mapM, rewriteListM_eq_mapM]
        exact (map_withParts_case _ _ _ _ _).symm
  | _ =>
    rw [rewriteM]
    refine bind_congr fun answer => ?_
    cases answer with
    | some replacement => rfl
    | none => simp [parts, withParts_call, withParts, rewriteListM_eq_mapM]

theorem mapColumnsOfOptionM_eq_mapM (change : Column → m Column) (expr? : Option Expr) :
    mapColumnsOfOptionM change expr? = expr?.mapM (mapColumnsM change) := by
  cases expr? <;> simp [mapColumnsOfOptionM]

theorem mapColumnsOfListM_eq_mapM (change : Column → m Column) (exprs : List Expr) :
    mapColumnsOfListM change exprs = exprs.mapM (mapColumnsM change) := by
  induction exprs with
  | nil => rw [mapColumnsOfListM, List.mapM_nil]
  | cons expr rest ih => rw [mapColumnsOfListM, List.mapM_cons, ih]

/-- A walk over the columns of an expression that is none goes over those of its parts. -/
theorem mapColumnsM_eq_mapM_parts (change : Column → m Column) {expr : Expr}
    (node : expr.column? = none) :
    mapColumnsM change expr = expr.withParts <$> expr.parts.mapM (mapColumnsM change) := by
  cases expr with
  | column found => cases node
  | case operand conditions results otherwise =>
      simp only [mapColumnsM, mapColumnsOfOptionM_eq_mapM, mapColumnsOfListM_eq_mapM]
      exact (map_withParts_case _ _ _ _ _).symm
  | _ => simp [mapColumnsM, parts, withParts_call, withParts, mapColumnsOfListM_eq_mapM]

end SemanticLayer.Sql.Expr
