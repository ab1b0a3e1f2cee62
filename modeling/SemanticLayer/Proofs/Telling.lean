import SemanticLayer.Proofs.Reserved
import SemanticLayer.Sql.Reading

/-!
# What trees tell

A tree tells an expression or a query if that is what is read from it, apart from how names are
quoted and which letters of functions are capitals. A tree tells what its parts tell.
-/

namespace SemanticLayer.Sql

/-! ## Names -/

/-- The name that a word is read as. -/
def nameOf (word : Grammar.Word) : Name :=
  ⟨word.value, word.quote⟩

/-- A name as it is read back. -/
def Name.reread (name : Name) : Name :=
  nameOf name.written

theorem map_nameOf_written (path : Path) :
    (path.map Name.written).map nameOf = path.map Name.reread :=
  List.map_map

theorem Name.reread_equal (name : Name) : (name.reread == name) = true := by
  show (name.written.value == name.value) = true
  rw [value_written, beq_self_eq_true]

/-- A path is equal to one with names equal to its own. -/
theorem Path.map_equal {again : Name → Name} (same : ∀ name, (again name == name) = true)
    (path : Path) : (path.map again == path) = true := by
  induction path with
  | nil => rfl
  | cons first rest ih =>
      show (again first == first && rest.map again == rest) = true
      rw [same, ih]
      rfl

theorem Path.reread_equal (path : Path) : (path.map Name.reread == path) = true :=
  path.map_equal Name.reread_equal

/-- No name is read back as the bare word FROM. -/
theorem Name.isFrom_reread (name : Name) :
    Grammar.Level.isFrom (.identifier name.reread) = false := by
  rcases name.written_cases with same | ⟨same, free⟩
  · rw [Name.reread, same]
    rfl
  · have unlike : Text.upper name.value ≠ "FROM" := by
      intro upper
      rw [upper] at free
      exact free (by decide)
    rw [Name.reread, same]
    exact beq_eq_false_iff_ne.mpr unlike

theorem objectNameOf_concat {first last : Name} {rest scope : Path}
    (parts : first :: rest = scope ++ [last]) :
    Grammar.Reader.objectNameOf false first rest = ⟨scope, last⟩ := by
  simp [Grammar.Reader.objectNameOf, parts]

/-- The tree of a dotted name. -/
def columnTree (first : Name) : Path → Grammar.Expr
  | [] => .identifier first
  | next :: rest => .compound first (Grammar.Reader.objectNameOf false next rest)

/-! ## Expressions -/

/-- Whether an expression is read from a tree, which is not the bare word FROM. -/
def Expr.ToldBy (expr : Expr) (tree : Grammar.Expr) : Prop :=
  ∃ read, exprOf tree = .ok read ∧ read.equal expr.upperFunctions = true ∧
    Grammar.Level.isFrom tree = false

/-- Whether an expression, if there is one, is read from a tree. -/
def ToldBy? (expr : Option Expr) (tree : Option Grammar.Expr) : Prop :=
  ∃ read, exprOf? tree = .ok read ∧ equalExpr? read (upperFunctionsOf? expr) = true

/-- Whether expressions are read from trees. -/
def ToldByAll (exprs : List Expr) (trees : List Grammar.Expr) : Prop :=
  ∃ read, exprsOf trees = .ok read ∧ equalExprs read (upperFunctionsOfList exprs) = true

/-- Whether an argument of a call is read from a tree. -/
def Expr.ToldByArgument (expr : Expr) (tree : Grammar.Argument) : Prop :=
  ∃ read, argumentOf tree = .ok read ∧ read.equal expr.upperFunctions = true

/-- Whether a query is read from a tree. -/
def Query.ToldBy (query : Query) (tree : Grammar.Query) : Prop :=
  ∃ read, queryOf tree = .ok read ∧ read.equal query.upperFunctions = true

theorem toldBy?_none : ToldBy? none none :=
  ⟨none, rfl, rfl⟩

theorem toldBy?_some {expr : Expr} {tree : Grammar.Expr} (told : expr.ToldBy tree) :
    ToldBy? (some expr) (some tree) := by
  obtain ⟨read, given, same, -⟩ := told
  refine ⟨some read, ?_, same⟩
  rw [exprOf?, given]
  rfl

theorem toldByAll {exprs : List Expr} {trees : List Grammar.Expr}
    (each : List.Forall₂ Expr.ToldBy exprs trees) : ToldByAll exprs trees := by
  induction each with
  | nil => exact ⟨[], rfl, rfl⟩
  | cons told _ ih =>
      obtain ⟨first, given, same, -⟩ := told
      obtain ⟨rest, givenRest, sameRest⟩ := ih
      refine ⟨first :: rest, ?_, ?_⟩
      · rw [exprsOf, given, givenRest]
        rfl
      · rw [upperFunctionsOfList, equalExprs, same, sameRest]
        rfl

namespace Expr

attribute [local simp] upperFunctions Expr.equal

/-- A column is told by the tree of names equal to its own, none of which is the bare word FROM. -/
theorem toldBy_column_map {again : Name → Name} (same : ∀ name, (again name == name) = true)
    (other : ∀ name, Grammar.Level.isFrom (.identifier (again name)) = false) {found : Column}
    {first : Name} {rest : Path}
    (parts : first :: rest = (found.qualifier ++ [found.name]).map again) :
    (Expr.column found).ToldBy (columnTree first rest) := by
  have sameName := same found.name
  have sameQualifier := Path.map_equal same found.qualifier
  rw [List.map_append, List.map_singleton] at parts
  cases qualifier : found.qualifier with
  | nil =>
      rw [qualifier] at parts
      obtain ⟨rfl, rfl⟩ := List.cons.inj parts
      refine ⟨_, rfl, ?_, other found.name⟩
      show (again found.name == found.name && [] == found.qualifier) = true
      rw [sameName, qualifier]
      rfl
  | cons owner others =>
      rw [qualifier] at parts sameQualifier
      obtain ⟨rfl, more⟩ := List.cons.inj parts
      cases rest with
      | nil => simp at more
      | cons next behind =>
          refine ⟨_, by rw [columnTree, objectNameOf_concat more, exprOf], ?_, rfl⟩
          show (again found.name == found.name &&
            again owner :: others.map again == found.qualifier) = true
          rw [sameName, qualifier]
          exact sameQualifier

theorem toldBy_column {found : Column} {first : Name} {rest : Path}
    (parts : first :: rest = (found.qualifier ++ [found.name]).map Name.reread) :
    (Expr.column found).ToldBy (columnTree first rest) :=
  toldBy_column_map Name.reread_equal Name.isFrom_reread parts

theorem toldBy_literal {value again : Literal} {tree : Grammar.Value}
    (given : literalOf tree = .ok again) (same : (again == value) = true) :
    (Expr.literal value).ToldBy (.value tree) := by
  refine ⟨.literal again, ?_, same, rfl⟩
  rw [exprOf, given]
  rfl

theorem toldBy_binary {left right : Expr} {first second : Grammar.Expr} {op : BinaryOp}
    {operator : Grammar.Operator} (toldLeft : left.ToldBy first) (toldRight : right.ToldBy second)
    (same : binaryOpOf operator = .ok op) :
    (Expr.binary left op right).ToldBy (.binary first operator second) := by
  obtain ⟨one, given, equal, -⟩ := toldLeft
  obtain ⟨two, givenRight, equalRight, -⟩ := toldRight
  refine ⟨.binary one op two, ?_, ?_, rfl⟩
  · rw [exprOf, given, same, givenRight]
    rfl
  · simp [equal, equalRight]

theorem toldBy_like {left right : Expr} {first second : Grammar.Expr}
    (toldLeft : left.ToldBy first) (toldRight : right.ToldBy second) (negated : Bool) :
    (Expr.binary left (if negated then .notLike else .like) right).ToldBy
      (.pattern .like negated false first second none) := by
  obtain ⟨one, given, equal, -⟩ := toldLeft
  obtain ⟨two, givenRight, equalRight, -⟩ := toldRight
  refine ⟨.binary one (if negated then .notLike else .like) two, ?_, ?_, rfl⟩
  · rw [exprOf, given, givenRight]
    rfl
  · simp [equal, equalRight]

theorem toldBy_unary {operand : Expr} {tree : Grammar.Expr} {op : UnaryOp}
    {operator : Grammar.UnaryOperator} (told : operand.ToldBy tree)
    (same : unaryOpOf operator = .ok op) :
    (Expr.unary op operand).ToldBy (.unary operator tree) := by
  obtain ⟨read, given, equal, -⟩ := told
  refine ⟨.unary op read, ?_, ?_, rfl⟩
  · rw [exprOf, same, given]
    rfl
  · simp [equal]

theorem toldBy_nested {inner : Expr} {tree : Grammar.Expr} (told : inner.ToldBy tree) :
    (Expr.nested inner).ToldBy (.nested tree) := by
  obtain ⟨read, given, equal, -⟩ := told
  refine ⟨.nested read, ?_, equal, rfl⟩
  rw [exprOf, given]
  rfl

theorem toldBy_subquery {query : Query} {tree : Grammar.Query} (told : query.ToldBy tree) :
    (Expr.subquery query).ToldBy (.subquery tree) := by
  obtain ⟨read, given, equal⟩ := told
  refine ⟨.subquery read, ?_, equal, rfl⟩
  rw [exprOf, given]
  rfl

theorem toldBy_between {subject low high : Expr} {first second third : Grammar.Expr}
    (told : subject.ToldBy first) (toldLow : low.ToldBy second) (toldHigh : high.ToldBy third)
    (negated : Bool) :
    (Expr.between subject low high negated).ToldBy (.between first second third negated) := by
  obtain ⟨one, given, equal, -⟩ := told
  obtain ⟨two, givenLow, equalLow, -⟩ := toldLow
  obtain ⟨three, givenHigh, equalHigh, -⟩ := toldHigh
  refine ⟨.between one two three negated, ?_, ?_, rfl⟩
  · rw [exprOf, given, givenLow, givenHigh]
    rfl
  · simp [equal, equalLow, equalHigh]

theorem toldBy_isNull {subject : Expr} {tree : Grammar.Expr} (told : subject.ToldBy tree)
    (negated : Bool) :
    (Expr.isNull subject negated).ToldBy (if negated then .isNotNull tree else .isNull tree) := by
  obtain ⟨read, given, equal, -⟩ := told
  refine ⟨.isNull read negated, ?_, ?_, by cases negated <;> rfl⟩
  · cases negated with
    | true =>
        rw [if_pos rfl, exprOf, given]
        rfl
    | false =>
        rw [if_neg Bool.false_ne_true, exprOf, given]
        rfl
  · simp [equal]

theorem toldBy_inList {subject : Expr} {items : List Expr} {tree : Grammar.Expr}
    {trees : List Grammar.Expr} (told : subject.ToldBy tree)
    (each : List.Forall₂ ToldBy items trees) (negated : Bool) :
    (Expr.inList subject items negated).ToldBy (.inList tree trees negated) := by
  obtain ⟨read, given, equal, -⟩ := told
  obtain ⟨reads, givenAll, equalAll⟩ := toldByAll each
  refine ⟨.inList read reads negated, ?_, ?_, rfl⟩
  · rw [exprOf, given, givenAll]
    rfl
  · simp [equal, equalAll]

theorem toldBy_case {operand otherwise : Option Expr} {conditions results : List Expr}
    {first last : Option Grammar.Expr} {seconds thirds : List Grammar.Expr}
    (told : ToldBy? operand first) (eachCondition : List.Forall₂ ToldBy conditions seconds)
    (eachResult : List.Forall₂ ToldBy results thirds) (toldLast : ToldBy? otherwise last) :
    (Expr.case operand conditions results otherwise).ToldBy (.case first seconds thirds last) := by
  obtain ⟨one, given, equal⟩ := told
  obtain ⟨twos, givenConditions, equalConditions⟩ := toldByAll eachCondition
  obtain ⟨threes, givenResults, equalResults⟩ := toldByAll eachResult
  obtain ⟨four, givenLast, equalLast⟩ := toldLast
  refine ⟨.case one twos threes four, ?_, ?_, rfl⟩
  · rw [exprOf, given, givenConditions, givenResults, givenLast]
    rfl
  · simp [equal, equalConditions, equalResults, equalLast]

/-! ## Calls -/

theorem toldByArgument_expr {expr : Expr} {tree : Grammar.Expr} (told : expr.ToldBy tree) :
    expr.ToldByArgument (.expr tree) := by
  obtain ⟨read, given, equal, -⟩ := told
  exact ⟨read, by rw [argumentOf, given], equal⟩

theorem toldByArgument_wildcard : (Expr.wildcard none).ToldByArgument .wildcard :=
  ⟨_, rfl, rfl⟩

theorem toldByArgument_path (path : Path) :
    (Expr.wildcard (some path)).ToldByArgument (.qualifiedWildcard (path.map Name.reread)) :=
  ⟨_, rfl, Path.reread_equal path⟩

theorem argumentListOf_toldBy {args : List Expr} {trees : List Grammar.Argument}
    (each : List.Forall₂ ToldByArgument args trees) :
    ∃ read, argumentListOf trees = .ok read ∧
      equalExprs read (upperFunctionsOfList args) = true := by
  induction each with
  | nil => exact ⟨[], rfl, rfl⟩
  | cons told _ ih =>
      obtain ⟨first, given, same⟩ := told
      obtain ⟨rest, givenRest, sameRest⟩ := ih
      refine ⟨first :: rest, ?_, ?_⟩
      · rw [argumentListOf, given, givenRest]
        rfl
      · rw [upperFunctionsOfList, equalExprs, same, sameRest]
        rfl

theorem toldBy_call {name : Name} {path : Option Path} {args : List Expr}
    {trees : List Grammar.Argument} {distinct : Bool} {called : Name} (some : path ≠ some [])
    (given : called.value = Text.upper name.value)
    (each : List.Forall₂ ToldByArgument args trees) :
    (Expr.call name path args distinct).ToldBy
      (.call
        { name := ⟨(path.getD []).map Name.reread, called⟩
          arguments := Option.some
            (.list (if distinct then .some .distinct else none) trees [] none none []) }) := by
  obtain ⟨reads, givenAll, equalAll⟩ := argumentListOf_toldBy each
  have sameName : (called == { name with value := Text.upper name.value }) = true := by
    show (called.value == Text.upper name.value) = true
    rw [given, beq_self_eq_true]
  rcases path with - | path
  · refine ⟨.call called none reads distinct, ?_, ?_, rfl⟩
    · rw [exprOf, callOf, argumentsOf, givenAll]
      cases distinct <;> rfl
    · simp [equalAll, sameName]
  · have nonempty : path.map Name.reread ≠ [] := by simpa using some
    have samePath : (Option.some (path.map Name.reread) == Option.some path) = true :=
      Path.reread_equal path
    refine ⟨.call called (Option.some (path.map Name.reread)) reads distinct, ?_, ?_, rfl⟩
    · rw [exprOf, callOf, argumentsOf, givenAll]
      simp only [Option.getD_some, if_neg nonempty]
      cases distinct <;> rfl
    · simp [equalAll, sameName, samePath]

end Expr
end SemanticLayer.Sql
