import SemanticLayer.Sql.Query

/-!
# Building and walking expressions

Constructors that put in the parentheses that operators need, and walks over the columns of an
expression. No walk enters a subquery.
-/

namespace SemanticLayer.Sql

namespace Expr

/-- The operand, in parentheses if it binds looser than the operator it is put under. -/
def nestBelow (op : BinaryOp) : Expr → Expr
  | .binary left inner right =>
    if inner.strength < op.strength then .nested (.binary left inner right)
    else .binary left inner right
  | other => other

/-- An operator over two operands, with parentheses around an operand that binds looser. -/
def combine (left : Expr) (op : BinaryOp) (right : Expr) : Expr :=
  .binary (left.nestBelow op) op (right.nestBelow op)

/-- The expression without an alias around it. -/
def unaliased : Expr → Expr
  | .aliased _ child => child
  | other => other

/-- The alias around the expression. -/
def aliasName? : Expr → Option Name
  | .aliased name _ => some name
  | _ => none

/-- A column by its name. -/
def col (name : String) : Expr :=
  .column { name := { value := name } }

/-- A column by the names of its table and its own. -/
def tableCol (table name : String) : Expr :=
  .column { name := { value := name }, table := some { name := { value := table } } }

/-- Everything. -/
def star : Expr :=
  .wildcard none

/-- A function call; the name is put in upper case. -/
def func (name : String) (args : List Expr) : Expr :=
  .call { value := Text.upper name } none args false

/-- The number of rows. -/
def countStar : Expr :=
  func "COUNT" [star]

/-- The sum of an expression over rows. -/
def sum (operand : Expr) : Expr :=
  func "SUM" [operand]

/-! ## Walks -/

mutual

/-- The columns of an expression from left to right, outside of subqueries. -/
def columns : Expr → List Column
  | .column c => [c]
  | .literal _ | .wildcard _ | .subquery _ => []
  | .binary left _ right => columns left ++ columns right
  | .unary _ operand => columns operand
  | .call _ _ args _ => columnsOfList args
  | .case operand conditions results otherwise =>
    columnsOfOption operand ++ columnsOfList conditions ++ columnsOfList results ++
      columnsOfOption otherwise
  | .between subject low high _ => columns subject ++ columns low ++ columns high
  | .isNull subject _ => columns subject
  | .inList subject items _ => columns subject ++ columnsOfList items
  | .aliased _ child => columns child
  | .nested inner => columns inner

/-- The columns of an optional expression. -/
def columnsOfOption : Option Expr → List Column
  | none => []
  | some expr => columns expr

/-- The columns of expressions one after the other. -/
def columnsOfList : List Expr → List Column
  | [] => []
  | expr :: rest => columns expr ++ columnsOfList rest

end

section

variable {m : Type → Type} [Monad m] (visit : Expr → m (Option Expr))

mutual

/-- A rewriting from the outside in. Where `visit` gives an expression it replaces the one visited
and is not entered; where it gives none the parts are visited from left to right. -/
def rewriteM (expr : Expr) : m Expr := do
  match ← visit expr with
  | some replacement => pure replacement
  | none =>
    match expr with
    | .column c => pure (.column c)
    | .literal value => pure (.literal value)
    | .wildcard path => pure (.wildcard path)
    | .subquery query => pure (.subquery query)
    | .binary left op right => do
      let left ← rewriteM left
      let right ← rewriteM right
      pure (.binary left op right)
    | .unary op operand => do pure (.unary op (← rewriteM operand))
    | .call name path args distinct => do
      pure (.call name path (← rewriteListM args) distinct)
    | .case operand conditions results otherwise => do
      let operand ← rewriteOptionM operand
      let conditions ← rewriteListM conditions
      let results ← rewriteListM results
      let otherwise ← rewriteOptionM otherwise
      pure (.case operand conditions results otherwise)
    | .between subject low high negated => do
      let subject ← rewriteM subject
      let low ← rewriteM low
      let high ← rewriteM high
      pure (.between subject low high negated)
    | .isNull subject negated => do pure (.isNull (← rewriteM subject) negated)
    | .inList subject items negated => do
      let subject ← rewriteM subject
      let items ← rewriteListM items
      pure (.inList subject items negated)
    | .aliased name child => do pure (.aliased name (← rewriteM child))
    | .nested inner => do pure (.nested (← rewriteM inner))

/-- A rewriting of an optional expression. -/
def rewriteOptionM : Option Expr → m (Option Expr)
  | none => pure none
  | some expr => do pure (some (← rewriteM expr))

/-- A rewriting of expressions from left to right. -/
def rewriteListM : List Expr → m (List Expr)
  | [] => pure []
  | expr :: rest => do
    let expr ← rewriteM expr
    let rest ← rewriteListM rest
    pure (expr :: rest)

end

end

section

variable {m : Type → Type} [Monad m] (change : Column → m Column)

mutual

/-- Changes every column from left to right and nothing else. -/
def mapColumnsM : Expr → m Expr
  | .column c => do pure (.column (← change c))
  | .literal value => pure (.literal value)
  | .wildcard path => pure (.wildcard path)
  | .subquery query => pure (.subquery query)
  | .binary left op right => do
    let left ← mapColumnsM left
    let right ← mapColumnsM right
    pure (.binary left op right)
  | .unary op operand => do pure (.unary op (← mapColumnsM operand))
  | .call name path args distinct => do
    pure (.call name path (← mapColumnsOfListM args) distinct)
  | .case operand conditions results otherwise => do
    let operand ← mapColumnsOfOptionM operand
    let conditions ← mapColumnsOfListM conditions
    let results ← mapColumnsOfListM results
    let otherwise ← mapColumnsOfOptionM otherwise
    pure (.case operand conditions results otherwise)
  | .between subject low high negated => do
    let subject ← mapColumnsM subject
    let low ← mapColumnsM low
    let high ← mapColumnsM high
    pure (.between subject low high negated)
  | .isNull subject negated => do pure (.isNull (← mapColumnsM subject) negated)
  | .inList subject items negated => do
    let subject ← mapColumnsM subject
    let items ← mapColumnsOfListM items
    pure (.inList subject items negated)
  | .aliased name child => do pure (.aliased name (← mapColumnsM child))
  | .nested inner => do pure (.nested (← mapColumnsM inner))

/-- Changes every column of an optional expression. -/
def mapColumnsOfOptionM : Option Expr → m (Option Expr)
  | none => pure none
  | some expr => do pure (some (← mapColumnsM expr))

/-- Changes every column of expressions from left to right. -/
def mapColumnsOfListM : List Expr → m (List Expr)
  | [] => pure []
  | expr :: rest => do
    let expr ← mapColumnsM expr
    let rest ← mapColumnsOfListM rest
    pure (expr :: rest)

end

end

/-- Changes every column and nothing else. -/
def mapColumns (change : Column → Column) (expr : Expr) : Expr :=
  (mapColumnsM (m := Id) (fun column => pure (change column)) expr).run

end Expr
end SemanticLayer.Sql
