import SemanticLayer.Error
import SemanticLayer.Sql.Expr
import SemanticLayer.Text.CharClass

/-!
# Filters

A filter is a name, a comparison and a literal without anything between them, such as
`users.age>=18`. The longest comparison is taken that leaves something to compare with.
-/

namespace SemanticLayer.Planner

open SemanticLayer.Sql

/-- A comparison that filters may use. -/
inductive FilterOp where
  | gt
  | gte
  | lt
  | lte
  | eq
  | ne
  deriving DecidableEq, Repr

namespace FilterOp

/-- Every comparison. -/
def all : List FilterOp := [gt, gte, lt, lte, eq, ne]

/-- Every comparison, one before those it starts with. -/
def longestFirst : List FilterOp := [lte, lt, gte, gt, ne, eq]

/-- The characters of a comparison. -/
def text : FilterOp → String
  | gt => ">"
  | gte => ">="
  | lt => "<"
  | lte => "<="
  | eq => "="
  | ne => "!="

/-- The comparison with the given characters. -/
def ofText (text : String) : Result FilterOp :=
  match all.find? fun op => op.text == text with
  | some op => .ok op
  | none => .error (.invalidOperation text)

/-- The comparison as an operator of expressions. -/
def toBinaryOp : FilterOp → BinaryOp
  | gt => .gt
  | gte => .gte
  | lt => .lt
  | lte => .lte
  | eq => .eq
  | ne => .ne

end FilterOp

/-- A filter on a dimension. -/
structure Filter where
  name : String
  op : FilterOp
  value : Literal
  deriving DecidableEq, Repr

namespace Filter

/-- The characters of the name of a filter. -/
def isNameChar (c : Char) : Bool :=
  Text.isWordChar c || c == '.' || c == '/'

/-- The text without its first characters, if it starts with `start`. -/
def dropStart? : List Char → List Char → Option (List Char)
  | [], chars => some chars
  | c :: start, d :: chars => if c = d then dropStart? start chars else none
  | _ :: _, [] => none

/-- The comparison at the start of a text and the text behind it, which is one line and not
empty. -/
def splitOperator? (chars : List Char) : Option (FilterOp × List Char) :=
  FilterOp.longestFirst.findSome? fun op =>
    (dropStart? op.text.toList chars).bind fun rest =>
      if rest ≠ [] ∧ '\n' ∉ rest then some (op, rest) else none

/-- The text between two quotation marks of one kind, if it holds no more of them. -/
def unquote? (quote : Char) (chars : List Char) : Option String :=
  match chars with
  | [] => none
  | first :: rest =>
    let inner := rest.dropLast
    if first = quote ∧ rest.getLast? = some quote ∧ quote ∉ inner then
      some (String.ofList inner)
    else none

/-- The characters of a decimal number. -/
def isNumberChar (c : Char) : Bool :=
  c.isDigit || c == '.' || c == '-' || c == '+' || c == 'e' || c == 'E'

/-- A literal: text in quotes, a truth value, a missing value, a whole number or a finite decimal,
with blanks around it allowed. -/
def literal (raw : String) : Result Literal :=
  let chars := Text.trim raw.toList
  let word := Text.asciiLower (String.ofList chars)
  match (unquote? '\'' chars).or (unquote? '"' chars) with
  | some text => .ok (.string text)
  | none =>
    if word = "true" then .ok (.bool true)
    else if word = "false" then .ok (.bool false)
    else if word = "null" ∨ word = "none" then .ok .null
    else
      match Number.int64? chars with
      | some n => .ok (.int n)
      | none =>
        let decimal := if chars.all isNumberChar then Number.Decimal.ofText? chars else none
        match decimal.map Number.Decimal.toBinary64 with
        | some value => if value.isFinite then .ok (.float value) else .error (.invalidValue raw)
        | none => .error (.invalidValue raw)

/-- The filter that a text describes. -/
def ofText (text : String) : Result Filter := do
  let name := text.toList.takeWhile isNameChar
  match if name = [] then none else splitOperator? (text.toList.dropWhile isNameChar) with
  | none => .error (.invalidFilter text)
  | some (op, rest) => do
    let value ← literal (String.ofList rest)
    .ok ⟨String.ofList name, op, value⟩

/-- The node and the column that the filter restricts. -/
def dimension (filter : Filter) : Result (String × String) :=
  match Text.splitLastDot? filter.name with
  | some pair => .ok pair
  | none => .error (.invalidColumnName filter.name)

/-- The filter as a condition on a column. -/
def toExpr (filter : Filter) (column : Column) : Expr :=
  Expr.combine (.column column) filter.op.toBinaryOp (.literal filter.value)

end Filter
end SemanticLayer.Planner
