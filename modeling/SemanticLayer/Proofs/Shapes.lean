import Mathlib.Algebra.Group.Nat.Defs
import SemanticLayer.Grammar.Expression
import SemanticLayer.Sql.Reading
import SemanticLayer.Proofs.Spelling

/-!
# Shapes of queries that are read

Parentheses are written where an expression holds them and nowhere else, so an expression is read
back only if its operators bind the way it nests them. This is the shape that every query read from
text has. Whether its names can be told from the words of the grammar is a question apart.
-/

namespace SemanticLayer.Sql

/-! ## All parts of a query -/

section

variable (onExpr : Expr → Prop) (onQuery : Query → Prop)

mutual

/-- Whether something holds of an expression and of all expressions and queries in it. -/
def Expr.Every : Expr → Prop
  | .column column => onExpr (.column column)
  | .literal value => onExpr (.literal value)
  | .wildcard path => onExpr (.wildcard path)
  | .binary left op right => onExpr (.binary left op right) ∧ left.Every ∧ right.Every
  | .unary op operand => onExpr (.unary op operand) ∧ operand.Every
  | .call name path args distinct => onExpr (.call name path args distinct) ∧ everyExprs args
  | .case operand conditions results otherwise =>
    onExpr (.case operand conditions results otherwise) ∧ everyExpr? operand ∧
      everyExprs conditions ∧ everyExprs results ∧ everyExpr? otherwise
  | .between subject low high negated =>
    onExpr (.between subject low high negated) ∧ subject.Every ∧ low.Every ∧ high.Every
  | .isNull subject negated => onExpr (.isNull subject negated) ∧ subject.Every
  | .inList subject items negated =>
    onExpr (.inList subject items negated) ∧ subject.Every ∧ everyExprs items
  | .aliased name child => onExpr (.aliased name child) ∧ child.Every
  | .nested inner => onExpr (.nested inner) ∧ inner.Every
  | .subquery query => onExpr (.subquery query) ∧ query.Every

/-- Whether something holds of an optional expression and of all in it. -/
def everyExpr? : Option Expr → Prop
  | none => True
  | some expr => expr.Every

/-- Whether something holds of expressions and of all in them. -/
def everyExprs : List Expr → Prop
  | [] => True
  | expr :: rest => expr.Every ∧ everyExprs rest

/-- Whether something holds of all in a relation. -/
def Relation.Every : Relation → Prop
  | .table _ => True
  | .derived query _ => query.Every

/-- Whether something holds of all in a join. -/
def Join.Every : Join → Prop
  | ⟨_, relation, on⟩ => relation.Every ∧ everyExpr? on

/-- Whether something holds of all in joins. -/
def everyJoins : List Join → Prop
  | [] => True
  | join :: rest => join.Every ∧ everyJoins rest

/-- Whether something holds of all in an entry of FROM. -/
def Source.Every : Source → Prop
  | ⟨primary, joins⟩ => primary.Every ∧ everyJoins joins

/-- Whether something holds of all in entries of FROM. -/
def everySources : List Source → Prop
  | [] => True
  | source :: rest => source.Every ∧ everySources rest

/-- Whether something holds of all in a FROM clause. -/
def everySources? : Option (List Source) → Prop
  | none => True
  | some sources => everySources sources

/-- Whether something holds of all in an entry of ORDER BY. -/
def Ordering.Every : Ordering → Prop
  | ⟨expr, _, _⟩ => expr.Every

/-- Whether something holds of all in entries of ORDER BY. -/
def everyOrderings : List Ordering → Prop
  | [] => True
  | ordering :: rest => ordering.Every ∧ everyOrderings rest

/-- Whether something holds of all in a SELECT. -/
def Select.Every : Select → Prop
  | ⟨_, projection, sources, filter, groupBy, having, orderBy, _, _⟩ =>
    everyExprs projection ∧ everySources? sources ∧ everyExpr? filter ∧ everyExprs groupBy ∧
      everyExpr? having ∧ everyOrderings orderBy

/-- Whether something holds of all in a named query. -/
def Cte.Every : Cte → Prop
  | ⟨_, query⟩ => query.Every

/-- Whether something holds of all in named queries. -/
def everyCtes : List Cte → Prop
  | [] => True
  | cte :: rest => cte.Every ∧ everyCtes rest

/-- Whether something holds of a query and of all expressions and queries in it. -/
def Query.Every : Query → Prop
  | ⟨ctes, select⟩ => onQuery ⟨ctes, select⟩ ∧ everyCtes ctes ∧ select.Every

end

end

/-! ## How deep a query nests -/

mutual

/-- How many levels of expressions and queries lie below an expression. What stands to the left of
an operator is on the level of the operator. -/
def Expr.depth : Expr → Nat
  | .column _ | .literal _ | .wildcard _ => 0
  | .binary left _ right => max left.depth (right.depth + 1)
  | .unary _ operand => operand.depth + 1
  | .call _ _ args _ => depthBelow args
  | .case operand conditions results otherwise =>
    max (max (depthBelow? operand) (depthBelow conditions))
      (max (depthBelow results) (depthBelow? otherwise))
  | .between subject low high _ => max subject.depth (max (low.depth + 1) (high.depth + 1))
  | .isNull subject _ => subject.depth
  | .inList subject items _ => max subject.depth (depthBelow items)
  | .aliased _ child => child.depth
  | .nested inner => inner.depth + 1
  | .subquery query => query.depth + 1

/-- The levels that an optional expression takes up below its parent. -/
def depthBelow? : Option Expr → Nat
  | none => 0
  | some expr => expr.depth + 1

/-- The levels that expressions take up below their parent. -/
def depthBelow : List Expr → Nat
  | [] => 0
  | expr :: rest => max (expr.depth + 1) (depthBelow rest)

/-- How many levels lie below the query that holds a relation. -/
def Relation.depth : Relation → Nat
  | .table _ => 0
  | .derived query _ => query.depth + 1

/-- How many levels lie below the query that holds a join. -/
def Join.depth : Join → Nat
  | ⟨_, relation, on⟩ => max relation.depth (depthBelow? on)

/-- How many levels lie below the query that holds joins. -/
def joinsDepth : List Join → Nat
  | [] => 0
  | join :: rest => max join.depth (joinsDepth rest)

/-- How many levels lie below the query that holds an entry of FROM. -/
def Source.depth : Source → Nat
  | ⟨primary, joins⟩ => max primary.depth (joinsDepth joins)

/-- How many levels lie below the query that holds entries of FROM. -/
def sourcesDepth : List Source → Nat
  | [] => 0
  | source :: rest => max source.depth (sourcesDepth rest)

/-- How many levels lie below the query that holds a FROM clause. -/
def sourcesDepth? : Option (List Source) → Nat
  | none => 0
  | some sources => sourcesDepth sources

/-- The levels that an entry of ORDER BY takes up below its query. -/
def Ordering.depth : Ordering → Nat
  | ⟨expr, _, _⟩ => expr.depth + 1

/-- The levels that entries of ORDER BY take up below their query. -/
def orderingsDepth : List Ordering → Nat
  | [] => 0
  | ordering :: rest => max ordering.depth (orderingsDepth rest)

/-- How many levels of expressions and queries lie below a SELECT. -/
def Select.depth : Select → Nat
  | ⟨_, projection, sources, filter, groupBy, having, orderBy, _, _⟩ =>
    max (max (max (depthBelow projection) (sourcesDepth? sources))
        (max (depthBelow? filter) (depthBelow groupBy)))
      (max (depthBelow? having) (orderingsDepth orderBy))

/-- The levels that a named query takes up below the query that names it. -/
def Cte.depth : Cte → Nat
  | ⟨_, query⟩ => query.depth + 1

/-- The levels that named queries take up below the query that names them. -/
def ctesDepth : List Cte → Nat
  | [] => 0
  | cte :: rest => max cte.depth (ctesDepth rest)

/-- How many levels of expressions and queries lie below a query. -/
def Query.depth : Query → Nat
  | ⟨ctes, select⟩ => max (ctesDepth ctes) select.depth

end

/-! ## How tightly operators bind -/

/-- How tightly a reader takes an operator to bind. -/
def BinaryOp.grip : BinaryOp → Nat
  | or => 5
  | and => 10
  | like | notLike => 19
  | eq | ne | lt | gt | lte | gte => 20
  | plus | minus => 30
  | times | divide | modulo | concat => 40

/-- How tightly a reader takes an operator in front of an operand to bind. -/
def UnaryOp.grip : UnaryOp → Nat
  | not => 15
  | minus | plus => 40

namespace Expr

open Grammar.Level (tightest)

/-- How tightly the loosest operator binds that an expression is the left side of, with what it
stands in front of, down to the first operand. -/
def loosest : Expr → Nat
  | .binary left op _ => min left.loosest op.grip
  | .between subject _ _ _ | .inList subject _ _ => min subject.loosest 20
  | .isNull subject _ => min subject.loosest 17
  | _ => tightest

/-- How tightly something behind an expression has to bind at most, not to be taken for a part of
the last operand. -/
def trailing : Expr → Nat
  | .binary _ op right => min op.grip right.trailing
  | .unary op operand => min op.grip operand.trailing
  | .between _ _ high _ => min 20 high.trailing
  | _ => tightest

/-- The operand that an expression starts with. -/
def front : Expr → Expr
  | .binary left _ _ => left.front
  | .between subject _ _ _ | .inList subject _ _ | .isNull subject _ => subject.front
  | .aliased _ child => child.front
  | operand => operand

/-- Whether an expression is neither a star nor under an alias. -/
def isOperand : Expr → Bool
  | .wildcard _ | .aliased _ _ => false
  | _ => true

end Expr

/-! ## Words at the front -/

/-- The word that an identifier is written as. -/
def Name.written (name : Name) : Grammar.Word :=
  writtenName name.value name.quote.isSome

/-- The keyword that the first word of a dotted name is written as; one in quotes is none. -/
def Path.keyword : Path → String
  | [] => ""
  | first :: _ => first.written.keyword

/-- The keyword that the name in front of an expression is written as: of a column, of a function in
a path, or of a star in one. -/
def Expr.nameKeyword (expr : Expr) : String :=
  match expr.front with
  | .column found => Path.keyword (found.qualifier ++ [found.name])
  | .call _ (some path) _ _ | .wildcard (some path) => Path.keyword path
  | _ => ""

/-- Whether an expression ends in a column written as the bare word ARRAY. -/
def Expr.endsInArray : Expr → Bool
  | .column found => found.qualifier.isEmpty && found.name.written.keyword == "ARRAY"
  | .binary _ _ right => right.endsInArray
  | .unary _ operand => operand.endsInArray
  | .between _ _ high _ => high.endsInArray
  | _ => false

/-- The words that start an expression of their own, whatever stands behind them. -/
def operandWords : List String :=
  ["TRUE", "FALSE", "NULL", "CURRENT_CATALOG", "CURRENT_USER", "SESSION_USER", "USER",
    "CURRENT_TIMESTAMP", "CURRENT_TIME", "CURRENT_DATE", "LOCALTIME", "LOCALTIMESTAMP", "CASE",
    "EXISTS", "INTERVAL", "NOT", "STRUCT", "TRIM"]

/-- The words that start an expression of their own in front of a parenthesis, or stand in front of
an expression in parentheses. -/
def callWords : List String :=
  ["TRUE", "FALSE", "NULL", "CURRENT_CATALOG", "CURRENT_USER", "SESSION_USER", "USER", "CASE",
    "CONVERT", "CAST", "TRY_CAST", "SAFE_CAST", "EXISTS", "EXTRACT", "CEIL", "FLOOR", "POSITION",
    "SUBSTRING", "OVERLAY", "TRIM", "INTERVAL", "ARRAY", "NOT", "MATCH", "STRUCT", "ALL",
    "DISTINCT", "ANY", "SOME", "SELECT", "WITH", "WHEN", "ON", "TOP", "ROLLUP", "CUBE"]

/-! ## Shapes -/

/-- Whether an expression nests its parts as they are read. -/
def Expr.HasShape : Expr → Prop
  | .literal (.int value) => 0 ≤ value.toInt
  | .literal (.float value) => value.isNegative = false
  | .literal _ | .subquery _ => True
  | .wildcard path => path ≠ some []
  | .column found => (Expr.column found).nameKeyword ∉ operandWords
  | .binary left op right =>
    (left.isOperand ∧ right.isOperand) ∧ op.grip ≤ left.trailing ∧ op.grip < right.loosest ∧
      (op = .like ∨ op = .notLike ∨ right.nameKeyword ∉ ["ANY", "ALL", "SOME"])
  | .unary op operand => operand.isOperand ∧ op.grip < operand.loosest
  | .call name path args distinct =>
    (∀ arg ∈ args, arg.isOperand ∨ ∃ star, arg = .wildcard star) ∧
      (distinct = true → args ≠ []) ∧ path ≠ some [] ∧
      (Expr.call name path args distinct).nameKeyword ∉ operandWords
  | .case operand conditions results otherwise =>
    (∀ part ∈ operand.toList ++ conditions ++ results ++ otherwise.toList, part.isOperand) ∧
      conditions.length = results.length ∧ conditions ≠ []
  | .between subject low high _ =>
    (subject.isOperand ∧ low.isOperand ∧ high.isOperand) ∧ 20 ≤ subject.trailing ∧
      (20 < low.loosest ∧ 10 ≤ low.trailing) ∧ 20 < high.loosest
  | .isNull subject _ => subject.isOperand ∧ 17 ≤ subject.trailing
  | .inList subject items _ =>
    (subject.isOperand ∧ ∀ item ∈ items, item.isOperand) ∧ 20 ≤ subject.trailing ∧ items ≠ []
  | .aliased _ child => child.isOperand
  | .nested inner => inner.isOperand

/-- Whether a relation is written as it is read. -/
def Relation.HasShape : Relation → Prop
  | .table found =>
    found.path ≠ some [] ∧
      Path.keyword (found.path.getD [] ++ [found.name]) ∉ ["LATERAL", "UNNEST"]
  | .derived _ _ => True

/-- Whether a join is written as it is read. -/
structure Join.HasShape (join : Join) : Prop where
  relation : join.relation.HasShape
  on : ∀ condition ∈ join.on, condition.isOperand
  cross : join.kind = .cross → join.on = none

/-- Whether an entry of FROM is written as it is read. -/
structure Source.HasShape (source : Source) : Prop where
  primary : source.primary.HasShape
  joins : ∀ join ∈ source.joins, join.HasShape

/-- Whether the clauses of a SELECT are written as they are read. -/
structure Select.HasShape (select : Select) : Prop where
  projection : select.projection ≠ []
  sources : select.sources ≠ some []
  source : ∀ source ∈ select.sources.getD [], source.HasShape
  filter : ∀ condition ∈ select.filter, condition.isOperand
  groupBy : ∀ key ∈ select.groupBy,
    key.isOperand ∧ key.nameKeyword ∉ ["ALL", "CUBE", "ROLLUP"]
  having : ∀ condition ∈ select.having, condition.isOperand
  orderBy : ∀ ordering ∈ select.orderBy, ordering.expr.isOperand

/-- Whether an expression and all in it nest as they are read. -/
def Expr.Shaped (expr : Expr) : Prop :=
  expr.Every HasShape fun query => query.select.HasShape

/-- Whether a query and all in it nest as they are read. -/
def Query.Shaped (query : Query) : Prop :=
  query.Every Expr.HasShape fun query => query.select.HasShape

/-! ## Legibility -/

/-- Whether a call is written with a word that stands for the function: the name is that of the
dialect, it is a word in upper case, and without a path it starts nothing else. -/
structure CallsByName (name : Name) (path : Option Path) : Prop where
  kept : Dialect.duckDb.functionSpelling? name.value = none
  word : Grammar.Lexeme.isWord (Text.upper name.value).toList = true
  free : path = none → Text.upper (Text.upper name.value) ∉ callWords

/-- Whether a number is written as one that is read as a number equal to it. -/
structure ReadsAgain (value : Number.Binary64) : Prop where
  finite : value.isFinite = true
  number : IsNumber value.text.toList
  again : ∃ other, numberOf value.text = .ok (.float other) ∧ other.equal value = true

/-- Whether an expression can be told from others where it is written: its numbers are read again,
its functions go by words, no column ARRAY seems to start a type, and no column ANY follows LIKE. -/
def Expr.IsLegible : Expr → Prop
  | .literal (.float value) => ReadsAgain value
  | .call name path _ _ => CallsByName name path
  | .binary left op right =>
    (op = .lt → left.endsInArray = false) ∧
      (op = .like ∨ op = .notLike → right.nameKeyword ≠ "ANY")
  | _ => True

/-- Whether the clauses of a query can be told from others where they are written: its counts are
below what has a sign, its first item does not start with a column TOP, and its first named query is
not called RECURSIVE. -/
structure Query.IsLegible (query : Query) : Prop where
  limit : ∀ count ∈ query.select.limit, count.toNat < 2 ^ 63
  offset : ∀ count ∈ query.select.offset, count.toNat < 2 ^ 63
  item : ∀ item ∈ query.select.projection.head?, item.nameKeyword ≠ "TOP"
  cte : ∀ cte ∈ query.ctes.head?, cte.name.written.keyword ≠ "RECURSIVE"

/-- Whether an expression and all in it can be told from others where they are written. -/
def Expr.Legible (expr : Expr) : Prop :=
  expr.Every IsLegible Query.IsLegible

/-- Whether a query and all in it can be told from others where they are written. -/
def Query.Legible (query : Query) : Prop :=
  query.Every Expr.IsLegible IsLegible

/-! ## Names of functions -/

mutual

/-- The expression with the names of its functions in upper case. -/
def Expr.upperFunctions : Expr → Expr
  | .column column => .column column
  | .literal value => .literal value
  | .wildcard path => .wildcard path
  | .binary left op right => .binary left.upperFunctions op right.upperFunctions
  | .unary op operand => .unary op operand.upperFunctions
  | .call name path args distinct =>
    .call { name with value := Text.upper name.value } path (upperFunctionsOfList args) distinct
  | .case operand conditions results otherwise =>
    .case (upperFunctionsOf? operand) (upperFunctionsOfList conditions)
      (upperFunctionsOfList results) (upperFunctionsOf? otherwise)
  | .between subject low high negated =>
    .between subject.upperFunctions low.upperFunctions high.upperFunctions negated
  | .isNull subject negated => .isNull subject.upperFunctions negated
  | .inList subject items negated =>
    .inList subject.upperFunctions (upperFunctionsOfList items) negated
  | .aliased name child => .aliased name child.upperFunctions
  | .nested inner => .nested inner.upperFunctions
  | .subquery query => .subquery query.upperFunctions

/-- An optional expression with the names of its functions in upper case. -/
def upperFunctionsOf? : Option Expr → Option Expr
  | none => none
  | some expr => some expr.upperFunctions

/-- Expressions with the names of their functions in upper case. -/
def upperFunctionsOfList : List Expr → List Expr
  | [] => []
  | expr :: rest => expr.upperFunctions :: upperFunctionsOfList rest

/-- A relation with the names of its functions in upper case. -/
def Relation.upperFunctions : Relation → Relation
  | .table table => .table table
  | .derived query aliasName => .derived query.upperFunctions aliasName

/-- A join with the names of its functions in upper case. -/
def Join.upperFunctions : Join → Join
  | ⟨kind, relation, on⟩ => ⟨kind, relation.upperFunctions, upperFunctionsOf? on⟩

/-- Joins with the names of their functions in upper case. -/
def upperFunctionsOfJoins : List Join → List Join
  | [] => []
  | join :: rest => join.upperFunctions :: upperFunctionsOfJoins rest

/-- An entry of FROM with the names of its functions in upper case. -/
def Source.upperFunctions : Source → Source
  | ⟨primary, joins⟩ => ⟨primary.upperFunctions, upperFunctionsOfJoins joins⟩

/-- Entries of FROM with the names of their functions in upper case. -/
def upperFunctionsOfSources : List Source → List Source
  | [] => []
  | source :: rest => source.upperFunctions :: upperFunctionsOfSources rest

/-- A FROM clause with the names of its functions in upper case. -/
def upperFunctionsOfSources? : Option (List Source) → Option (List Source)
  | none => none
  | some sources => some (upperFunctionsOfSources sources)

/-- An entry of ORDER BY with the names of its functions in upper case. -/
def Ordering.upperFunctions : Ordering → Ordering
  | ⟨expr, ascending, nullsFirst⟩ => ⟨expr.upperFunctions, ascending, nullsFirst⟩

/-- Entries of ORDER BY with the names of their functions in upper case. -/
def upperFunctionsOfOrderings : List Ordering → List Ordering
  | [] => []
  | ordering :: rest => ordering.upperFunctions :: upperFunctionsOfOrderings rest

/-- The clauses of a SELECT with the names of their functions in upper case. -/
def Select.upperFunctions : Select → Select
  | ⟨distinct, projection, sources, filter, groupBy, having, orderBy, limit, offset⟩ =>
    ⟨distinct, upperFunctionsOfList projection, upperFunctionsOfSources? sources,
      upperFunctionsOf? filter, upperFunctionsOfList groupBy, upperFunctionsOf? having,
      upperFunctionsOfOrderings orderBy, limit, offset⟩

/-- A named query with the names of its functions in upper case. -/
def Cte.upperFunctions : Cte → Cte
  | ⟨name, query⟩ => ⟨name, query.upperFunctions⟩

/-- Named queries with the names of their functions in upper case. -/
def upperFunctionsOfCtes : List Cte → List Cte
  | [] => []
  | cte :: rest => cte.upperFunctions :: upperFunctionsOfCtes rest

/-- The query with the names of its functions in upper case. -/
def Query.upperFunctions : Query → Query
  | ⟨ctes, select⟩ => ⟨upperFunctionsOfCtes ctes, select.upperFunctions⟩

end

end SemanticLayer.Sql
