import SemanticLayer.Sql.Name

/-!
# Expressions and queries

The typed form that every compiled query goes through. Expressions and queries hold each other:
a query may stand in an expression, and its clauses are expressions.
-/

namespace SemanticLayer.Sql

/-- A literal value. -/
inductive Literal where
  | int (value : Int64)
  | float (value : Number.Binary64)
  | string (value : String)
  | bool (value : Bool)
  | null
  deriving DecidableEq, Repr

/-- Floats are compared as numbers. -/
instance : BEq Literal where
  beq
    | .int a, .int b => a == b
    | .float a, .float b => a.equal b
    | .string a, .string b => a == b
    | .bool a, .bool b => a == b
    | .null, .null => true
    | _, _ => false

/-- The token of a literal. -/
def Literal.token : Literal → Token
  | int value => .int value
  | float value => .float value
  | string value => .string value
  | bool value => .bool value
  | null => .null

/-- An operator between two operands. -/
inductive BinaryOp where
  | eq
  | ne
  | lt
  | gt
  | lte
  | gte
  | and
  | or
  | plus
  | minus
  | times
  | divide
  | modulo
  | concat
  | like
  | notLike
  deriving DecidableEq, Repr

namespace BinaryOp

/-- Every operator. -/
def all : List BinaryOp :=
  [eq, ne, lt, gt, lte, gte, and, or, plus, minus, times, divide, modulo, concat, like, notLike]

/-- How tightly an operator binds when an expression is built; the higher, the tighter. -/
def strength : BinaryOp → Nat
  | or => 1
  | and => 2
  | eq | ne | lt | gt | lte | gte | like | notLike => 4
  | plus | minus | concat => 5
  | times | divide | modulo => 6

/-- The tokens of an operator. -/
def tokens : BinaryOp → Tokens
  | eq => [.symbol .eq]
  | ne => [.symbol .ne]
  | lt => [.symbol .lt]
  | gt => [.symbol .gt]
  | lte => [.symbol .lte]
  | gte => [.symbol .gte]
  | and => [.keyword .and]
  | or => [.keyword .or]
  | plus => [.symbol .plus]
  | minus => [.symbol .minus]
  | times => [.symbol .times]
  | divide => [.symbol .divide]
  | modulo => [.symbol .modulo]
  | concat => [.concat]
  | like => [.keyword .like]
  | notLike => [.keyword .not, space, .keyword .like]

end BinaryOp

/-- An operator in front of an operand. -/
inductive UnaryOp where
  | not
  | minus
  | plus
  deriving DecidableEq, Repr

/-- The tokens of an operator. -/
def UnaryOp.tokens : UnaryOp → Tokens
  | not => [.keyword .not, space]
  | minus => [.symbol .minus]
  | plus => [.symbol .plus]

/-- How a relation is joined. -/
inductive JoinKind where
  | inner
  | left
  | right
  | full
  | cross
  deriving DecidableEq, Repr

/-- The tokens in front of JOIN. -/
def JoinKind.tokens : JoinKind → Tokens
  | inner => [.keyword .inner]
  | left => [.keyword .left, space, .keyword .outer]
  | right => [.keyword .right, space, .keyword .outer]
  | full => [.keyword .full, space, .keyword .outer]
  | cross => [.keyword .cross]

mutual

/-- An expression. -/
inductive Expr where
  | column (column : Column)
  | literal (value : Literal)
  | wildcard (path : Option Path)
  | binary (left : Expr) (op : BinaryOp) (right : Expr)
  | unary (op : UnaryOp) (operand : Expr)
  | call (name : Name) (path : Option Path) (args : List Expr) (distinct : Bool)
  | case (operand : Option Expr) (conditions results : List Expr) (otherwise : Option Expr)
  | between (subject low high : Expr) (negated : Bool)
  | isNull (subject : Expr) (negated : Bool)
  | inList (subject : Expr) (items : List Expr) (negated : Bool)
  | aliased (name : Name) (child : Expr)
  | nested (inner : Expr)
  | subquery (query : Query)

/-- Something to select from: a table, or a query that may have an alias. -/
inductive Relation where
  | table (table : Table)
  | derived (query : Query) (aliasName : Option Name)

/-- A relation joined to the ones before it. -/
structure Join where
  kind : JoinKind
  relation : Relation
  on : Option Expr

/-- One entry of FROM: a relation with the joins chained onto it. -/
structure Source where
  primary : Relation
  joins : List Join := []

/-- One entry of ORDER BY. -/
structure Ordering where
  expr : Expr
  ascending : Option Bool := none
  nullsFirst : Option Bool := none

/-- The clauses of a SELECT. A FROM clause without entries differs from none. -/
structure Select where
  distinct : Bool := false
  projection : List Expr := []
  sources : Option (List Source) := none
  filter : Option Expr := none
  groupBy : List Expr := []
  having : Option Expr := none
  orderBy : List Ordering := []
  limit : Option UInt64 := none
  offset : Option UInt64 := none

/-- A named query of a WITH clause. -/
structure Cte where
  name : Name
  query : Query

/-- A query: the named queries it may use, and its SELECT. -/
structure Query where
  ctes : List Cte := []
  select : Select

end

instance : Inhabited Expr := ⟨.literal .null⟩

instance : Inhabited Select := ⟨{}⟩

instance : Inhabited Query := ⟨{ select := {} }⟩

/-! ## Equality -/

mutual

/-- Structural equality: names by value, columns by name and qualifier, floats as numbers. -/
def Expr.equal : Expr → Expr → Bool
  | .column a, .column b => a == b
  | .literal a, .literal b => a == b
  | .wildcard a, .wildcard b => a == b
  | .binary l op r, .binary l' op' r' => l.equal l' && op == op' && r.equal r'
  | .unary op e, .unary op' e' => op == op' && e.equal e'
  | .call n p args d, .call n' p' args' d' =>
    n == n' && p == p' && equalExprs args args' && d == d'
  | .case o cs rs e, .case o' cs' rs' e' =>
    equalExpr? o o' && equalExprs cs cs' && equalExprs rs rs' && equalExpr? e e'
  | .between e l h n, .between e' l' h' n' => e.equal e' && l.equal l' && h.equal h' && n == n'
  | .isNull e n, .isNull e' n' => e.equal e' && n == n'
  | .inList e items n, .inList e' items' n' => e.equal e' && equalExprs items items' && n == n'
  | .aliased n e, .aliased n' e' => n == n' && e.equal e'
  | .nested e, .nested e' => e.equal e'
  | .subquery q, .subquery q' => q.equal q'
  | _, _ => false
termination_by structural a => a

/-- Equality of optional expressions. -/
def equalExpr? : Option Expr → Option Expr → Bool
  | none, none => true
  | some a, some b => a.equal b
  | _, _ => false
termination_by structural a => a

/-- Equality of lists of expressions. -/
def equalExprs : List Expr → List Expr → Bool
  | [], [] => true
  | a :: as, b :: bs => a.equal b && equalExprs as bs
  | _, _ => false
termination_by structural a => a

/-- Equality of relations. -/
def Relation.equal : Relation → Relation → Bool
  | .table a, .table b => a == b
  | .derived q a, .derived q' a' => q.equal q' && a == a'
  | _, _ => false
termination_by structural a => a

/-- Equality of joins. -/
def Join.equal : Join → Join → Bool
  | ⟨kind, relation, on⟩, ⟨kind', relation', on'⟩ =>
    kind == kind' && relation.equal relation' && equalExpr? on on'
termination_by structural a => a

/-- Equality of lists of joins. -/
def equalJoins : List Join → List Join → Bool
  | [], [] => true
  | a :: as, b :: bs => a.equal b && equalJoins as bs
  | _, _ => false
termination_by structural a => a

/-- Equality of entries of FROM. -/
def Source.equal : Source → Source → Bool
  | ⟨primary, joins⟩, ⟨primary', joins'⟩ => primary.equal primary' && equalJoins joins joins'
termination_by structural a => a

/-- Equality of lists of entries of FROM. -/
def equalSources : List Source → List Source → Bool
  | [], [] => true
  | a :: as, b :: bs => a.equal b && equalSources as bs
  | _, _ => false
termination_by structural a => a

/-- Equality of FROM clauses. -/
def equalSources? : Option (List Source) → Option (List Source) → Bool
  | none, none => true
  | some a, some b => equalSources a b
  | _, _ => false
termination_by structural a => a

/-- Equality of entries of ORDER BY. -/
def Ordering.equal : Ordering → Ordering → Bool
  | ⟨expr, ascending, nullsFirst⟩, ⟨expr', ascending', nullsFirst'⟩ =>
    expr.equal expr' && ascending == ascending' && nullsFirst == nullsFirst'
termination_by structural a => a

/-- Equality of ORDER BY clauses. -/
def equalOrderings : List Ordering → List Ordering → Bool
  | [], [] => true
  | a :: as, b :: bs => a.equal b && equalOrderings as bs
  | _, _ => false
termination_by structural a => a

/-- Equality of the clauses of a SELECT. -/
def Select.equal : Select → Select → Bool
  | ⟨distinct, projection, sources, filter, groupBy, having, orderBy, limit, offset⟩,
    ⟨distinct', projection', sources', filter', groupBy', having', orderBy', limit', offset'⟩ =>
    distinct == distinct' && equalExprs projection projection' && equalSources? sources sources' &&
      equalExpr? filter filter' && equalExprs groupBy groupBy' && equalExpr? having having' &&
      equalOrderings orderBy orderBy' && limit == limit' && offset == offset'
termination_by structural a => a

/-- Equality of named queries. -/
def Cte.equal : Cte → Cte → Bool
  | ⟨name, query⟩, ⟨name', query'⟩ => name == name' && query.equal query'
termination_by structural a => a

/-- Equality of WITH clauses. -/
def equalCtes : List Cte → List Cte → Bool
  | [], [] => true
  | a :: as, b :: bs => a.equal b && equalCtes as bs
  | _, _ => false
termination_by structural a => a

/-- Equality of queries. -/
def Query.equal : Query → Query → Bool
  | ⟨ctes, select⟩, ⟨ctes', select'⟩ => equalCtes ctes ctes' && select.equal select'
termination_by structural a => a

end

instance : BEq Expr := ⟨Expr.equal⟩

instance : BEq Query := ⟨Query.equal⟩

end SemanticLayer.Sql
