import SemanticLayer.Error
import SemanticLayer.Grammar.Kind
import SemanticLayer.Grammar.Statements
import SemanticLayer.Sql.Query

/-!
# Queries from text

A query is read from text that holds one statement. Of what a grammar reads only plain SELECTs are
taken; any other construct is refused by its kind.
-/

namespace SemanticLayer.Sql

/-! ## Texts -/

/-- Reads statements by the grammar of a dialect, if one is given. -/
def statementsOf (text : String) (dialect : Option Dialect) : Result (List Grammar.Statement) :=
  match Grammar.statements? (.ofDialect? dialect) text with
  | some found => .ok found
  | none => .error .unreadableSql

/-- Reads a text that holds a single query. -/
def singleQueryOf (text : String) (dialect : Option Dialect) : Result Grammar.Query := do
  match ← statementsOf text dialect with
  | [.query query] => .ok query
  | [.other keyword _] => .error (.invalidSql (.notAQuery keyword))
  | found => .error (.invalidSql (.statementCount found.length))

/-! ## Pieces -/

/-- The failure for what is not supported. -/
def unsupported {α : Type} (kind : String) : Result α :=
  .error (.notImplemented kind)

/-- The column of a name in a path. -/
def columnOf (name : Grammar.ObjectName) : Column :=
  Column.addPath { name := name.last } name.scope

/-- The table of a name in a path. -/
def tableOf (name : Grammar.ObjectName) : Table :=
  Table.inPath { name := name.last } name.scope

/-- A number as an integer if it is one in range, else as a float. -/
def numberOf (text : String) : Result Literal :=
  match Number.int64? text.toList with
  | some value => .ok (.int value)
  | none =>
    match Number.Binary64.ofText? text.toList with
    | some value => .ok (.float value)
    | none => .error (.invalidSql (.number text))

/-- A literal value. -/
def literalOf : Grammar.Value → Result Literal
  | .number text => numberOf text
  | .string text => .ok (.string text)
  | .boolean value => .ok (.bool value)
  | .null => .ok .null
  | .marked literal _ => unsupported literal.kind

/-- An operator between two operands. -/
def binaryOpOf : Grammar.Operator → Result BinaryOp
  | .eq => .ok .eq
  | .notEq => .ok .ne
  | .lt => .ok .lt
  | .gt => .ok .gt
  | .ltEq => .ok .lte
  | .gtEq => .ok .gte
  | .and => .ok .and
  | .or => .ok .or
  | .plus => .ok .plus
  | .minus => .ok .minus
  | .multiply => .ok .times
  | .divide => .ok .divide
  | .modulo => .ok .modulo
  | .concat => .ok .concat
  | .other kind => unsupported kind

/-- An operator in front of an operand. -/
def unaryOpOf : Grammar.UnaryOperator → Result UnaryOp
  | .not => .ok .not
  | .minus => .ok .minus
  | .plus => .ok .plus
  | .other kind => unsupported kind

/-- How a table is joined. -/
def joinKindOf : Grammar.JoinOperator → Result JoinKind
  | .inner => .ok .inner
  | .left => .ok .left
  | .right => .ok .right
  | .full => .ok .full
  | .cross => .ok .cross
  | other => unsupported other.kind

/-- A count of rows. -/
def countOf : Grammar.Expr → Result UInt64
  | .value (.number text) =>
    match Number.uint64? text.toList with
    | some count => .ok count
    | none => .error (.invalidSql (.rowCount text))
  | other => unsupported other.kind

/-- A count of rows that may be missing. -/
def countOf? : Option Grammar.Expr → Result (Option UInt64)
  | some count => some <$> countOf count
  | none => .ok none

/-- Whether a SELECT keeps equal rows apart. -/
def distinctOf : Grammar.Distinct → Result Bool
  | .all => .ok false
  | .distinct => .ok true
  | .on _ => unsupported "On"

/-! ## Trees -/

mutual

/-- An expression. -/
def exprOf : Grammar.Expr → Result Expr
  | .identifier name => .ok (.column { name })
  | .compound owner name => .ok (.column (columnOf ⟨owner :: name.scope, name.last⟩))
  | .value value => .literal <$> literalOf value
  | .binary left op right => do
    let left ← exprOf left
    let op ← binaryOpOf op
    let right ← exprOf right
    pure (.binary left op right)
  | .pattern .like negated _ subject pattern none => do
    let subject ← exprOf subject
    let pattern ← exprOf pattern
    pure (.binary subject (if negated then .notLike else .like) pattern)
  | .unary op operand => do
    let op ← unaryOpOf op
    let operand ← exprOf operand
    pure (.unary op operand)
  | .call call => callOf call
  | .case operand conditions results otherwise => do
    let operand ← exprOf? operand
    let conditions ← exprsOf conditions
    let results ← exprsOf results
    let otherwise ← exprOf? otherwise
    pure (.case operand conditions results otherwise)
  | .between subject low high negated => do
    let subject ← exprOf subject
    let low ← exprOf low
    let high ← exprOf high
    pure (.between subject low high negated)
  | .isNull subject => do
    let subject ← exprOf subject
    pure (.isNull subject false)
  | .isNotNull subject => do
    let subject ← exprOf subject
    pure (.isNull subject true)
  | .inList subject items negated => do
    let subject ← exprOf subject
    let items ← exprsOf items
    pure (.inList subject items negated)
  | .nested inner => .nested <$> exprOf inner
  | .subquery query => .subquery <$> queryOf query
  | .tuple _ => unsupported "Tuple"
  | .test test _ => unsupported test.kind
  | .comparison test _ _ => unsupported test.kind
  | .pattern op _ _ _ _ _ => unsupported op.kind
  | .inSubquery _ _ _ => unsupported "InSubquery"
  | .exists _ _ => unsupported "Exists"
  | .grouping sets _ => unsupported sets.kind
  | .special construct _ => unsupported construct.kind

/-- Several expressions. -/
def exprsOf : List Grammar.Expr → Result (List Expr)
  | [] => .ok []
  | first :: rest => do
    let first ← exprOf first
    let rest ← exprsOf rest
    pure (first :: rest)

/-- An expression that may be missing. -/
def exprOf? : Option Grammar.Expr → Result (Option Expr)
  | some expr => some <$> exprOf expr
  | none => .ok none

/-- A call of a function that is neither filtered nor a window function. -/
def callOf : Grammar.Call → Result Expr
  | ⟨name, _, arguments, _, filter, _, window⟩ =>
    if window.isSome || filter.isSome then unsupported "Function"
    else do
      let (args, distinct) ← argumentsOf arguments
      let path := if name.scope = [] then none else some name.scope
      pure (.call name.last path args distinct)

/-- The arguments of a call, which has none without parentheses, and whether they are kept apart. -/
def argumentsOf : Option Grammar.Arguments → Result (List Expr × Bool)
  | none => .ok ([], false)
  | some (.query _) => unsupported "Subquery"
  | some (.list duplicates items _ _ _ _) => do
    let args ← argumentListOf items
    pure (args, duplicates == some .distinct)

/-- An argument of a call. -/
def argumentOf : Grammar.Argument → Result Expr
  | .expr expr => exprOf expr
  | .wildcard => .ok (.wildcard none)
  | .qualifiedWildcard path => .ok (.wildcard (some path))
  | .named _ _ => unsupported "Named"

/-- Several arguments. -/
def argumentListOf : List Grammar.Argument → Result (List Expr)
  | [] => .ok []
  | first :: rest => do
    let first ← argumentOf first
    let rest ← argumentListOf rest
    pure (first :: rest)

/-- An entry of ORDER BY. -/
def orderingOf : Grammar.Ordering → Result Ordering
  | ⟨expr, ascending, nullsFirst⟩ => do
    let expr ← exprOf expr
    pure { expr, ascending, nullsFirst }

/-- Several entries of ORDER BY. -/
def orderingsOf : List Grammar.Ordering → Result (List Ordering)
  | [] => .ok []
  | first :: rest => do
    let first ← orderingOf first
    let rest ← orderingsOf rest
    pure (first :: rest)

/-- A query. -/
def queryOf : Grammar.Query → Result Query
  | ⟨_, ctes, body, orderBy, limit, _, offset, _, _, _⟩ => do
    let ctes ← ctesOf ctes
    match ← bodyOf body with
    | .inr query => pure query
    | .inl select =>
      let orderBy ← orderingsOf orderBy
      let limit ← countOf? limit
      let offset ← countOf? offset
      pure { ctes, select := { select with orderBy, limit, offset } }

/-- A named query. -/
def cteOf : Grammar.Cte → Result Cte
  | ⟨aliasName, query, _⟩ => do
    let query ← queryOf query
    pure { name := aliasName.name, query }

/-- Several named queries. -/
def ctesOf : List Grammar.Cte → Result (List Cte)
  | [] => .ok []
  | first :: rest => do
    let first ← cteOf first
    let rest ← ctesOf rest
    pure (first :: rest)

/-- The SELECT that a query is made of, or the query that stands in parentheses in its place. -/
def bodyOf : Grammar.Body → Result (Select ⊕ Query)
  | .select select => .inl <$> selectOf select
  | .query query => .inr <$> queryOf query
  | .combined _ _ _ _ => unsupported "SetOperation"
  | .values _ => unsupported "Values"
  | .table _ => unsupported "Table"
  | .change change _ _ _ _ => unsupported change.kind

/-- The clauses of a SELECT. -/
def selectOf : Grammar.Select → Result Select
  | ⟨kept, _, _, projection, _, sources, _, filter, groupBy, groupModifiers, _, _, _, having, _,
      _⟩ => do
    let distinct ← distinctOf kept
    let projection ← itemsOf projection
    let sources ← sourcesOf? sources
    let groupBy ← groupByOf groupModifiers groupBy
    let filter ← exprOf? filter
    let having ← exprOf? having
    pure { distinct, projection, sources, filter, groupBy, having }

/-- The entries of GROUP BY, if nothing modifies them. -/
def groupByOf (modifiers : List String) : Option (List Grammar.Expr) → Result (List Expr)
  | none => unsupported "All"
  | some keys => if modifiers = [] then exprsOf keys else unsupported "Expressions"

/-- An entry of a projection. -/
def itemOf : Grammar.SelectItem → Result Expr
  | .unnamed expr => exprOf expr
  | .aliased expr aliasName => .aliased aliasName <$> exprOf expr
  | .wildcard _ => .ok (.wildcard none)
  | .qualifiedWildcard path _ => .ok (.wildcard (some path))

/-- Several entries of a projection. -/
def itemsOf : List Grammar.SelectItem → Result (List Expr)
  | [] => .ok []
  | first :: rest => do
    let first ← itemOf first
    let rest ← itemsOf rest
    pure (first :: rest)

/-- The entries of FROM, if there is a FROM clause. -/
def sourcesOf? : List Grammar.TableWithJoins → Result (Option (List Source))
  | [] => .ok none
  | first :: rest => do
    let first ← sourceOf first
    let rest ← sourcesOf? rest
    pure (some (first :: rest.getD []))

/-- An entry of FROM. -/
def sourceOf : Grammar.TableWithJoins → Result Source
  | ⟨relation, joins⟩ => do
    let primary ← relationOf relation
    let joins ← joinsOf joins
    pure { primary, joins }

/-- A table or a derived table. -/
def relationOf : Grammar.TableFactor → Result Relation
  | .table name aliasName _ _ _ =>
    .ok (.table { tableOf name with aliasName := aliasName.map Grammar.TableAlias.name })
  | .derived _ query aliasName => do
    let query ← queryOf query
    pure (.derived query (aliasName.map Grammar.TableAlias.name))
  | .nestedJoin _ _ => unsupported "NestedJoin"
  | .function _ _ _ => unsupported "Function"
  | .unnest _ _ => unsupported "UNNEST"
  | .tableFunction _ _ => unsupported "TableFunction"

/-- A join, which is on a condition or on none. -/
def joinOf : Grammar.Join → Result Join
  | ⟨operator, relation, matching, _⟩ => do
    let kind ← joinKindOf operator
    let on ← conditionOf matching
    let relation ← relationOf relation
    pure { kind, relation, on }

/-- The condition of a join, if it has one. -/
def conditionOf : Option Grammar.Matching → Result (Option Expr)
  | none => .ok none
  | some (.on condition) => some <$> exprOf condition
  | some (.using _) => unsupported "Using"
  | some .natural => unsupported "Natural"

/-- Several joins. -/
def joinsOf : List Grammar.Join → Result (List Join)
  | [] => .ok []
  | first :: rest => do
    let first ← joinOf first
    let rest ← joinsOf rest
    pure (first :: rest)

end

/-- Reads a query from text, by the grammar of a dialect if one is given. -/
def Query.ofText (text : String) (dialect : Option Dialect) : Result Query := do
  queryOf (← singleQueryOf text dialect)

end SemanticLayer.Sql
