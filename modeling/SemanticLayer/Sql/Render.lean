import SemanticLayer.Sql.Expr

/-!
# Writing queries

The tokens of expressions and queries in a dialect, and the text they make. Parentheses are written
where the expression holds them and nowhere else.
-/

namespace SemanticLayer.Sql

/-- Tokens between parentheses. -/
def parenthesized (tokens : Tokens) : Tokens :=
  .symbol .leftParen :: tokens ++ [.symbol .rightParen]

/-- A keyword with a blank on either side. -/
def spaced (word : Keyword) : Tokens :=
  [space, .keyword word, space]

/-- The branches of a CASE, as far as conditions and results go in pairs. -/
def branchTokens : List Tokens → List Tokens → Tokens
  | condition :: conditions, result :: results =>
    spaced .when ++ condition ++ spaced .thenWord ++ result ++ branchTokens conditions results
  | _, _ => []

/-- Items with a comma between them, each indented on a line of its own. -/
def itemLines : List Tokens → Tokens
  | [] => []
  | [item] => .symbol .newline :: .indent 1 :: item
  | item :: rest => .symbol .newline :: .indent 1 :: item ++ .symbol .comma :: itemLines rest

/-- A clause on a line of its own, if it has items. -/
def clause (word : Keyword) : List Tokens → Tokens
  | [] => []
  | items => .symbol .newline :: .keyword word :: space :: commaSeparated items

/-- The ordering and the pagination. A dialect that paginates ordered rows only gets an ordering
that orders nothing. -/
def ending (d : Dialect) (orderings : List Tokens) (limit offset : Option UInt64) : Tokens :=
  let paginated := limit.isSome || offset.isSome
  let ordering :=
    match orderings with
    | [] => if paginated && d.paginatesByFetch then .symbol .newline :: noOrder else []
    | _ => clause .orderBy orderings
  ordering ++ if paginated then .symbol .newline :: pagination d limit offset else []

mutual

/-- The tokens of an expression. -/
def Expr.tokens (d : Dialect) : Expr → Tokens
  | .column column => column.tokens
  | .literal value => [value.token]
  | .wildcard path => (path.getD []).tokens ++ [.symbol .star]
  | .binary left op right =>
    if op = .concat ∧ d.hasConcatOperator = false then
      .function "CONCAT" ::
        parenthesized (left.tokens d ++ .symbol .comma :: space :: right.tokens d)
    else left.tokens d ++ space :: op.tokens ++ space :: right.tokens d
  | .unary op operand => op.tokens ++ operand.tokens d
  | .call name path args distinct =>
    (path.getD []).tokens ++ .function name.value ::
      parenthesized
        ((if distinct then [.keyword .distinct, space] else []) ++
          commaSeparated (exprsTokens d args))
  | .case operand conditions results otherwise =>
    .keyword .case :: (exprTokens? d operand).elim [] (space :: ·) ++
      branchTokens (exprsTokens d conditions) (exprsTokens d results) ++
      (exprTokens? d otherwise).elim [] (spaced .elseWord ++ ·) ++ [space, .keyword .endWord]
  | .between subject low high negated =>
    subject.tokens d ++ (if negated then [space, .keyword .not] else []) ++ spaced .between ++
      low.tokens d ++ spaced .and ++ high.tokens d
  | .isNull subject negated =>
    subject.tokens d ++ [space, .keyword (if negated then .isNotNull else .isNull)]
  | .inList subject items negated =>
    match exprsTokens d items with
    | [] => [.bool negated]
    | item :: rest =>
      subject.tokens d ++ (if negated then [space, .keyword .not] else []) ++ spaced .inWord ++
        parenthesized (commaSeparated (item :: rest))
  | .aliased name child => child.tokens d ++ spaced .as ++ [name.token]
  | .nested inner => parenthesized (inner.tokens d)
  | .subquery query => parenthesized (query.tokens d)

/-- The tokens of an optional expression. -/
def exprTokens? (d : Dialect) : Option Expr → Option Tokens
  | none => none
  | some expr => some (expr.tokens d)

/-- The tokens of each expression. -/
def exprsTokens (d : Dialect) : List Expr → List Tokens
  | [] => []
  | expr :: rest => expr.tokens d :: exprsTokens d rest

/-- The tokens of a relation. -/
def Relation.tokens (d : Dialect) : Relation → Tokens
  | .table table => table.tokens
  | .derived query aliasName =>
    parenthesized (.symbol .newline :: query.tokens d ++ [.symbol .newline]) ++
      match aliasName with
      | some name => spaced .as ++ [name.token]
      | none => []

/-- The tokens of a join. -/
def Join.tokens (d : Dialect) : Join → Tokens
  | ⟨kind, relation, on⟩ =>
    kind.tokens ++ spaced .join ++ relation.tokens d ++
      (exprTokens? d on).elim [] (spaced .on ++ ·)

/-- The tokens of joins, each on a line of its own. -/
def joinsTokens (d : Dialect) : List Join → Tokens
  | [] => []
  | join :: rest => .symbol .newline :: join.tokens d ++ joinsTokens d rest

/-- The tokens of an entry of FROM. -/
def Source.tokens (d : Dialect) : Source → Tokens
  | ⟨primary, joins⟩ => primary.tokens d ++ joinsTokens d joins

/-- The tokens of each entry of FROM. -/
def sourcesTokens (d : Dialect) : List Source → List Tokens
  | [] => []
  | source :: rest => source.tokens d :: sourcesTokens d rest

/-- The tokens of each entry of an optional FROM. -/
def sourcesTokens? (d : Dialect) : Option (List Source) → List Tokens
  | none => []
  | some sources => sourcesTokens d sources

/-- The tokens of an entry of ORDER BY. Where missing values go is left out in a dialect that cannot
say it. -/
def Ordering.tokens (d : Dialect) : Ordering → Tokens
  | ⟨expr, ascending, nullsFirst⟩ =>
    expr.tokens d ++
      (ascending.elim [] fun up => [space, .keyword (if up then .asc else .desc)]) ++
      (if d.ordersNulls then
        nullsFirst.elim [] fun first =>
          [space, .keyword (if first then .nullsFirst else .nullsLast)]
      else [])

/-- The tokens of each entry of ORDER BY. -/
def orderingsTokens (d : Dialect) : List Ordering → List Tokens
  | [] => []
  | ordering :: rest => ordering.tokens d :: orderingsTokens d rest

/-- The tokens of a SELECT. Each item of the projection and each clause starts a line. -/
def Select.tokens (d : Dialect) : Select → Tokens
  | ⟨distinct, projection, sources, filter, groupBy, having, orderBy, limit, offset⟩ =>
    .keyword .select :: (if distinct then [space, .keyword .distinct] else []) ++
      itemLines (exprsTokens d projection) ++
      clause .fromWord (sourcesTokens? d sources) ++
      clause .whereWord (exprTokens? d filter).toList ++
      clause .groupBy (exprsTokens d groupBy) ++
      clause .having (exprTokens? d having).toList ++
      ending d (orderingsTokens d orderBy) limit offset

/-- The tokens of a named query. -/
def Cte.tokens (d : Dialect) : Cte → Tokens
  | ⟨name, query⟩ =>
    name.token :: spaced .as ++
      parenthesized (.symbol .newline :: query.tokens d ++ [.symbol .newline])

/-- The tokens of named queries, each on a line of its own. -/
def ctesTokens (d : Dialect) : List Cte → Tokens
  | [] => []
  | [cte] => cte.tokens d
  | cte :: rest => cte.tokens d ++ .symbol .comma :: .symbol .newline :: ctesTokens d rest

/-- The tokens of a query. -/
def Query.tokens (d : Dialect) : Query → Tokens
  | ⟨ctes, select⟩ =>
    (match ctesTokens d ctes with
      | [] => []
      | tokens => .keyword .withWord :: space :: tokens ++ [.symbol .newline]) ++ select.tokens d

end

/-- The text of an expression in a dialect. -/
def Expr.text (d : Dialect) (expr : Expr) : String :=
  Tokens.text d (expr.tokens d)

/-- The text of a query in a dialect. -/
def Query.text (d : Dialect) (query : Query) : String :=
  Tokens.text d (query.tokens d)

end SemanticLayer.Sql
