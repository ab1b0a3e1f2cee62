import SemanticLayer.Proofs.Readers
import SemanticLayer.Proofs.Shapes

/-!
# The lexemes of written queries

What an expression or a query is read back from, clause by clause. Blanks and line ends leave no
trace.
-/

namespace SemanticLayer

namespace Sql

open Grammar (Lexeme Word)

/-! ## Tokens -/

@[simp]
theorem Tokens.lexemes_nil (d : Dialect) : Tokens.lexemes d [] = [] := rfl

@[simp]
theorem Tokens.lexemes_cons (d : Dialect) (token : Token) (rest : Tokens) :
    Tokens.lexemes d (token :: rest) = token.lexemes d ++ Tokens.lexemes d rest := by
  simp [Tokens.lexemes]

@[simp]
theorem Tokens.lexemes_append (d : Dialect) (first second : Tokens) :
    Tokens.lexemes d (first ++ second) = Tokens.lexemes d first ++ Tokens.lexemes d second := by
  simp [Tokens.lexemes]

@[simp]
theorem Token.lexemes_space (d : Dialect) : space.lexemes d = [] := rfl

@[simp]
theorem Token.lexemes_indent (d : Dialect) (depth : Nat) : (Token.indent depth).lexemes d = [] := rfl

@[simp]
theorem Token.lexemes_symbol (d : Dialect) (mark : Symbol) :
    (Token.symbol mark).lexemes d =
      if mark = .space ∨ mark = .newline then [] else [.mark mark.text] := by
  cases mark <;> rfl

@[simp]
theorem Token.lexemes_keyword (d : Dialect) (word : Keyword) :
    (Token.keyword word).lexemes d = word.words.map Lexeme.key := by
  cases word <;> rfl

@[simp]
theorem Token.lexemes_int (d : Dialect) (value : Int64) :
    (Token.int value).lexemes d = [.number (Number.intText value.toInt)] := rfl

@[simp]
theorem Token.lexemes_function (d : Dialect) (called : String) :
    (Token.function called).lexemes d = [.word (Word.plain (d.functionText called))] := rfl

@[simp]
theorem Name.lexemes_token (d : Dialect) (name : Name) :
    name.token.lexemes d = [.word name.written] := rfl

/-- Lists of lexemes with a comma between them. -/
def commaJoined : List (List Lexeme) → List Lexeme
  | [] => []
  | [item] => item
  | item :: rest => item ++ .mark "," :: commaJoined rest

theorem commaJoined_cons_cons (first second : List Lexeme) (rest : List (List Lexeme)) :
    commaJoined (first :: second :: rest) =
      first ++ .mark "," :: commaJoined (second :: rest) := rfl

@[simp]
theorem lexemes_commaSeparated (d : Dialect) (items : List Tokens) :
    Tokens.lexemes d (commaSeparated items) = commaJoined (items.map (Tokens.lexemes d)) := by
  induction items with
  | nil => rfl
  | cons item rest ih =>
      cases rest with
      | nil => rfl
      | cons second more =>
          rw [commaSeparated, Tokens.lexemes_append, Tokens.lexemes_cons, Tokens.lexemes_cons, ih]
          · rfl
          · simp

@[simp]
theorem lexemes_itemLines (d : Dialect) (items : List Tokens) :
    Tokens.lexemes d (itemLines items) = commaJoined (items.map (Tokens.lexemes d)) := by
  induction items with
  | nil => rfl
  | cons item rest ih =>
      cases rest with
      | nil => rfl
      | cons second more =>
          simp only [itemLines, Tokens.lexemes_cons, Tokens.lexemes_append, List.cons_append]
          rw [ih]
          rfl

@[simp]
theorem lexemes_parenthesized (d : Dialect) (tokens : Tokens) :
    Tokens.lexemes d (parenthesized tokens) =
      .mark "(" :: (Tokens.lexemes d tokens ++ [.mark ")"]) := by
  simp [parenthesized, Symbol.text]

@[simp]
theorem lexemes_spaced (d : Dialect) (word : Keyword) :
    Tokens.lexemes d (spaced word) = word.words.map Lexeme.key := by
  simp [spaced]

@[simp]
theorem lexemes_clause (d : Dialect) (word : Keyword) (items : List Tokens) :
    Tokens.lexemes d (clause word items) =
      if items = [] then [] else
        word.words.map Lexeme.key ++ commaJoined (items.map (Tokens.lexemes d)) := by
  cases items with
  | nil => rfl
  | cons item rest => simp [clause]

/-! ## Names -/

/-- The lexemes of a dotted name. -/
def Path.dottedLexemes : Path → List Lexeme
  | [] => []
  | first :: rest => .word first.written :: rest.flatMap fun part => [.mark ".", .word part.written]

/-- The lexemes of a path with a dot behind each part. -/
def Path.lexemes (path : Path) : List Lexeme :=
  path.flatMap fun part => [.word part.written, .mark "."]

@[simp]
theorem Path.lexemes_nil : Path.lexemes [] = [] := rfl

@[simp]
theorem Path.lexemes_tokens (d : Dialect) (path : Path) :
    Tokens.lexemes d path.tokens = Path.lexemes path := by
  induction path with
  | nil => rfl
  | cons name rest ih =>
      have tokens : Path.tokens (name :: rest) = name.token :: .symbol .dot :: Path.tokens rest := rfl
      simpa [tokens, Path.lexemes, Symbol.text] using ih

theorem Path.dottedLexemes_concat (path : Path) (last : Name) :
    Path.dottedLexemes (path ++ [last]) = Path.lexemes path ++ [.word last.written] := by
  induction path with
  | nil => rfl
  | cons first rest ih =>
      cases rest with
      | nil => rfl
      | cons second more =>
          simp only [Path.dottedLexemes, Path.lexemes, List.cons_append, List.flatMap_cons,
            List.nil_append, List.cons.injEq, true_and] at ih ⊢
          rw [ih]

/-- The lexemes of an alias, if there is one. -/
def aliasLexemes : Option Name → List Lexeme
  | none => []
  | some name => [.key "AS", .word name.written]

/-- The lexemes of a list of items behind keywords, if there are any. -/
def clauseLexemes (keywords : List String) (items : List (List Lexeme)) : List Lexeme :=
  if items = [] then [] else keywords.map Lexeme.key ++ commaJoined items

/-! ## Expressions -/

/-- The lexemes that an expression is read back from. -/
def Expr.lexemes (expr : Expr) : List Lexeme :=
  Tokens.lexemes .duckDb (expr.tokens .duckDb)

/-- The lexemes that a query is read back from. -/
def Query.lexemes (query : Query) : List Lexeme :=
  Tokens.lexemes .duckDb (query.tokens .duckDb)

@[simp]
theorem map_lexemes_exprsTokens (exprs : List Expr) :
    (exprsTokens .duckDb exprs).map (Tokens.lexemes .duckDb) = exprs.map Expr.lexemes := by
  induction exprs with
  | nil => rfl
  | cons expr rest ih => simpa [exprsTokens, Expr.lexemes] using ih

/-- The lexemes of NOT in front of a test. -/
def negationLexemes (negated : Bool) : List Lexeme :=
  if negated then [.key "NOT"] else []

/-- The lexemes of the branches of a CASE. -/
def branchLexemes : List Expr → List Expr → List Lexeme
  | condition :: conditions, result :: results =>
    .key "WHEN" :: condition.lexemes ++ .key "THEN" :: result.lexemes ++
      branchLexemes conditions results
  | _, _ => []

theorem lexemes_branchTokens (conditions results : List Expr) :
    Tokens.lexemes .duckDb
        (branchTokens (exprsTokens .duckDb conditions) (exprsTokens .duckDb results)) =
      branchLexemes conditions results := by
  induction conditions generalizing results with
  | nil => rfl
  | cons condition conditions ih =>
      cases results with
      | nil => rfl
      | cons result results =>
          simp [exprsTokens, branchTokens, branchLexemes, ih, Expr.lexemes, Keyword.words,
            Keyword.text]

namespace Expr

theorem lexemes_column (column : Column) :
    (Expr.column column).lexemes = Path.dottedLexemes (column.qualifier ++ [column.name]) := by
  simp [lexemes, tokens, Column.tokens, Path.dottedLexemes_concat]

theorem lexemes_wildcard (path : Option Path) :
    (Expr.wildcard path).lexemes = Path.lexemes (path.getD []) ++ [.mark "*"] := by
  simp [lexemes, tokens, Symbol.text]

theorem lexemes_binary (left right : Expr) (op : BinaryOp) :
    (Expr.binary left op right).lexemes =
      left.lexemes ++ (Tokens.lexemes .duckDb op.tokens ++ right.lexemes) := by
  rw [lexemes, tokens, if_neg (by simp [Dialect.hasConcatOperator])]
  simp [lexemes]

theorem lexemes_unary (op : UnaryOp) (operand : Expr) :
    (Expr.unary op operand).lexemes = Tokens.lexemes .duckDb op.tokens ++ operand.lexemes := by
  simp [lexemes, tokens]

theorem lexemes_call (name : Name) (path : Option Path) (args : List Expr) (distinct : Bool) :
    (Expr.call name path args distinct).lexemes =
      Path.lexemes (path.getD []) ++
        .word (Word.plain (Dialect.duckDb.functionText name.value)) :: .mark "(" ::
          ((if distinct then [.key "DISTINCT"] else []) ++ commaJoined (args.map lexemes) ++
            [.mark ")"]) := by
  cases distinct <;> simp [lexemes, tokens, Keyword.words, Keyword.text]

theorem lexemes_case
    (operand : Option Expr) (conditions results : List Expr) (otherwise : Option Expr) :
    (Expr.case operand conditions results otherwise).lexemes =
      .key "CASE" :: (operand.elim [] lexemes ++ (branchLexemes conditions results ++
        (otherwise.elim [] (fun expr => .key "ELSE" :: expr.lexemes) ++ [.key "END"]))) := by
  have last : Tokens.lexemes .duckDb
      ((exprTokens? .duckDb otherwise).elim [] (spaced .elseWord ++ ·)) =
        otherwise.elim [] fun expr => .key "ELSE" :: expr.lexemes := by
    cases otherwise <;> simp [exprTokens?, lexemes, Keyword.words, Keyword.text]
  have subject : Tokens.lexemes .duckDb ((exprTokens? .duckDb operand).elim [] (space :: ·)) =
      operand.elim [] lexemes := by
    cases operand <;> simp [exprTokens?, lexemes]
  rw [lexemes, tokens]
  simp [lexemes_branchTokens, last, subject, Keyword.words, Keyword.text]

theorem lexemes_between (subject low high : Expr) (negated : Bool) :
    (Expr.between subject low high negated).lexemes =
      subject.lexemes ++ (negationLexemes negated ++ .key "BETWEEN" ::
        (low.lexemes ++ .key "AND" :: high.lexemes)) := by
  cases negated <;> simp [lexemes, tokens, negationLexemes, Keyword.words, Keyword.text]

theorem lexemes_isNull (subject : Expr) (negated : Bool) :
    (Expr.isNull subject negated).lexemes =
      subject.lexemes ++ .key "IS" :: (negationLexemes negated ++ [.key "NULL"]) := by
  cases negated <;> simp [lexemes, tokens, negationLexemes, Keyword.words]

theorem lexemes_inList {items : List Expr} (some : items ≠ []) (subject : Expr) (negated : Bool) :
    (Expr.inList subject items negated).lexemes =
      subject.lexemes ++ (negationLexemes negated ++ .key "IN" :: .mark "(" ::
        (commaJoined (items.map lexemes) ++ [.mark ")"])) := by
  cases items with
  | nil => exact absurd rfl some
  | cons item rest =>
      rw [← map_lexemes_exprsTokens]
      cases negated <;>
        simp [lexemes, tokens, exprsTokens, negationLexemes, Keyword.words, Keyword.text]

theorem lexemes_aliased (name : Name) (child : Expr) :
    (Expr.aliased name child).lexemes = child.lexemes ++ [.key "AS", .word name.written] := by
  simp [lexemes, tokens, Keyword.words, Keyword.text]

theorem lexemes_nested (inner : Expr) :
    (Expr.nested inner).lexemes = .mark "(" :: (inner.lexemes ++ [.mark ")"]) := by
  simp [lexemes, tokens]

theorem lexemes_subquery (query : Query) :
    (Expr.subquery query).lexemes = .mark "(" :: (query.lexemes ++ [.mark ")"]) := by
  simp [lexemes, tokens, Query.lexemes]

end Expr

/-! ## Queries -/

/-- The lexemes of the words in front of JOIN. -/
def JoinKind.lexemes (kind : JoinKind) : List Lexeme :=
  Tokens.lexemes .duckDb kind.tokens

/-- The lexemes that a relation is read back from. -/
def Relation.lexemes (relation : Relation) : List Lexeme :=
  Tokens.lexemes .duckDb (relation.tokens .duckDb)

theorem Relation.lexemes_table (table : Table) :
    (Relation.table table).lexemes =
      Path.dottedLexemes (table.path.getD [] ++ [table.name]) ++ aliasLexemes table.aliasName := by
  rw [lexemes, tokens, Table.tokens, Path.dottedLexemes_concat]
  cases table.aliasName <;> simp [aliasLexemes, Keyword.words, Keyword.text]

theorem Relation.lexemes_derived (query : Query) (aliasName : Option Name) :
    (Relation.derived query aliasName).lexemes =
      .mark "(" :: (query.lexemes ++ .mark ")" :: aliasLexemes aliasName) := by
  rw [lexemes, tokens.eq_def]
  cases aliasName <;> simp [Query.lexemes, aliasLexemes, Keyword.words, Keyword.text]

/-- The lexemes that a join is read back from. -/
def Join.lexemes (join : Join) : List Lexeme :=
  join.kind.lexemes ++ .key "JOIN" :: (join.relation.lexemes ++
    join.on.elim [] fun condition => .key "ON" :: condition.lexemes)

theorem Join.lexemes_tokens (join : Join) :
    Tokens.lexemes .duckDb (join.tokens .duckDb) = join.lexemes := by
  obtain ⟨kind, relation, on⟩ := join
  cases on <;>
    simp [tokens, lexemes, JoinKind.lexemes, Relation.lexemes, exprTokens?, Expr.lexemes,
      Keyword.words, Keyword.text]

/-- The lexemes that an entry of FROM is read back from. -/
def Source.lexemes (source : Source) : List Lexeme :=
  source.primary.lexemes ++ source.joins.flatMap Join.lexemes

theorem lexemes_joinsTokens (joins : List Join) :
    Tokens.lexemes .duckDb (joinsTokens .duckDb joins) = joins.flatMap Join.lexemes := by
  induction joins with
  | nil => rfl
  | cons join rest ih => simp [joinsTokens, Join.lexemes_tokens, ih]

theorem map_lexemes_sourcesTokens? (sources : Option (List Source)) :
    (sourcesTokens? .duckDb sources).map (Tokens.lexemes .duckDb) =
      (sources.getD []).map Source.lexemes := by
  cases sources with
  | none => rfl
  | some sources =>
      induction sources with
      | nil => rfl
      | cons source rest ih =>
          obtain ⟨primary, joins⟩ := source
          simp only [sourcesTokens?, Option.getD_some] at ih
          simp [sourcesTokens?, sourcesTokens, Source.tokens, Source.lexemes, lexemes_joinsTokens,
            Relation.lexemes, ih]

/-- The lexemes that an entry of ORDER BY is read back from. -/
def Ordering.lexemes (ordering : Ordering) : List Lexeme :=
  ordering.expr.lexemes ++
    ((ordering.ascending.elim [] fun up => [.key (if up then "ASC" else "DESC")]) ++
      ordering.nullsFirst.elim [] fun first =>
        [.key "NULLS", .key (if first then "FIRST" else "LAST")])

theorem map_lexemes_orderingsTokens (orderings : List Ordering) :
    (orderingsTokens .duckDb orderings).map (Tokens.lexemes .duckDb) =
      orderings.map Ordering.lexemes := by
  induction orderings with
  | nil => rfl
  | cons ordering rest ih =>
      obtain ⟨expr, ascending, nullsFirst⟩ := ordering
      rw [orderingsTokens, List.map_cons, ih, List.map_cons]
      congr 1
      rcases ascending with - | - | - <;> rcases nullsFirst with - | - | - <;>
        simp [Ordering.tokens, Ordering.lexemes, Expr.lexemes, Dialect.ordersNulls, Keyword.words,
          Keyword.text]

/-- The lexemes of a clause that counts rows. -/
def countLexemes (keyword : String) (count : Option UInt64) : List Lexeme :=
  count.elim [] fun n => [.key keyword, .number (Number.intText n.toInt64.toInt)]

/-- The lexemes that a SELECT is read back from. -/
def Select.lexemes (select : Select) : List Lexeme :=
  .key "SELECT" :: ((if select.distinct then [.key "DISTINCT"] else []) ++
    (commaJoined (select.projection.map Expr.lexemes) ++
    (clauseLexemes ["FROM"] ((select.sources.getD []).map Source.lexemes) ++
    (clauseLexemes ["WHERE"] (select.filter.toList.map Expr.lexemes) ++
    (clauseLexemes ["GROUP", "BY"] (select.groupBy.map Expr.lexemes) ++
    (clauseLexemes ["HAVING"] (select.having.toList.map Expr.lexemes) ++
    (clauseLexemes ["ORDER", "BY"] (select.orderBy.map Ordering.lexemes) ++
    (countLexemes "LIMIT" select.limit ++ countLexemes "OFFSET" select.offset))))))))

theorem lexemes_ending (orderings : List Ordering) (limit offset : Option UInt64) :
    Tokens.lexemes .duckDb (ending .duckDb (orderingsTokens .duckDb orderings) limit offset) =
      clauseLexemes ["ORDER", "BY"] (orderings.map Ordering.lexemes) ++
        (countLexemes "LIMIT" limit ++ countLexemes "OFFSET" offset) := by
  rw [← map_lexemes_orderingsTokens]
  cases orderingsTokens .duckDb orderings <;> cases limit <;> cases offset <;>
    simp [ending, pagination, clauseLexemes, countLexemes, Dialect.paginatesByFetch, Keyword.words,
      Keyword.text]

theorem lexemes_clause_eq (word : Keyword) (items : List Tokens) :
    Tokens.lexemes .duckDb (clause word items) =
      clauseLexemes word.words (items.map (Tokens.lexemes .duckDb)) := by
  simp [clauseLexemes]

theorem map_lexemes_exprTokens? (expr : Option Expr) :
    (exprTokens? .duckDb expr).toList.map (Tokens.lexemes .duckDb) =
      expr.toList.map Expr.lexemes := by
  cases expr <;> rfl

theorem Select.lexemes_tokens (select : Select) :
    Tokens.lexemes .duckDb (select.tokens .duckDb) = select.lexemes := by
  obtain ⟨distinct, projection, sources, filter, groupBy, having, orderBy, limit, offset⟩ := select
  rw [tokens]
  simp only [Tokens.lexemes_append, Tokens.lexemes_cons, lexemes_itemLines, lexemes_clause_eq,
    lexemes_ending, map_lexemes_exprsTokens, map_lexemes_sourcesTokens?, map_lexemes_exprTokens?]
  cases distinct <;> simp [lexemes, Keyword.words, Keyword.text]

/-- The lexemes that a named query is read back from. -/
def Cte.lexemes (cte : Cte) : List Lexeme :=
  .word cte.name.written :: .key "AS" :: .mark "(" :: (cte.query.lexemes ++ [.mark ")"])

theorem lexemes_ctesTokens (ctes : List Cte) :
    Tokens.lexemes .duckDb (ctesTokens .duckDb ctes) = commaJoined (ctes.map Cte.lexemes) := by
  induction ctes with
  | nil => rfl
  | cons cte rest ih =>
      have first : Tokens.lexemes .duckDb (cte.tokens .duckDb) = cte.lexemes := by
        obtain ⟨name, query⟩ := cte
        simp [Cte.tokens, Cte.lexemes, Query.lexemes, Keyword.words, Keyword.text]
      cases rest with
      | nil => simpa [ctesTokens, commaJoined] using first
      | cons second more =>
          rw [ctesTokens]
          · simp [first, ih, commaJoined, Symbol.text]
          · simp

/-- A query is read back from its named queries and its SELECT. -/
theorem Query.lexemes_eq (query : Query) :
    query.lexemes =
      clauseLexemes ["WITH"] (query.ctes.map Cte.lexemes) ++ query.select.lexemes := by
  obtain ⟨ctes, select⟩ := query
  have named := lexemes_ctesTokens ctes
  rw [lexemes, tokens, Tokens.lexemes_append, Select.lexemes_tokens]
  congr 1
  cases ctes with
  | nil => rfl
  | cons cte rest =>
      have written : ctesTokens .duckDb (cte :: rest) ≠ [] := by
        obtain ⟨name, query⟩ := cte
        cases rest <;> simp [ctesTokens, Cte.tokens]
      split
      · contradiction
      · simp [named, clauseLexemes, Keyword.words, Keyword.text]

end Sql
end SemanticLayer
