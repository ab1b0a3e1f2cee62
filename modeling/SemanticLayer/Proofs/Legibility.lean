import SemanticLayer.Proofs.Heads
import SemanticLayer.Proofs.Numerals

/-!
# Tokens of readable queries

The text of a query is cut into the lexemes of its tokens if each token is written as the lexemes
it stands for. A query that can be read back has such tokens only: its numbers have no sign, and its
functions are words.
-/

namespace SemanticLayer.Sql

/-- Tokens that are written as the lexemes they are read back as. -/
def Tokens.Legible (tokens : Tokens) : Prop :=
  ∀ token ∈ tokens, token.IsLegible .duckDb

namespace Tokens

@[simp]
theorem legible_nil : Legible [] := by simp [Legible]

@[simp]
theorem legible_cons (token : Token) (rest : Tokens) :
    Legible (token :: rest) ↔ token.IsLegible .duckDb ∧ Legible rest := by
  simp [Legible]

@[simp]
theorem legible_append (first second : Tokens) :
    Legible (first ++ second) ↔ Legible first ∧ Legible second := by
  simp [Legible, or_imp, forall_and]

end Tokens

open Tokens (Legible)

@[simp]
theorem Token.isLegible_keyword (word : Keyword) : (Token.keyword word).IsLegible .duckDb := trivial

@[simp]
theorem Token.isLegible_symbol (mark : Symbol) : (Token.symbol mark).IsLegible .duckDb := trivial

@[simp]
theorem Token.isLegible_space : space.IsLegible .duckDb := trivial

@[simp]
theorem Token.isLegible_indent (depth : Nat) : (Token.indent depth).IsLegible .duckDb := trivial

@[simp]
theorem Name.isLegible_token (name : Name) : name.token.IsLegible .duckDb := trivial

@[simp]
theorem legible_parenthesized (tokens : Tokens) : Legible (parenthesized tokens) ↔ Legible tokens := by
  simp [parenthesized]

@[simp]
theorem legible_spaced (word : Keyword) : Legible (spaced word) := by
  simp [spaced]

@[simp]
theorem Path.legible_tokens (path : Path) : Legible path.tokens := by
  induction path with
  | nil => simp [tokens]
  | cons name rest ih =>
      rw [tokens] at ih
      simp [tokens, ih]

theorem legible_elim {tokens : Option Tokens} {further : Tokens → Tokens}
    (each : ∀ part ∈ tokens, Legible (further part)) : Legible (tokens.elim [] further) := by
  cases tokens with
  | none => exact Tokens.legible_nil
  | some part => exact each part rfl

theorem legible_commaSeparated {items : List Tokens} (each : ∀ item ∈ items, Legible item) :
    Legible (commaSeparated items) := by
  induction items with
  | nil => exact Tokens.legible_nil
  | cons item rest ih =>
      obtain ⟨first, others⟩ := List.forall_mem_cons.mp each
      cases rest with
      | nil => exact first
      | cons second more =>
          rw [commaSeparated]
          · simp [first, ih others]
          · simp

theorem legible_itemLines {items : List Tokens} (each : ∀ item ∈ items, Legible item) :
    Legible (itemLines items) := by
  induction items with
  | nil => exact Tokens.legible_nil
  | cons item rest ih =>
      obtain ⟨first, others⟩ := List.forall_mem_cons.mp each
      cases rest with
      | nil => simpa [itemLines] using first
      | cons second more =>
          rw [itemLines]
          · simp [first, ih others]
          · simp

theorem legible_branchTokens {conditions results : List Tokens}
    (eachCondition : ∀ part ∈ conditions, Legible part)
    (eachResult : ∀ part ∈ results, Legible part) : Legible (branchTokens conditions results) := by
  induction conditions generalizing results with
  | nil => exact Tokens.legible_nil
  | cons condition conditions ih =>
      obtain ⟨first, others⟩ := List.forall_mem_cons.mp eachCondition
      cases results with
      | nil => exact Tokens.legible_nil
      | cons result results =>
          obtain ⟨second, more⟩ := List.forall_mem_cons.mp eachResult
          simp [branchTokens, first, second, ih others more]

theorem legible_clause (word : Keyword) {items : List Tokens} (each : ∀ item ∈ items, Legible item) :
    Legible (clause word items) := by
  rw [clause.eq_def]
  split
  · exact Tokens.legible_nil
  · simpa using legible_commaSeparated each

theorem legible_ending {orderings : List Tokens} {limit offset : Option UInt64}
    (each : ∀ ordering ∈ orderings, Legible ordering) (smallLimit : ∀ n ∈ limit, n.toNat < 2 ^ 63)
    (smallOffset : ∀ n ∈ offset, n.toNat < 2 ^ 63) :
    Legible (ending .duckDb orderings limit offset) := by
  have count (n : UInt64) (small : n.toNat < 2 ^ 63) : (Token.int n.toInt64).IsLegible .duckDb := by
    rw [Token.IsLegible, Number.toInt_toInt64 small]
    exact Int.natCast_nonneg _
  have ordered := legible_clause .orderBy each
  cases orderings <;> cases limit <;> cases offset <;>
    simp_all [ending, pagination, Dialect.paginatesByFetch]

theorem Column.legible_tokens (column : Column) : Legible column.tokens := by
  simp [tokens]

theorem Table.legible_tokens (table : Table) : Legible table.tokens := by
  obtain ⟨name, path, aliasName⟩ := table
  cases aliasName <;> simp [tokens]

mutual

theorem Expr.legible_tokens : (expr : Expr) → expr.Readable → Legible (expr.tokens .duckDb)
  | .column column, _ => by
      rw [Expr.tokens]
      exact column.legible_tokens
  | .literal value, readable => by
      rw [Expr.tokens]
      cases value with
      | int value =>
          have positive : 0 ≤ value.toInt := readable.1
          simpa [Literal.token, Token.IsLegible] using positive
      | float value =>
          obtain ⟨finite, number, -⟩ := readable.2
          simpa [Literal.token, Token.IsLegible] using ⟨finite, number⟩
      | string value => simp [Literal.token, Token.IsLegible]
      | bool value => simp [Literal.token, Token.IsLegible]
      | null => simp [Literal.token, Token.IsLegible]
  | .wildcard path, _ => by
      simp [Expr.tokens]
  | .binary left op right, readable => by
      have first := left.legible_tokens readable.2.1
      have second := right.legible_tokens readable.2.2
      have between : Legible op.tokens := by
        cases op with
        | concat => simp [BinaryOp.tokens, Token.IsLegible]
        | _ => simp [BinaryOp.tokens]
      rw [Expr.tokens, if_neg (by simp [Dialect.hasConcatOperator])]
      simp [first, second, between]
  | .unary op operand, readable => by
      have inner := operand.legible_tokens readable.2
      cases op <;> simp [Expr.tokens, UnaryOp.tokens, inner]
  | .call name path args distinct, readable => by
      have each := legible_exprsTokens args readable.2
      have called : (Token.function name.value).IsLegible .duckDb := by
        obtain ⟨kept, word, -⟩ := readable.1.2
        rwa [Token.IsLegible, Expr.functionText_of_kept kept]
      have arguments := legible_commaSeparated each
      cases distinct <;> simp [Expr.tokens, called, arguments]
  | .case operand conditions results otherwise, readable => by
      obtain ⟨-, first, eachCondition, eachResult, last⟩ := readable
      have subject : Legible ((exprTokens? .duckDb operand).elim [] (space :: ·)) :=
        legible_elim fun part found => by simpa using legible_exprTokens? operand first part found
      have ending :
          Legible ((exprTokens? .duckDb otherwise).elim [] (spaced .elseWord ++ ·)) :=
        legible_elim fun part found => by simpa using legible_exprTokens? otherwise last part found
      have branches := legible_branchTokens (legible_exprsTokens conditions eachCondition)
        (legible_exprsTokens results eachResult)
      simp [Expr.tokens, subject, ending, branches]
  | .between subject low high negated, readable => by
      obtain ⟨-, first, second, third⟩ := readable
      have one := subject.legible_tokens first
      have two := low.legible_tokens second
      have three := high.legible_tokens third
      cases negated <;> simp [Expr.tokens, one, two, three]
  | .isNull subject negated, readable => by
      have inner := subject.legible_tokens readable.2
      simp [Expr.tokens, inner]
  | .inList subject items negated, readable => by
      obtain ⟨-, first, each⟩ := readable
      have inner := subject.legible_tokens first
      have listed := legible_commaSeparated (legible_exprsTokens items each)
      rw [Expr.tokens]
      split
      · simp [Token.IsLegible]
      · rename_i found
        rw [found] at listed
        cases negated <;> simp [inner, listed]
  | .aliased name child, readable => by
      have inner := child.legible_tokens readable.2
      simp [Expr.tokens, inner]
  | .nested inner, readable => by
      have inner := inner.legible_tokens readable.2
      simpa [Expr.tokens] using inner
  | .subquery query, readable => by
      have inner := query.legible_tokens readable.2
      simpa [Expr.tokens] using inner

theorem legible_exprTokens? : (expr : Option Expr) →
    everyExpr? (fun part => part.HasShape ∧ part.IsLegible)
      (fun query => query.select.HasShape ∧ query.IsLegible) expr →
    ∀ tokens ∈ exprTokens? .duckDb expr, Legible tokens
  | none, _ => by simp [exprTokens?]
  | some expr, readable => by simpa [exprTokens?] using expr.legible_tokens readable

theorem legible_exprsTokens : (exprs : List Expr) →
    everyExprs (fun part => part.HasShape ∧ part.IsLegible)
      (fun query => query.select.HasShape ∧ query.IsLegible) exprs →
    ∀ tokens ∈ exprsTokens .duckDb exprs, Legible tokens
  | [], _ => by simp [exprsTokens]
  | expr :: rest, readable => by
      simpa [exprsTokens] using
        ⟨expr.legible_tokens readable.1, legible_exprsTokens rest readable.2⟩

theorem Relation.legible_tokens : (relation : Relation) → relation.Readable →
    Legible (relation.tokens .duckDb)
  | .table table, _ => by
      rw [Relation.tokens]
      exact table.legible_tokens
  | .derived query aliasName, readable => by
      have inner := query.legible_tokens readable
      rw [Relation.tokens.eq_def]
      cases aliasName <;> simp [inner]

theorem Join.legible_tokens : (join : Join) → join.Readable → Legible (join.tokens .duckDb)
  | ⟨kind, relation, on⟩, readable => by
      have target := relation.legible_tokens readable.1
      have condition : Legible ((exprTokens? .duckDb on).elim [] (spaced .on ++ ·)) :=
        legible_elim fun part found => by simpa using legible_exprTokens? on readable.2 part found
      have words : Legible kind.tokens := by cases kind <;> simp [JoinKind.tokens]
      simp [Join.tokens, words, target, condition]

theorem legible_joinsTokens : (joins : List Join) →
    everyJoins (fun part => part.HasShape ∧ part.IsLegible)
      (fun query => query.select.HasShape ∧ query.IsLegible) joins →
    Legible (joinsTokens .duckDb joins)
  | [], _ => by simp [joinsTokens]
  | join :: rest, readable => by
      simpa [joinsTokens] using
        ⟨join.legible_tokens readable.1, legible_joinsTokens rest readable.2⟩

theorem Source.legible_tokens : (source : Source) → source.Readable →
    Legible (source.tokens .duckDb)
  | ⟨primary, joins⟩, readable => by
      simpa [Source.tokens] using
        ⟨primary.legible_tokens readable.1, legible_joinsTokens joins readable.2⟩

theorem legible_sourcesTokens : (sources : List Source) →
    everySources (fun part => part.HasShape ∧ part.IsLegible)
      (fun query => query.select.HasShape ∧ query.IsLegible) sources →
    ∀ tokens ∈ sourcesTokens .duckDb sources, Legible tokens
  | [], _ => by simp [sourcesTokens]
  | source :: rest, readable => by
      simpa [sourcesTokens] using
        ⟨source.legible_tokens readable.1, legible_sourcesTokens rest readable.2⟩

theorem legible_sourcesTokens? : (sources : Option (List Source)) →
    everySources? (fun part => part.HasShape ∧ part.IsLegible)
      (fun query => query.select.HasShape ∧ query.IsLegible) sources →
    ∀ tokens ∈ sourcesTokens? .duckDb sources, Legible tokens
  | none, _ => by simp [sourcesTokens?]
  | some sources, readable => by
      simpa [sourcesTokens?] using legible_sourcesTokens sources readable

theorem Ordering.legible_tokens : (ordering : Ordering) → ordering.expr.Readable →
    Legible (ordering.tokens .duckDb)
  | ⟨expr, ascending, nullsFirst⟩, readable => by
      have inner := expr.legible_tokens readable
      cases ascending <;> cases nullsFirst <;> simp [Ordering.tokens, Dialect.ordersNulls, inner]

theorem legible_orderingsTokens : (orderings : List Ordering) →
    everyOrderings (fun part => part.HasShape ∧ part.IsLegible)
      (fun query => query.select.HasShape ∧ query.IsLegible) orderings →
    ∀ tokens ∈ orderingsTokens .duckDb orderings, Legible tokens
  | [], _ => by simp [orderingsTokens]
  | ⟨expr, ascending, nullsFirst⟩ :: rest, readable => by
      simpa [orderingsTokens] using
        ⟨Ordering.legible_tokens ⟨expr, ascending, nullsFirst⟩ readable.1,
          legible_orderingsTokens rest readable.2⟩

theorem Select.legible_tokens : (select : Select) →
    select.Every (fun part => part.HasShape ∧ part.IsLegible)
      (fun query => query.select.HasShape ∧ query.IsLegible) →
    (∀ n ∈ select.limit, n.toNat < 2 ^ 63) → (∀ n ∈ select.offset, n.toNat < 2 ^ 63) →
    Legible (select.tokens .duckDb)
  | ⟨distinct, projection, sources, filter, groupBy, having, orderBy, limit, offset⟩,
    readable, smallLimit, smallOffset => by
      obtain ⟨items, tables, filtered, keys, groups, ordered⟩ := readable
      have projected := legible_itemLines (legible_exprsTokens projection items)
      have selected := legible_clause .fromWord (legible_sourcesTokens? sources tables)
      have restricted := legible_clause .whereWord fun part found =>
        legible_exprTokens? filter filtered part (Option.mem_toList.mp found)
      have grouped := legible_clause .groupBy (legible_exprsTokens groupBy keys)
      have kept := legible_clause .having fun part found =>
        legible_exprTokens? having groups part (Option.mem_toList.mp found)
      have closing := legible_ending (legible_orderingsTokens orderBy ordered) smallLimit smallOffset
      rw [Select.tokens]
      cases distinct <;> simp [projected, selected, restricted, grouped, kept, closing]

theorem Cte.legible_tokens : (cte : Cte) → cte.query.Readable → Legible (cte.tokens .duckDb)
  | ⟨name, query⟩, readable => by
      have inner := query.legible_tokens readable
      simp [Cte.tokens, inner]

theorem legible_ctesTokens : (ctes : List Cte) →
    everyCtes (fun part => part.HasShape ∧ part.IsLegible)
      (fun query => query.select.HasShape ∧ query.IsLegible) ctes →
    Legible (ctesTokens .duckDb ctes)
  | [], _ => by simp [ctesTokens]
  | [⟨name, query⟩], readable => by
      simpa [ctesTokens] using Cte.legible_tokens ⟨name, query⟩ readable.1
  | ⟨name, query⟩ :: second :: rest, readable => by
      have first := Cte.legible_tokens ⟨name, query⟩ readable.1
      have others := legible_ctesTokens (second :: rest) readable.2
      rw [ctesTokens]
      · simp [first, others]
      · simp

/-- Every token of a query that can be read back is written as the lexemes it stands for. -/
theorem Query.legible_tokens : (query : Query) → query.Readable → Legible (query.tokens .duckDb)
  | ⟨ctes, select⟩, readable => by
      obtain ⟨⟨-, legible⟩, named, body⟩ := readable
      have first := legible_ctesTokens ctes named
      have second := select.legible_tokens body legible.limit legible.offset
      rw [Query.tokens]
      split
      · exact second
      · simp [first, second]

end

end SemanticLayer.Sql
