import SemanticLayer.Proofs.Identifiers
import SemanticLayer.Proofs.Regrouping

/-!
# Operations in the text of each dialect

Every dialect writes columns, whole numbers, operators, parentheses and calls that join two texts in
such a way that its own grammar cuts the text into their lexemes. The lexemes of the dialects differ
in the marks that quote names, and in the operator that joins texts.
-/

namespace SemanticLayer

namespace Sql

open Grammar (Word Lexeme Rules)
open Grammar.Lexeme (Cuts Ends Parts endings)

/-! ## Lexemes -/

/-- The lexemes of a token in a dialect. -/
def Token.lexemesIn (d : Dialect) : Token → List Lexeme
  | .name value quoted => [.word (Name.wordIn d ⟨value, if quoted then some '"' else none⟩)]
  | .concat => [.mark d.concatOperator]
  | token => token.lexemes d

/-- The lexemes of tokens one after the other in a dialect. -/
def Tokens.lexemesIn (d : Dialect) (tokens : Tokens) : List Lexeme :=
  tokens.flatMap (Token.lexemesIn d)

/-- The lexemes of an expression in a dialect. -/
def Expr.lexemesIn (d : Dialect) (expr : Expr) : List Lexeme :=
  Tokens.lexemesIn d (expr.tokens d)

variable {d : Dialect}

@[simp]
theorem Tokens.lexemesIn_nil : Tokens.lexemesIn d [] = [] := rfl

@[simp]
theorem Tokens.lexemesIn_cons (token : Token) (rest : Tokens) :
    Tokens.lexemesIn d (token :: rest) = token.lexemesIn d ++ Tokens.lexemesIn d rest := by
  simp [Tokens.lexemesIn]

@[simp]
theorem Tokens.lexemesIn_append (first second : Tokens) :
    Tokens.lexemesIn d (first ++ second) =
      Tokens.lexemesIn d first ++ Tokens.lexemesIn d second := by
  simp [Tokens.lexemesIn]

@[simp]
theorem Name.lexemesIn_token (name : Name) :
    name.token.lexemesIn d = [.word (name.wordIn d)] := by
  obtain ⟨value, quote⟩ := name
  cases quote <;> rfl

@[simp]
theorem Path.lexemesIn_tokens (path : Path) :
    Tokens.lexemesIn d path.tokens = path.lexemesIn d := by
  induction path with
  | nil => rfl
  | cons name rest ih =>
      have tokens : Path.tokens (name :: rest) = name.token :: .symbol .dot :: Path.tokens rest := rfl
      rw [tokens, Tokens.lexemesIn_cons, Tokens.lexemesIn_cons, ih, Name.lexemesIn_token]
      rfl

/-- An operator but the one that joins texts has the same lexemes in every dialect. -/
theorem BinaryOp.lexemesIn_tokens {op : BinaryOp} (other : op ≠ .concat) :
    Tokens.lexemesIn d op.tokens = Tokens.lexemes .duckDb op.tokens := by
  cases op with
  | concat => exact absurd rfl other
  | _ => rfl

/-! ## Operations -/

/-- The call that joins two texts. -/
def Expr.joinedTo (left right : Expr) : Expr :=
  .call { value := "CONCAT" } none [left, right] false

/-- Columns, whole numbers without a sign, and what calls that join two texts, operators and
parentheses make of them, where the operands of each operator are bound as the grammar asks for and
none of the operators joins texts. -/
inductive Expr.Spelled : Expr → Prop where
  | column {found : Column} (plain : (Expr.column found).Plain) : Spelled (.column found)
  | int {value : Int64} (natural : 0 ≤ value.toInt) : Spelled (.literal (.int value))
  | binary {left right : Expr} {op : BinaryOp} (other : op ≠ .concat)
      (held : op.grip ≤ left.trailing) (tight : op.grip < right.loosest) :
      Spelled left → Spelled right → Spelled (.binary left op right)
  | nested {inner : Expr} : Spelled inner → Spelled (.nested inner)
  | joined {left right : Expr} : Spelled left → Spelled right → Spelled (left.joinedTo right)

namespace Expr

theorem lexemesIn_column (found : Column) :
    (Expr.column found).lexemesIn d =
      found.qualifier.lexemesIn d ++ [.word (found.name.wordIn d)] := by
  simp [lexemesIn, tokens, Column.tokens]

theorem lexemesIn_int (value : Int64) :
    (Expr.literal (.int value)).lexemesIn d = [.number (Number.intText value.toInt)] := by
  rw [lexemesIn, tokens]
  rfl

theorem tokens_binary_of_ne {op : BinaryOp} (other : op ≠ .concat) (left right : Expr) :
    (Expr.binary left op right).tokens d =
      left.tokens d ++ (space :: op.tokens ++ space :: right.tokens d) := by
  rw [tokens, if_neg fun same => other same.1, List.append_assoc]

theorem lexemesIn_binary {op : BinaryOp} (other : op ≠ .concat) (left right : Expr) :
    (Expr.binary left op right).lexemesIn d =
      left.lexemesIn d ++ (Tokens.lexemes .duckDb op.tokens ++ right.lexemesIn d) := by
  have blank : space.lexemesIn d = [] := rfl
  simp [lexemesIn, tokens_binary_of_ne other, BinaryOp.lexemesIn_tokens other, blank]

theorem lexemesIn_nested (inner : Expr) :
    (Expr.nested inner).lexemesIn d = .mark "(" :: (inner.lexemesIn d ++ [.mark ")"]) := by
  rw [lexemesIn, tokens, parenthesized, Tokens.lexemesIn_append, Tokens.lexemesIn_cons]
  rfl

theorem functionText_concat (d : Dialect) : d.functionText "CONCAT" = "CONCAT" := by
  cases d <;> decide

theorem tokens_joinedTo (left right : Expr) :
    (left.joinedTo right).tokens d = .function "CONCAT" :: .symbol .leftParen ::
      (left.tokens d ++ .symbol .comma :: space :: (right.tokens d ++ [.symbol .rightParen])) := by
  simp [joinedTo, tokens, Path.tokens, parenthesized, exprsTokens, commaSeparated]

theorem lexemesIn_joinedTo (left right : Expr) :
    (left.joinedTo right).lexemesIn d = .word (Word.plain "CONCAT") :: .mark "(" ::
      (left.lexemesIn d ++ .mark "," :: (right.lexemesIn d ++ [.mark ")"])) := by
  have function : (Token.function "CONCAT").lexemesIn d = [.word (Word.plain "CONCAT")] := by
    rw [Token.lexemesIn, Token.lexemes, functionText_concat]
    all_goals simp
  have marks : (Token.symbol .leftParen).lexemesIn d = [.mark "("] ∧
      (Token.symbol .comma).lexemesIn d = [.mark ","] ∧ space.lexemesIn d = [] ∧
        (Token.symbol .rightParen).lexemesIn d = [.mark ")"] := ⟨rfl, rfl, rfl, rfl⟩
  simp [lexemesIn, tokens_joinedTo, function, marks]

end Expr

/-! ## Cutting -/

section

variable {rest : List Char} {lexemes : List Lexeme}

/-- A name is cut off in the grammar of its dialect. -/
theorem Name.cuts (name : Name) (cuts : Cuts (Rules.ofDialect? (some d)) rest lexemes)
    (ends : Ends rest) :
    Cuts (Rules.ofDialect? (some d)) ((name.token.text d).toList ++ rest)
      (.word (name.wordIn d) :: lexemes) := by
  obtain ⟨c, more, text, starts, first⟩ := name.first?_text d
  rw [text]
  exact cuts.identifier starts (first rest ends) (by simp)

/-- A column is cut into its names with dots between them. -/
theorem Path.cuts (path : Path) (name : Name)
    (cuts : Cuts (Rules.ofDialect? (some d)) rest lexemes) (ends : Ends rest) :
    Cuts (Rules.ofDialect? (some d))
      ((Tokens.text d path.tokens).toList ++ ((name.token.text d).toList ++ rest))
      (path.lexemesIn d ++ .word (name.wordIn d) :: lexemes) := by
  induction path with
  | nil => simpa [Path.tokens, Tokens.text, Path.lexemesIn] using name.cuts cuts ends
  | cons first path ih =>
      have noDigit : ∀ c ∈ ((Tokens.text d (Path.tokens path)).toList ++
          ((name.token.text d).toList ++ rest)).head?, c.isDigit = false := by
        refine Path.head?_text d path ?_
        obtain ⟨c, more, text, starts, -⟩ := name.first?_text d
        rw [text]
        rintro _ ⟨⟩
        exact (Grammar.Lexeme.identifierStarts_facts starts).1
      have dotted := ih.lexeme (Grammar.Lexeme.first?_point noDigit) le_rfl (by decide)
        (by simp [Grammar.Lexeme.startsLineComment]) (by simp)
      have whole := first.cuts dotted (by simp [Ends, Grammar.Lexeme.endings])
      simpa [Path.toList_text_cons, Path.lexemesIn] using whole

/-- The operators that are no words, in characters. -/
def operatorTexts : List (Char × List Char) :=
  [('=', []), ('<', ['>']), ('<', []), ('>', []), ('<', ['=']), ('>', ['=']), ('+', []), ('-', []),
    ('*', []), ('/', []), ('%', [])]

/-- In front of a blank an operator is cut off in every grammar. -/
theorem cuts_operator {rules : Rules} {blank c : Char} {more : List Char}
    (cuts : Cuts rules (blank :: rest) lexemes) (isBlank : blank = ' ' ∨ blank = '\n')
    (listed : (c, more) ∈ operatorTexts) :
    Cuts rules (c :: (more ++ blank :: rest)) (.mark (String.ofList (c :: more)) :: lexemes) := by
  obtain ⟨first, noBlank, noLine, noBlock⟩ :
      Grammar.Lexeme.first? rules c (more ++ blank :: rest) =
          some (.mark (String.ofList (c :: more)), blank :: rest) ∧
        Text.isBlank c = false ∧
        Grammar.Lexeme.startsLineComment rules (c :: (more ++ blank :: rest)) = false ∧
        (more ++ blank :: rest).head? ≠ some '*' := by
    simp only [operatorTexts, List.mem_cons, Prod.mk.injEq, List.not_mem_nil, or_false] at listed
    rcases listed with ⟨rfl, rfl⟩ | ⟨rfl, rfl⟩ | ⟨rfl, rfl⟩ | ⟨rfl, rfl⟩ | ⟨rfl, rfl⟩ | ⟨rfl, rfl⟩ |
      ⟨rfl, rfl⟩ | ⟨rfl, rfl⟩ | ⟨rfl, rfl⟩ | ⟨rfl, rfl⟩ | ⟨rfl, rfl⟩
    all_goals
      rcases isBlank with rfl | rfl
      all_goals
        refine ⟨?_, by decide, ?_, by simp⟩
        all_goals
          rcases rules with _ | d
          · rfl
          · cases d <;> rfl
  exact cuts.lexeme first (by simp) noBlank noLine fun _ => noBlock

/-- An operator but the one that joins texts is cut off in front of a blank. -/
theorem BinaryOp.cuts (d : Dialect) {op : BinaryOp} (other : op ≠ .concat) {rules : Rules}
    (cuts : Cuts rules (' ' :: rest) lexemes) :
    Cuts rules ((Tokens.text d op.tokens).toList ++ ' ' :: rest)
      (Tokens.lexemes .duckDb op.tokens ++ lexemes) := by
  have ends (chars : List Char) : Ends (' ' :: chars) := by simp [Ends, Grammar.Lexeme.endings]
  have text (token : Token) (more : Tokens) : (Tokens.text d (token :: more)).toList =
      (token.text d).toList ++ (Tokens.text d more).toList := Tokens.toList_text_cons d token more
  have mark (symbol : Symbol) (c : Char) (more : List Char)
      (listed : (c, more) ∈ operatorTexts) (same : symbol.text = String.ofList (c :: more)) :
      Cuts rules ((Tokens.text d [.symbol symbol]).toList ++ ' ' :: rest)
        (.mark symbol.text :: lexemes) := by
    have whole := cuts_operator cuts (.inl rfl) listed
    simpa [text, Token.text, same, Tokens.text] using whole
  have word (keyword : Keyword) (bare : isBareIdentifier keyword.text.toList = true) :
      Cuts rules ((Tokens.text d [.keyword keyword]).toList ++ ' ' :: rest)
        (.word (Word.plain keyword.text) :: lexemes) := by
    simpa [text, Token.text, Tokens.text] using cuts.bare bare (ends rest)
  cases op with
  | concat => exact absurd rfl other
  | eq => exact mark .eq '=' [] (by decide) rfl
  | ne => exact mark .ne '<' ['>'] (by decide) rfl
  | lt => exact mark .lt '<' [] (by decide) rfl
  | gt => exact mark .gt '>' [] (by decide) rfl
  | lte => exact mark .lte '<' ['='] (by decide) rfl
  | gte => exact mark .gte '>' ['='] (by decide) rfl
  | plus => exact mark .plus '+' [] (by decide) rfl
  | minus => exact mark .minus '-' [] (by decide) rfl
  | times => exact mark .times '*' [] (by decide) rfl
  | divide => exact mark .divide '/' [] (by decide) rfl
  | modulo => exact mark .modulo '%' [] (by decide) rfl
  | and => exact word .and (by decide)
  | or => exact word .or (by decide)
  | like => exact word .like (by decide)
  | notLike =>
      have like := ((word .like (by decide)).blank (.inl rfl)).bare
        (by decide : isBareIdentifier "NOT".toList = true) (ends _)
      have words : Tokens.lexemes .duckDb BinaryOp.notLike.tokens =
          [.word (Word.plain "NOT"), .word (Word.plain "LIKE")] := rfl
      rw [words]
      simpa [BinaryOp.tokens, text, space, Token.text, Symbol.text, Keyword.text] using like

/-- What is spelled out is cut into its lexemes in the grammar of its dialect. -/
theorem Expr.Spelled.cuts {expr : Expr} (spelled : expr.Spelled) {rest : List Char}
    {lexemes : List Lexeme} (cuts : Cuts (Rules.ofDialect? (some d)) rest lexemes)
    (parts : Parts rest) :
    Cuts (Rules.ofDialect? (some d)) ((Tokens.text d (expr.tokens d)).toList ++ rest)
      (expr.lexemesIn d ++ lexemes) := by
  have closes (behind : List Char) : Parts (')' :: behind) := by simp [Parts]
  induction spelled generalizing rest lexemes with
  | @column found _ =>
      rw [Expr.lexemesIn_column]
      have whole := found.qualifier.cuts found.name cuts (ends_of_parts parts)
      simpa [Expr.tokens, Column.tokens, Tokens.text_append, Tokens.text] using whole
  | @int value natural =>
      obtain ⟨n, same⟩ := Int.eq_ofNat_of_zero_le natural
      have whole := cuts.number (Number.natText_ne_nil n) (Number.all_isDigit_natText n) (.inl rfl)
        (.inl rfl) parts
      rw [Expr.lexemesIn_int, same]
      simpa [Expr.tokens, Literal.token, Tokens.text, Token.text, same, Number.intText] using whole
  | @binary left right op other _ _ _ _ first second =>
      have operator := BinaryOp.cuts d other ((second cuts parts).blank (.inl rfl))
      have whole := first (operator.blank (.inl rfl)) (by simp [Parts])
      rw [Expr.lexemesIn_binary other, Expr.tokens_binary_of_ne other]
      simpa [Tokens.text_append, Tokens.toList_text_cons, space, Token.text, Symbol.text] using whole
  | nested _ ih =>
      have inside := (ih (cuts.punctuation (by simp : ')' ∈ _)) (closes _)).punctuation
        (by simp : '(' ∈ _)
      rw [Expr.lexemesIn_nested, Expr.tokens, parenthesized]
      simpa [Tokens.text_append, Tokens.toList_text_cons, Token.text, Symbol.text, Tokens.text]
        using inside
  | @joined left right _ _ first second =>
      have inside := (second (cuts.punctuation (by simp : ')' ∈ _)) (closes _)).blank (.inl rfl)
      have arguments := first (inside.punctuation (by simp : ',' ∈ _)) (by simp [Parts])
      have whole := (arguments.punctuation (by simp : '(' ∈ _)).bare
        (by decide : isBareIdentifier "CONCAT".toList = true) (by simp [Ends, endings])
      rw [Expr.lexemesIn_joinedTo, Expr.tokens_joinedTo]
      simpa [Tokens.text_append, Tokens.toList_text_cons, space, Token.text, Symbol.text,
        Tokens.text, Expr.functionText_concat] using whole

/-- The text that asks for the rows that a spelled condition holds of is cut into its lexemes in the
grammar of its dialect. -/
theorem lexemes_rowsOf {condition : Expr} (spelled : condition.Spelled) :
    Lexeme.ofText? (Rules.ofDialect? (some d)) ((rowsOf condition).text d) =
      some (.key "SELECT" :: .mark "*" :: .key "WHERE" :: condition.lexemesIn d) := by
  have ends (c : Char) (behind : List Char) (blank : c = ' ' ∨ c = '\n') : Ends (c :: behind) := by
    rcases blank with rfl | rfl <;> simp [Ends, endings]
  have inner := spelled.cuts (Cuts.nil (Rules.ofDialect? (some d))) (by simp [Parts])
  have filtered := (inner.blank (.inl rfl)).bare
    (by decide : isBareIdentifier "WHERE".toList = true) (ends _ _ (.inl rfl))
  have starred := cuts_operator (filtered.blank (.inr rfl)) (.inr rfl)
    (by decide : ('*', []) ∈ operatorTexts)
  have whole := (((starred.blank (.inl rfl)).blank (.inl rfl)).blank (.inr rfl)).bare
    (by decide : isBareIdentifier "SELECT".toList = true) (ends _ _ (.inr rfl))
  have text : ((rowsOf condition).text d).toList = "SELECT".toList ++ '\n' :: ' ' :: ' ' :: '*' ::
      '\n' :: ("WHERE".toList ++ ' ' :: ((Tokens.text d (condition.tokens d)).toList ++ [])) := by
    rw [Query.text, tokens_rowsOf]
    simp [Tokens.toList_text_cons, Token.text, Symbol.text, Keyword.text, space]
  have words : Word.plain "SELECT" = ⟨"SELECT", none, "SELECT"⟩ ∧
      Word.plain "WHERE" = ⟨"WHERE", none, "WHERE"⟩ := by decide
  rw [words.1, words.2, List.append_nil (condition.lexemesIn d)] at whole
  rw [Lexeme.ofText?, text]
  exact whole _ (Nat.le_refl _)

end

end Sql
end SemanticLayer
