import Mathlib.Data.List.Chain
import SemanticLayer.Sql.Render

/-!
# Neighbouring tokens

Compiled SQL never puts two words or two literals side by side: what stands behind a word or a
literal is a blank, a comma, a parenthesis or, behind a name, a dot. Behind a dot stands no number,
and an operator of one character is not lengthened by what follows it. So every token ends where it
is meant to end; only two minus signs may meet.
-/

namespace SemanticLayer.Sql

/-- A symbol that parts whatever stands in front of it from whatever stands behind. -/
def Symbol.parts : Symbol → Bool
  | .comma | .leftParen | .rightParen | .space | .newline => true
  | _ => false

/-- A symbol that is no shorter form of another piece of SQL. -/
def Symbol.isFree : Symbol → Bool
  | .dot | .minus | .eq | .lt | .gt | .lte | .divide => false
  | _ => true

/-- Punctuation, an operator or a blank. -/
def Token.isSymbol : Token → Bool
  | .symbol _ => true
  | _ => false

/-- A token that parts what stands on either side of it. -/
def Token.parts : Token → Bool
  | .symbol mark => mark.parts
  | _ => false

/-- A token that may stand behind a dot. -/
def Token.isNamed : Token → Bool
  | .name _ _ | .function _ | .symbol _ => true
  | _ => false

/-- A token that may make an arrow with a minus sign in front of it. -/
def Token.makesArrow : Token → Bool
  | .symbol .gt | .symbol .gte | .indent _ => true
  | _ => false

/-- A token that words and literals may follow. -/
def Token.isSeparator : Token → Bool
  | .symbol _ | .indent _ => true
  | _ => false

/-- Whether the second token may follow the first. -/
def Token.Beside (first second : Token) : Prop :=
  match first with
  | .symbol .dot => second.isNamed = true
  | .symbol .minus => second.makesArrow = false
  | .symbol mark => mark.isFree = true ∨ second.parts = true
  | .indent _ => True
  | .name _ _ => second.parts = true ∨ second = .symbol .dot
  | _ => second.parts = true

/-- A token that parts may follow every other. -/
theorem Token.Beside.of_parts {first second : Token} (parts : second.parts = true) :
    first.Beside second := by
  cases second with
  | symbol mark =>
      cases first with
      | symbol other =>
          cases other <;> cases mark <;> simp_all [Token.Beside, Token.parts, Symbol.parts, Token.isNamed, Token.makesArrow]
      | _ => simp [Token.Beside, parts]
  | _ => cases parts

/-- Tokens each of which may follow the one before it. -/
def Tokens.Apart (tokens : Tokens) : Prop :=
  tokens.IsChain Token.Beside

/-- Tokens that may stand behind any others: none, or a list that starts with a symbol that
parts. -/
def Tokens.Opens (tokens : Tokens) : Prop :=
  tokens = [] ∨ ∃ mark rest, mark.parts = true ∧ tokens = .symbol mark :: rest

namespace Tokens.Opens

theorem nil : Opens [] := .inl rfl

theorem symbol (mark : Symbol) (parts : mark.parts = true) (rest : Tokens) :
    Opens (.symbol mark :: rest) :=
  .inr ⟨mark, rest, parts, rfl⟩

theorem append {front rest : Tokens} (first : Opens front) (second : Opens rest) :
    Opens (front ++ rest) := by
  obtain rfl | ⟨mark, more, parts, rfl⟩ := first
  · exact second
  · exact symbol mark parts (more ++ rest)

/-- A part that is left out or starts with a symbol that parts. -/
theorem elim {α : Type} {tokens : α → Tokens} (opens : ∀ value, Opens (tokens value))
    (part : Option α) : Opens (part.elim [] tokens) := by
  cases part with
  | none => exact nil
  | some value => exact opens value

end Tokens.Opens

namespace Tokens.Apart

theorem nil : Apart [] := List.IsChain.nil

theorem singleton (token : Token) : Apart [token] := List.IsChain.singleton token

/-- A symbol in front of tokens, unless it is part of a longer symbol. -/
theorem symbol
    {rest : Tokens} (mark : Symbol) (free : mark.isFree = true) (apart : Apart rest) :
    Apart (.symbol mark :: rest) := by
  refine List.isChain_cons.mpr ⟨fun _ _ => ?_, apart⟩
  cases mark <;> first | exact .inl rfl | cases free

/-- A dot in front of tokens that start with a name. -/
theorem dot
    {rest : Tokens} (apart : Apart rest) (named : ∀ token ∈ rest.head?, token.isNamed = true) :
    Apart (.symbol .dot :: rest) :=
  List.isChain_cons.mpr ⟨named, apart⟩

/-- A minus sign in front of tokens that make no arrow with it. -/
theorem minus
    {rest : Tokens} (apart : Apart rest)
    (noArrow : ∀ token ∈ rest.head?, token.makesArrow = false) :
    Apart (.symbol .minus :: rest) :=
  List.isChain_cons.mpr ⟨noArrow, apart⟩

theorem indent {rest : Tokens} (depth : Nat) (apart : Apart rest) :
    Apart (.indent depth :: rest) := by
  refine List.isChain_cons.mpr ⟨fun _ _ => ?_, apart⟩
  trivial

theorem append {front rest : Tokens} (first : Apart front) (second : Apart rest)
    (opens : Opens rest) : Apart (front ++ rest) := by
  refine List.isChain_append.mpr ⟨first, second, ?_⟩
  intro _ _ next found
  obtain rfl | ⟨mark, more, parts, rfl⟩ := opens
  · cases found
  · obtain rfl := Option.some.inj found
    exact .of_parts parts

theorem cons {rest : Tokens} (token : Token) (apart : Apart rest) (opens : Opens rest) :
    Apart (token :: rest) :=
  append (singleton token) apart opens

/-- A part that is left out or apart. -/
theorem elim {α : Type} {tokens : α → Tokens} {part : Option α}
    (apart : ∀ value ∈ part, Apart (tokens value)) : Apart (part.elim [] tokens) := by
  cases part with
  | none => exact nil
  | some value => exact apart value rfl

/-- What stands behind a word or a literal in the middle of such tokens is a symbol. -/
theorem isSymbol_behind
    {front : Tokens} {token : Token} {rest : Tokens}
    (apart : Apart (front ++ token :: rest)) (word : token.isSeparator = false) :
    rest = [] ∨ ∃ mark more, rest = .symbol mark :: more := by
  cases rest with
  | nil => exact .inl rfl
  | cons next more =>
      have chain : Token.Beside token next := (List.isChain_append_cons_cons.mp apart).2.1
      cases next with
      | symbol mark => exact .inr ⟨mark, more, rfl⟩
      | _ => cases token <;> simp_all [Token.Beside, Token.parts, Token.isSeparator]

end Tokens.Apart

open Tokens (Apart Opens)

/-! ## Names and lists -/

theorem Path.apart_append
    {rest : Tokens} (path : Path) (apart : Apart rest)
    (named : ∀ token ∈ rest.head?, token.isNamed = true) : Apart (path.tokens ++ rest) := by
  induction path with
  | nil => exact apart
  | cons name path ih =>
      have behind : ∀ token ∈ (Path.tokens path ++ rest).head?, token.isNamed = true := by
        cases path with
        | nil => exact named
        | cons other more => simp [Path.tokens, Name.token, Token.isNamed]
      refine List.isChain_cons.mpr ⟨?_, ih.dot behind⟩
      simp [Name.token, Token.Beside]

theorem Column.apart_tokens (column : Column) : Apart column.tokens :=
  Path.apart_append column.qualifier (.singleton column.name.token)
    (by simp [Name.token, Token.isNamed])

theorem Table.apart_tokens (table : Table) : Apart table.tokens := by
  refine Path.apart_append (table.path.getD []) ?_ (by simp [Name.token, Token.isNamed])
  cases table.aliasName with
  | none => exact .singleton table.name.token
  | some aliasName =>
      refine .cons table.name.token (.symbol .space rfl ?_) (.symbol .space rfl _)
      exact .cons (.keyword .as) (.symbol .space rfl (.singleton aliasName.token))
        (.symbol .space rfl _)

theorem apart_parenthesized {tokens : Tokens} (apart : Apart tokens) :
    Apart (parenthesized tokens) :=
  .symbol .leftParen rfl (.append apart (.singleton _) (.symbol .rightParen rfl []))

theorem opens_spaced (word : Keyword) (rest : Tokens) : Opens (spaced word ++ rest) :=
  .symbol .space rfl _

theorem apart_spaced_append {rest : Tokens} (word : Keyword) (apart : Apart rest) :
    Apart (spaced word ++ rest) :=
  .symbol .space rfl (.cons (.keyword word) (.symbol .space rfl apart) (.symbol .space rfl rest))

theorem apart_commaSeparated {items : List Tokens} (each : ∀ item ∈ items, Apart item) :
    Apart (commaSeparated items) := by
  fun_induction commaSeparated items with
  | case1 => exact .nil
  | case2 item => exact each item List.mem_cons_self
  | case3 item rest _ ih =>
      have tail := ih fun other found => each other (List.mem_cons_of_mem _ found)
      exact .append (each item List.mem_cons_self) (.symbol .comma rfl (.symbol .space rfl tail))
        (.symbol .comma rfl _)

theorem apart_itemLines {items : List Tokens} (each : ∀ item ∈ items, Apart item) :
    Apart (itemLines items) := by
  fun_induction itemLines items with
  | case1 => exact .nil
  | case2 item => exact .symbol .newline rfl (.indent 1 (each item List.mem_cons_self))
  | case3 item rest _ ih =>
      have tail := ih fun other found => each other (List.mem_cons_of_mem _ found)
      have first := Apart.indent 1 (each item List.mem_cons_self)
      exact .symbol .newline rfl (.append first (.symbol .comma rfl tail) (.symbol .comma rfl _))

theorem opens_branchTokens (conditions results : List Tokens) :
    Opens (branchTokens conditions results) := by
  fun_cases branchTokens conditions results with
  | case1 => exact .symbol .space rfl _
  | case2 => exact .nil

theorem apart_branchTokens
    {conditions results : List Tokens}
    (each : ∀ condition ∈ conditions, Apart condition) (all : ∀ result ∈ results, Apart result) :
    Apart (branchTokens conditions results) := by
  fun_induction branchTokens conditions results with
  | case1 condition conditions result results ih =>
      have tail := ih
        (fun other found => each other (List.mem_cons_of_mem _ found))
        (fun other found => all other (List.mem_cons_of_mem _ found))
      simp only [List.append_assoc]
      refine apart_spaced_append .when (.append (each _ List.mem_cons_self) ?_ (opens_spaced _ _))
      refine apart_spaced_append .thenWord ?_
      exact .append (all _ List.mem_cons_self) tail (opens_branchTokens conditions results)
  | case2 => exact .nil

/-! ## Clauses -/

theorem opens_clause (word : Keyword) (items : List Tokens) : Opens (clause word items) := by
  cases items with
  | nil => exact .nil
  | cons item rest => exact .symbol .newline rfl _

theorem apart_clause {items : List Tokens} (word : Keyword) (each : ∀ item ∈ items, Apart item) :
    Apart (clause word items) := by
  cases items with
  | nil => exact .nil
  | cons item rest =>
      have list := Apart.symbol .space rfl (apart_commaSeparated each)
      exact .symbol .newline rfl (.cons (.keyword word) list (.symbol .space rfl _))

theorem apart_pagination (d : Dialect) (limit offset : Option UInt64) :
    Apart (pagination d limit offset) := by
  unfold pagination
  split
  · cases limit <;> simp [Apart, Token.Beside, Token.parts, Symbol.parts, Symbol.isFree, space]
  · cases limit <;> cases offset <;>
      simp [Apart, Token.Beside, Token.parts, Symbol.parts, Symbol.isFree, space]

theorem apart_noOrder : Apart noOrder := by
  simp [noOrder, Apart, Token.Beside, Token.parts, Symbol.parts, Symbol.isFree, space]

theorem opens_ending (d : Dialect) (orderings : List Tokens) (limit offset : Option UInt64) :
    Opens (ending d orderings limit offset) := by
  refine .append ?_ ?_
  · cases orderings with
    | nil => dsimp only; split; exacts [.symbol .newline rfl _, .nil]
    | cons ordering rest => exact opens_clause .orderBy (ordering :: rest)
  · split; exacts [.symbol .newline rfl _, .nil]

theorem apart_ending
    {d : Dialect} {orderings : List Tokens} (limit offset : Option UInt64)
    (each : ∀ ordering ∈ orderings, Apart ordering) :
    Apart (ending d orderings limit offset) := by
  refine .append ?_ ?_ ?_
  · cases orderings with
    | nil => dsimp only; split; exacts [.symbol .newline rfl apart_noOrder, .nil]
    | cons ordering rest => exact apart_clause .orderBy each
  · split; exacts [.symbol .newline rfl (apart_pagination d limit offset), .nil]
  · split; exacts [.symbol .newline rfl _, .nil]

/-! ## Expressions and queries -/

theorem BinaryOp.apart_tokens (op : BinaryOp) : Apart op.tokens := by
  cases op <;>
    simp [BinaryOp.tokens, Apart, Token.Beside, Token.parts, Symbol.parts, Symbol.isFree, space]

theorem UnaryOp.apart_append
    {rest : Tokens} (op : UnaryOp) (apart : Apart rest)
    (noArrow : ∀ token ∈ rest.head?, token.makesArrow = false) :
    Apart (op.tokens ++ rest) := by
  cases op with
  | not => exact .cons (.keyword .not) (.symbol .space rfl apart) (.symbol .space rfl rest)
  | minus => exact apart.minus noArrow
  | plus => exact .symbol .plus rfl apart

/-- A path in front of tokens starts with a name, or is empty. -/
theorem Path.head?_append
    {rest : Tokens} {P : Token → Prop} (path : Path) (names : ∀ name : Name, P name.token)
    (last : ∀ token ∈ rest.head?, P token) : ∀ token ∈ (path.tokens ++ rest).head?, P token := by
  cases path with
  | nil => exact last
  | cons name more =>
      intro token found
      obtain rfl : name.token = token := by simpa [Path.tokens] using found
      exact names name

/-- An expression makes no arrow with a minus sign in front of it. -/
theorem Expr.makesArrow_head?_tokens (d : Dialect) : (expr : Expr) → (rest : Tokens) →
    (∀ token ∈ rest.head?, token.makesArrow = false) →
    ∀ token ∈ (expr.tokens d ++ rest).head?, token.makesArrow = false
  | .column found, rest, _ => by
      rw [Expr.tokens, Column.tokens, List.append_assoc]
      exact Path.head?_append _ (by simp [Name.token, Token.makesArrow]) (by simp [Name.token, Token.makesArrow])
  | .literal value, rest, _ => by
      cases value <;> simp [Expr.tokens, Literal.token, Token.makesArrow]
  | .wildcard path, rest, _ => by
      rw [Expr.tokens, List.append_assoc]
      exact Path.head?_append _ (by simp [Name.token, Token.makesArrow]) (by simp [Token.makesArrow])
  | .binary left op right, rest, _ => by
      rw [Expr.tokens]
      split
      · simp [Token.makesArrow]
      · rw [List.append_assoc, List.append_assoc]
        exact left.makesArrow_head?_tokens d _ (by simp [space, Token.makesArrow])
  | .unary op operand, rest, last => by
      rw [Expr.tokens]
      cases op <;> simp [UnaryOp.tokens, Token.makesArrow]
  | .call name path args distinct, rest, _ => by
      rw [Expr.tokens, List.append_assoc]
      exact Path.head?_append _ (by simp [Name.token, Token.makesArrow]) (by simp [Token.makesArrow])
  | .case operand conditions results otherwise, rest, _ => by
      simp [Expr.tokens, Token.makesArrow]
  | .between subject low high negated, rest, _ => by
      simp only [Expr.tokens, List.append_assoc]
      refine subject.makesArrow_head?_tokens d _ ?_
      cases negated <;> simp [spaced, space, Token.makesArrow]
  | .isNull subject negated, rest, _ => by
      rw [Expr.tokens, List.append_assoc]
      exact subject.makesArrow_head?_tokens d _ (by simp [space, Token.makesArrow])
  | .inList subject items negated, rest, _ => by
      rw [Expr.tokens]
      split
      · simp [Token.makesArrow]
      · simp only [List.append_assoc]
        refine subject.makesArrow_head?_tokens d _ ?_
        cases negated <;> simp [spaced, space, Token.makesArrow]
  | .aliased name child, rest, _ => by
      simp only [Expr.tokens, List.append_assoc]
      exact child.makesArrow_head?_tokens d _ (by simp [spaced, space, Token.makesArrow])
  | .nested inner, rest, _ => by simp [Expr.tokens, parenthesized, Token.makesArrow]
  | .subquery query, rest, _ => by simp [Expr.tokens, parenthesized, Token.makesArrow]

theorem JoinKind.apart_tokens (kind : JoinKind) : Apart kind.tokens := by
  cases kind <;>
    simp [JoinKind.tokens, Apart, Token.Beside, Token.parts, Symbol.parts, Symbol.isFree, space]

/-- The word that negates a test, if it is negated. -/
theorem apart_negation (negated : Bool) :
    Apart (if negated then [space, .keyword .not] else []) := by
  split
  · exact .symbol .space rfl (.singleton _)
  · exact .nil

theorem opens_negation (negated : Bool) :
    Opens (if negated then [space, .keyword .not] else []) := by
  split
  · exact .symbol .space rfl _
  · exact .nil

/-- The alias of a relation. -/
theorem apart_alias (aliasName : Option Name) :
    Apart (match aliasName with
      | some name => spaced .as ++ [name.token]
      | none => []) := by
  cases aliasName with
  | none => exact .nil
  | some name => exact apart_spaced_append .as (.singleton name.token)

mutual

/-- The tokens of an expression keep apart. -/
theorem Expr.apart_tokens (d : Dialect) : (expr : Expr) → Apart (expr.tokens d)
  | .column column => by
      rw [Expr.tokens]
      exact column.apart_tokens
  | .literal value => by
      rw [Expr.tokens]
      exact .singleton value.token
  | .wildcard path => by
      rw [Expr.tokens]
      exact Path.apart_append _ (.singleton _) (by simp [Token.isNamed])
  | .binary left op right => by
      rw [Expr.tokens]
      have first := left.apart_tokens d
      have second := right.apart_tokens d
      split
      · have arguments := Apart.append first (.symbol .comma rfl (.symbol .space rfl second))
          (.symbol .comma rfl _)
        exact .cons _ (apart_parenthesized arguments) (.symbol .leftParen rfl _)
      · have behind :=
          Apart.append op.apart_tokens (.symbol .space rfl second) (.symbol .space rfl _)
        simpa only [List.append_assoc, List.cons_append, space] using
          Apart.append first (.symbol .space rfl behind) (.symbol .space rfl _)
  | .unary op operand => by
      rw [Expr.tokens]
      have noArrow := operand.makesArrow_head?_tokens d [] (by simp)
      rw [List.append_nil] at noArrow
      exact op.apart_append (operand.apart_tokens d) noArrow
  | .call name path args distinct => by
      rw [Expr.tokens]
      have arguments := apart_commaSeparated (apart_exprsTokens d args)
      refine Path.apart_append _ (.cons _ (apart_parenthesized ?_) (.symbol .leftParen rfl _))
        (by simp [Token.isNamed])
      cases distinct with
      | false => exact arguments
      | true => exact .cons _ (.symbol .space rfl arguments) (.symbol .space rfl _)
  | .case operand conditions results otherwise => by
      rw [Expr.tokens]
      have subject := apart_exprTokens? d operand
      have last := apart_exprTokens? d otherwise
      have branches := apart_branchTokens (apart_exprsTokens d conditions)
        (apart_exprsTokens d results)
      have ending : Apart [space, .keyword .endWord] := .symbol .space rfl (.singleton _)
      have closing := Apart.append
        (.elim fun tokens found => apart_spaced_append .elseWord (last tokens found)) ending
        (.symbol .space rfl _)
      have opensElse := Opens.elim (opens_spaced .elseWord) (exprTokens? d otherwise)
      have opensClosing := opensElse.append (.symbol .space rfl [.keyword .endWord])
      have body := branches.append closing opensClosing
      have opensBody := (opens_branchTokens (exprsTokens d conditions) (exprsTokens d results)).append
        opensClosing
      have whole := Apart.append
        (.elim fun tokens found => .symbol .space rfl (subject tokens found)) body opensBody
      have opensWhole := (Opens.elim (.symbol .space rfl) (exprTokens? d operand)).append opensBody
      simpa only [List.append_assoc, List.cons_append, space] using
        Apart.cons (.keyword .case) whole opensWhole
  | .between subject low high negated => by
      rw [Expr.tokens]
      have bounds := Apart.append (low.apart_tokens d)
        (apart_spaced_append .and (high.apart_tokens d)) (opens_spaced _ _)
      have test := Apart.append (apart_negation negated) (apart_spaced_append .between bounds)
        (opens_spaced _ _)
      simpa only [List.append_assoc] using
        Apart.append (subject.apart_tokens d) test ((opens_negation negated).append (opens_spaced _ _))
  | .isNull subject negated => by
      rw [Expr.tokens]
      exact .append (subject.apart_tokens d) (.symbol .space rfl (.singleton _))
        (.symbol .space rfl _)
  | .inList subject items negated => by
      rw [Expr.tokens]
      have each := apart_exprsTokens d items
      split
      · exact .singleton _
      · rename_i first rest found
        rw [found] at each
        have list := apart_parenthesized (apart_commaSeparated each)
        have test := Apart.append (apart_negation negated) (apart_spaced_append .inWord list)
          (opens_spaced _ _)
        simpa only [List.append_assoc] using
          Apart.append (subject.apart_tokens d) test
            ((opens_negation negated).append (opens_spaced _ _))
  | .aliased name child => by
      rw [Expr.tokens, List.append_assoc]
      exact .append (child.apart_tokens d) (apart_spaced_append .as (.singleton name.token))
        (opens_spaced _ _)
  | .nested inner => by
      rw [Expr.tokens]
      exact apart_parenthesized (inner.apart_tokens d)
  | .subquery query => by
      rw [Expr.tokens]
      exact apart_parenthesized (query.apart_tokens d)

theorem apart_exprTokens? (d : Dialect) :
    (expr : Option Expr) → ∀ tokens ∈ exprTokens? d expr, Apart tokens
  | none => by simp [exprTokens?]
  | some expr => by simpa [exprTokens?] using expr.apart_tokens d

theorem apart_exprsTokens (d : Dialect) :
    (exprs : List Expr) → ∀ tokens ∈ exprsTokens d exprs, Apart tokens
  | [] => by simp [exprsTokens]
  | expr :: rest => by
      simpa [exprsTokens] using ⟨expr.apart_tokens d, apart_exprsTokens d rest⟩

/-- The tokens of a relation keep apart. -/
theorem Relation.apart_tokens (d : Dialect) : (relation : Relation) → Apart (relation.tokens d)
  | .table table => by
      rw [Relation.tokens]
      exact table.apart_tokens
  | .derived query aliasName => by
      rw [Relation.tokens.eq_def]
      have inner := Apart.append (query.apart_tokens d) (.singleton (.symbol .newline))
        (.symbol .newline rfl [])
      refine .append (apart_parenthesized (.symbol .newline rfl inner)) (apart_alias aliasName) ?_
      cases aliasName with
      | none => exact .nil
      | some name => exact opens_spaced _ _

/-- The tokens of a join keep apart. -/
theorem Join.apart_tokens (d : Dialect) : (join : Join) → Apart (join.tokens d)
  | ⟨kind, relation, on⟩ => by
      rw [Join.tokens]
      have condition := apart_exprTokens? d on
      have target := Apart.append (relation.apart_tokens d)
        (.elim fun tokens found => apart_spaced_append .on (condition tokens found))
        (Opens.elim (opens_spaced .on) _)
      simpa only [List.append_assoc] using
        Apart.append kind.apart_tokens (apart_spaced_append .join target) (opens_spaced _ _)

theorem apart_joinsTokens (d : Dialect) : (joins : List Join) →
    Apart (joinsTokens d joins) ∧ Opens (joinsTokens d joins)
  | [] => by
      rw [joinsTokens]
      exact ⟨.nil, .nil⟩
  | join :: rest => by
      rw [joinsTokens]
      have ⟨others, opens⟩ := apart_joinsTokens d rest
      exact
        ⟨.symbol .newline rfl (.append (join.apart_tokens d) others opens), .symbol .newline rfl _⟩

/-- The tokens of an entry of FROM keep apart. -/
theorem Source.apart_tokens (d : Dialect) : (source : Source) → Apart (source.tokens d)
  | ⟨primary, joins⟩ => by
      rw [Source.tokens]
      have ⟨others, opens⟩ := apart_joinsTokens d joins
      exact .append (primary.apart_tokens d) others opens

theorem apart_sourcesTokens (d : Dialect) :
    (sources : List Source) → ∀ tokens ∈ sourcesTokens d sources, Apart tokens
  | [] => by simp [sourcesTokens]
  | source :: rest => by
      simpa [sourcesTokens] using ⟨source.apart_tokens d, apart_sourcesTokens d rest⟩

theorem apart_sourcesTokens? (d : Dialect) :
    (sources : Option (List Source)) → ∀ tokens ∈ sourcesTokens? d sources, Apart tokens
  | none => by simp [sourcesTokens?]
  | some sources => by simpa [sourcesTokens?] using apart_sourcesTokens d sources

/-- The tokens of an entry of ORDER BY keep apart. -/
theorem Ordering.apart_tokens (d : Dialect) : (ordering : Ordering) → Apart (ordering.tokens d)
  | ⟨expr, ascending, nullsFirst⟩ => by
      rw [Ordering.tokens]
      have word (keyword : Keyword) : Apart [space, .keyword keyword] :=
        .symbol .space rfl (.singleton _)
      have opensWord (keyword : Keyword) : Opens [space, .keyword keyword] := .symbol .space rfl _
      refine .append (.append (expr.apart_tokens d) ?_ ?_) ?_ ?_
      · exact .elim fun up _ => word _
      · exact .elim (fun up => opensWord _) ascending
      · split; exacts [.elim fun first _ => word _, .nil]
      · split; exacts [.elim (fun first => opensWord _) nullsFirst, .nil]

theorem apart_orderingsTokens (d : Dialect) :
    (orderings : List Ordering) → ∀ tokens ∈ orderingsTokens d orderings, Apart tokens
  | [] => by simp [orderingsTokens]
  | ordering :: rest => by
      simpa [orderingsTokens] using ⟨ordering.apart_tokens d, apart_orderingsTokens d rest⟩

/-- The tokens of a SELECT keep apart. -/
theorem Select.apart_tokens (d : Dialect) : (select : Select) → Apart (select.tokens d)
  | ⟨distinct, projection, sources, filter, groupBy, having, orderBy, limit, offset⟩ => by
      rw [Select.tokens]
      have restriction := apart_exprTokens? d filter
      have groups := apart_exprTokens? d having
      refine .append (.append (.append (.append (.append (.append ?_ ?_ ?_) ?_ ?_) ?_ ?_) ?_ ?_)
        ?_ ?_) (apart_ending limit offset (apart_orderingsTokens d orderBy)) (opens_ending _ _ _ _)
      · cases distinct with
        | false => exact .singleton _
        | true => exact .cons _ (.symbol .space rfl (.singleton _)) (.symbol .space rfl _)
      · exact apart_itemLines (apart_exprsTokens d projection)
      · cases projection with
        | nil => exact .nil
        | cons expr rest =>
          rw [exprsTokens]
          cases exprsTokens d rest <;> exact .symbol .newline rfl _
      · exact apart_clause _ (apart_sourcesTokens? d sources)
      · exact opens_clause _ _
      · exact apart_clause _ (by simpa using restriction)
      · exact opens_clause _ _
      · exact apart_clause _ (apart_exprsTokens d groupBy)
      · exact opens_clause _ _
      · exact apart_clause _ (by simpa using groups)
      · exact opens_clause _ _

/-- The tokens of a named query keep apart. -/
theorem Cte.apart_tokens (d : Dialect) : (cte : Cte) → Apart (cte.tokens d)
  | ⟨name, query⟩ => by
      rw [Cte.tokens]
      have inner := Apart.append (query.apart_tokens d) (.singleton (.symbol .newline))
        (.symbol .newline rfl [])
      have body := apart_parenthesized (.symbol .newline rfl inner)
      exact .cons _ (apart_spaced_append .as body) (opens_spaced _ _)

theorem apart_ctesTokens (d : Dialect) : (ctes : List Cte) → Apart (ctesTokens d ctes)
  | [] => by
      rw [ctesTokens]
      exact .nil
  | [cte] => by
      rw [ctesTokens]
      exact cte.apart_tokens d
  | cte :: second :: rest => by
      rw [ctesTokens]
      · exact .append (cte.apart_tokens d)
          (.symbol .comma rfl (.symbol .newline rfl (apart_ctesTokens d (second :: rest))))
          (.symbol .comma rfl _)
      · simp

/-- The tokens of a query keep apart. -/
theorem Query.apart_tokens (d : Dialect) : (query : Query) → Apart (query.tokens d)
  | ⟨ctes, select⟩ => by
      rw [Query.tokens]
      have named := apart_ctesTokens d ctes
      have body := select.apart_tokens d
      split
      · exact body
      · have clause := Apart.append named (.symbol .newline rfl body) (.symbol .newline rfl _)
        simpa only [List.append_assoc, List.cons_append, List.nil_append, space] using
          Apart.cons (.keyword .withWord) (.symbol .space rfl clause) (.symbol .space rfl _)

end

end SemanticLayer.Sql
