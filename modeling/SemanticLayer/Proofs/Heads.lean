import SemanticLayer.Proofs.Lexemes
import SemanticLayer.Proofs.Reserved

/-!
# How expressions start

An expression starts with the operand in front of its operators, and behind that operand stands
nothing, or an operator. Which keyword comes first is known from the operand alone: no word of a
clause does, unless it is a name that is written as it.
-/

namespace SemanticLayer

namespace Grammar

/-- The marks of operators. -/
def operatorMarks : List String :=
  ["=", "<>", "<", ">", "<=", ">=", "+", "-", "*", "/", "%", "||"]

/-- The words that operators start with. -/
def operatorWords : List String :=
  ["AND", "OR", "NOT", "LIKE", "IN", "BETWEEN", "IS"]

/-- The marks that may stand behind an expression. -/
def followMarks : List String :=
  ")" :: "," :: operatorMarks

/-- The words that may stand behind an expression and are no operators. -/
def closingWords : List String :=
  ["AS", "THEN", "WHEN", "ELSE", "END", "ASC", "DESC", "NULLS", "FROM", "WHERE", "GROUP", "HAVING",
    "ORDER", "LIMIT", "OFFSET", "JOIN", "INNER", "LEFT", "RIGHT", "FULL", "CROSS", "ON"]

/-- The words that may stand behind an expression. -/
def followWords : List String :=
  operatorWords ++ closingWords

/-- The first lexemes that an expression stands behind, or the WHEN of a branch. -/
def openers : List Lexeme :=
  [.key "CASE", .key "NOT", .mark "(", .mark "-", .mark "+"]

/-- The marks that may stand behind the name or the literal in front of an expression. -/
def secondMarks : List String :=
  "." :: "(" :: operatorMarks

/-- The words that may stand behind the name or the literal in front of an expression. -/
def secondWords : List String :=
  "AS" :: operatorWords

/-- Lexemes that may stand behind an expression. -/
abbrev Follows (lexemes : List Lexeme) : Prop :=
  Ahead followMarks followWords lexemes

/-- Lexemes that are none, or start with an operator. -/
abbrev Operates (lexemes : List Lexeme) : Prop :=
  Ahead operatorMarks operatorWords lexemes

theorem Ahead.append {marks words : List String} {first second : List Lexeme}
    (ahead : Ahead marks words first) (later : Ahead marks words second) :
    Ahead marks words (first ++ second) := by
  cases first with
  | nil => exact later
  | cons lexeme rest => exact ahead

theorem Ahead.key {marks words : List String} {keyword : String} (rest : List Lexeme)
    (found : keyword ∈ words) : Ahead marks words (.key keyword :: rest) :=
  .inr ⟨keyword, found, by simp⟩

theorem Operates.follows {lexemes : List Lexeme} (operates : Operates lexemes) :
    Follows lexemes :=
  operates.mono (by decide) (by decide)

end Grammar

namespace Sql

open Grammar (Lexeme Word Ahead Operates Follows frontKeyword startsWithMark
  startsWithKeywords openers secondMarks secondWords)

theorem BinaryOp.operates (op : BinaryOp) (rest : List Lexeme) :
    Operates (Tokens.lexemes .duckDb op.tokens ++ rest) := by
  cases op <;> first
    | exact Ahead.mark _ (by decide)
    | exact Ahead.word _ (by decide)

theorem operates_negation (negated : Bool) {keyword : String}
    (operator : keyword ∈ Grammar.operatorWords) (rest : List Lexeme) :
    Operates (negationLexemes negated ++ .key keyword :: rest) := by
  cases negated with
  | false => exact Ahead.key rest operator
  | true => exact Ahead.key _ (by decide)

/-! ## What can be read back -/

/-- Whether an expression and all in it nest as they are read, and can be told from others. -/
def Expr.Readable (expr : Expr) : Prop :=
  expr.Every (fun part => part.HasShape ∧ part.IsLegible)
    fun query => query.select.HasShape ∧ query.IsLegible

/-- Whether a query and all in it nest as they are read, and can be told from others. -/
def Query.Readable (query : Query) : Prop :=
  query.Every (fun part => part.HasShape ∧ part.IsLegible)
    fun query => query.select.HasShape ∧ query.IsLegible

/-- Whether all in a relation nests as it is read, and can be told from others. -/
def Relation.Readable (relation : Relation) : Prop :=
  relation.Every (fun part => part.HasShape ∧ part.IsLegible)
    fun query => query.select.HasShape ∧ query.IsLegible

/-- Whether all in a join nests as it is read, and can be told from others. -/
def Join.Readable (join : Join) : Prop :=
  join.Every (fun part => part.HasShape ∧ part.IsLegible)
    fun query => query.select.HasShape ∧ query.IsLegible

/-- Whether all in an entry of FROM nests as it is read, and can be told from others. -/
def Source.Readable (source : Source) : Prop :=
  source.Every (fun part => part.HasShape ∧ part.IsLegible)
    fun query => query.select.HasShape ∧ query.IsLegible

theorem readable_of_everyExprs {exprs : List Expr}
    (all : everyExprs (fun part => part.HasShape ∧ part.IsLegible)
      (fun query => query.select.HasShape ∧ query.IsLegible) exprs) :
    ∀ expr ∈ exprs, expr.Readable := by
  induction exprs with
  | nil => simp
  | cons expr rest ih =>
      intro other found
      rcases List.mem_cons.mp found with rfl | found
      · exact all.1
      · exact ih all.2 other found

namespace Expr

/-! ## The operand in front -/

/-- Whether an expression is an operand that no operator stands behind. -/
def isFront : Expr → Bool
  | .binary _ _ _ | .between _ _ _ _ | .isNull _ _ | .inList _ _ _ | .aliased _ _ => false
  | _ => true

/-- Lexemes that make an expression longer: an operator and what follows it, or an alias. -/
abbrev Extends (lexemes : List Lexeme) : Prop :=
  lexemes ≠ [] ∧ Ahead Grammar.operatorMarks ("AS" :: Grammar.operatorWords) lexemes

theorem Extends.ahead {lexemes : List Lexeme} (extended : Extends lexemes) (rest : List Lexeme) :
    Ahead Grammar.operatorMarks ("AS" :: Grammar.operatorWords) (lexemes ++ rest) := by
  obtain ⟨some, ahead⟩ := extended
  obtain ⟨lexeme, more, rfl⟩ := List.exists_cons_of_ne_nil some
  exact ahead

/-- What holds of the operands that expressions start with, and of an expression made longer behind
its end, holds of all expressions. -/
theorem front_induction {motive : (expr : Expr) → expr.Readable → Prop}
    (operand : ∀ (expr : Expr) (readable : expr.Readable),
      expr.isFront = true → motive expr readable)
    (longer : ∀ (expr shorter : Expr) (tail : List Lexeme) (readable : expr.Readable)
      (inner : shorter.Readable), expr.front = shorter.front →
      expr.lexemes = shorter.lexemes ++ tail → Extends tail → shorter.isOperand = true →
      motive shorter inner → motive expr readable) :
    (expr : Expr) → (readable : expr.Readable) → motive expr readable
  | .binary left op right, readable => by
      refine longer _ left _ readable readable.2.1 rfl (lexemes_binary left right op) ?_
        readable.1.1.1.1 (front_induction operand longer left readable.2.1)
      exact ⟨by cases op <;> exact List.cons_ne_nil _ _,
        (op.operates right.lexemes).mono (by decide) (by decide)⟩
  | .between subject low high negated, readable => by
      refine longer _ subject _ readable readable.2.1 rfl (lexemes_between ..) ?_
        readable.1.1.1.1 (front_induction operand longer subject readable.2.1)
      exact ⟨by simp, (operates_negation negated (by decide) _).mono (by decide) (by decide)⟩
  | .inList subject items negated, readable => by
      refine longer _ subject _ readable readable.2.1 rfl
        (lexemes_inList readable.1.1.2.2 subject negated) ?_ readable.1.1.1.1
        (front_induction operand longer subject readable.2.1)
      exact ⟨by simp, (operates_negation negated (by decide) _).mono (by decide) (by decide)⟩
  | .isNull subject negated, readable => by
      refine longer _ subject _ readable readable.2 rfl (lexemes_isNull subject negated) ?_
        readable.1.1.1 (front_induction operand longer subject readable.2)
      exact ⟨by simp, Ahead.key _ (by decide)⟩
  | .aliased name child, readable => by
      refine longer _ child _ readable readable.2 rfl (lexemes_aliased name child) ?_ readable.1.1
        (front_induction operand longer child readable.2)
      exact ⟨by simp, Ahead.key _ (by decide)⟩
  | .column _, readable | .literal _, readable | .wildcard _, readable | .unary _ _, readable
  | .call _ _ _ _, readable | .case _ _ _ _, readable | .nested _, readable
  | .subquery _, readable => operand _ readable rfl

/-! ## The first lexeme -/

/-- The keyword that an expression starts with, if it starts with one. -/
def headKeyword (expr : Expr) : String :=
  match expr.front with
  | .column found => Path.keyword (found.qualifier ++ [found.name])
  | .literal (.bool value) => if value then "TRUE" else "FALSE"
  | .literal .null => "NULL"
  | .call name none _ _ => (Word.plain (Dialect.duckDb.functionText name.value)).keyword
  | .call _ (some path) _ _ | .wildcard (some path) => Path.keyword path
  | .case _ _ _ _ => "CASE"
  | .unary .not _ => "NOT"
  | _ => ""

theorem frontKeyword_dotted {path : Path} (some : path ≠ []) (rest : List Lexeme) :
    frontKeyword (Path.dottedLexemes path ++ rest) = Path.keyword path := by
  cases path with
  | nil => exact absurd rfl some
  | cons first more => rfl

/-- An expression starts with its keyword, whatever stands behind it. -/
theorem Readable.frontKeyword {expr : Expr} (readable : expr.Readable) (rest : List Lexeme) :
    frontKeyword (expr.lexemes ++ rest) = expr.headKeyword := by
  induction expr, readable using front_induction generalizing rest with
  | longer expr shorter tail _ _ front whole _ _ ih =>
      rw [whole, List.append_assoc, ih, headKeyword, headKeyword, front]
  | operand expr readable front =>
      cases expr with
      | column found =>
          rw [lexemes_column, frontKeyword_dotted (by simp)]
          rfl
      | literal value => rcases value with - | - | - | (- | -) | - <;> rfl
      | wildcard path =>
          rw [lexemes_wildcard]
          rcases path with - | - | -
          · rfl
          · exact absurd rfl readable.1
          · rfl
      | unary op operand =>
          rw [lexemes_unary]
          cases op <;> rfl
      | call name path args distinct =>
          rw [lexemes_call]
          rcases path with - | - | -
          · rfl
          · exact absurd rfl readable.1.1.2.2.1
          · rfl
      | case operand conditions results otherwise =>
          rw [lexemes_case]
          rfl
      | nested inner =>
          rw [lexemes_nested]
          rfl
      | subquery query =>
          rw [lexemes_subquery]
          rfl
      | _ => cases front

theorem functionText_of_kept {name : String} (kept : Dialect.duckDb.functionSpelling? name = none) :
    Dialect.duckDb.functionText name = Text.upper name := by
  rw [Dialect.functionText, kept]
  rfl

/-- The keywords that some operand starts with whatever its names are. -/
def fixedHeads : List String :=
  ["", "TRUE", "FALSE", "NULL", "CASE", "NOT"]

/-- An expression does not start with a word that no call goes by, unless its first name does. -/
theorem Readable.headKeyword_ne {expr : Expr} (readable : expr.Readable) {keyword : String}
    (other : expr.nameKeyword ≠ keyword) (kept : keyword ∈ callWords)
    (free : keyword ∉ fixedHeads) : expr.headKeyword ≠ keyword := by
  have fixed (head : String) (found : head ∈ fixedHeads) : head ≠ keyword := by
    rintro rfl
    exact free found
  induction expr, readable using front_induction with
  | longer expr shorter tail _ _ front _ _ _ ih =>
      rw [headKeyword, front]
      rw [nameKeyword, front] at other
      exact ih other
  | operand expr readable front =>
      cases expr with
      | column found => exact other
      | literal value =>
          rcases value with - | - | - | (- | -) | -
          · exact fixed "" (by decide)
          · exact fixed "" (by decide)
          · exact fixed "" (by decide)
          · exact fixed "FALSE" (by decide)
          · exact fixed "TRUE" (by decide)
          · exact fixed "NULL" (by decide)
      | wildcard path =>
          cases path with
          | none => exact fixed "" (by decide)
          | some path => exact other
      | unary op operand =>
          cases op with
          | not => exact fixed "NOT" (by decide)
          | _ => exact fixed "" (by decide)
      | call name path args distinct =>
          cases path with
          | none =>
              obtain ⟨spelling, -, unlisted⟩ := readable.1.2
              simp only [headKeyword, Expr.front, functionText_of_kept spelling]
              rintro rfl
              exact unlisted rfl kept
          | some path => exact other
      | case operand conditions results otherwise => exact fixed "CASE" (by decide)
      | nested inner => exact fixed "" (by decide)
      | subquery query => exact fixed "" (by decide)
      | _ => cases front

/-- A name in front of an expression is not written as a reserved word. -/
theorem nameKeyword_ne (expr : Expr) {keyword : String}
    (reserved : Text.asciiLower keyword ∈ reservedWords) : expr.nameKeyword ≠ keyword := by
  have unnamed : "" ≠ keyword := by
    rintro rfl
    exact absurd reserved (by decide)
  have inPath (path : Path) : Path.keyword path ≠ keyword := by
    cases path with
    | nil => exact unnamed
    | cons first more => exact first.written_keyword_ne reserved
  rw [nameKeyword]
  split
  · exact inPath _
  · exact inPath _
  · exact inPath _
  · exact unnamed

theorem Readable.headKeyword_ne_of_reserved {expr : Expr} (readable : expr.Readable)
    {keyword : String} (kept : keyword ∈ callWords)
    (reserved : Text.asciiLower keyword ∈ reservedWords) (free : keyword ∉ fixedHeads) :
    expr.headKeyword ≠ keyword :=
  readable.headKeyword_ne (expr.nameKeyword_ne reserved) kept free

theorem Readable.headKeyword_not_mem {expr : Expr} (readable : expr.Readable)
    {keywords : List String} (other : expr.nameKeyword ∉ keywords) (kept : keywords ⊆ callWords)
    (free : ∀ keyword ∈ keywords, keyword ∉ fixedHeads) : expr.headKeyword ∉ keywords := fun found =>
  readable.headKeyword_ne (fun same => other (same ▸ found)) (kept found) (free _ found) rfl

theorem Readable.keyword? {expr : Expr} (readable : expr.Readable) {keyword : String}
    (other : expr.headKeyword ≠ keyword) (rest : List Lexeme) :
    Grammar.Reader.keyword? keyword (expr.lexemes ++ rest) = .ok (false, expr.lexemes ++ rest) :=
  Grammar.Reader.takeIf_of_false <|
    Grammar.startsWithKeywords_of_frontKeyword_ne [] (by rwa [readable.frontKeyword])

/-- An expression does not start with a query. -/
theorem Readable.startsQuery {expr : Expr} (readable : expr.Readable) (rest : List Lexeme) :
    Grammar.startsQuery (expr.lexemes ++ rest) = false := by
  have other {keyword : String} (differs : expr.headKeyword ≠ keyword) :
      startsWithKeywords [keyword] (expr.lexemes ++ rest) = false :=
    Grammar.startsWithKeywords_of_frontKeyword_ne [] (by rwa [readable.frontKeyword])
  rw [Grammar.startsQuery,
    other (readable.headKeyword_ne_of_reserved (by decide) (by decide) (by decide)),
    other (readable.headKeyword_ne_of_reserved (by decide) (by decide) (by decide))]
  rfl

/-- An expression starts with no mark but a parenthesis or a sign, unless it is a star. -/
theorem Readable.startsWithMark {expr : Expr} (readable : expr.Readable) {text : String}
    (other : text ∉ ["(", "-", "+"]) (star : text = "*" → expr.isOperand = true)
    (rest : List Lexeme) : startsWithMark text (expr.lexemes ++ rest) = false := by
  have differs (mark : String) (found : mark ∈ ["(", "-", "+"]) : (mark == text) = false := by
    refine beq_eq_false_iff_ne.mpr ?_
    rintro rfl
    exact other found
  induction expr, readable using front_induction generalizing rest with
  | longer expr shorter tail _ _ _ whole _ operand ih =>
      rw [whole, List.append_assoc, ih fun _ => operand]
  | operand expr readable front =>
      cases expr with
      | column found =>
          rw [lexemes_column]
          rcases found.qualifier with - | - <;> rfl
      | literal value => rcases value with - | - | - | (- | -) | - <;> rfl
      | wildcard path =>
          rw [lexemes_wildcard]
          rcases path with - | - | -
          · refine beq_eq_false_iff_ne.mpr ?_
            rintro rfl
            cases star rfl
          · exact absurd rfl readable.1
          · rfl
      | unary op operand =>
          rw [lexemes_unary]
          cases op with
          | not => rfl
          | minus => exact differs "-" (by decide)
          | plus => exact differs "+" (by decide)
      | call name path args distinct =>
          rw [lexemes_call]
          rcases path with - | - | - <;> rfl
      | case operand conditions results otherwise =>
          rw [lexemes_case]
          rfl
      | nested inner =>
          rw [lexemes_nested]
          exact differs "(" (by decide)
      | subquery query =>
          rw [lexemes_subquery]
          exact differs "(" (by decide)
      | _ => cases front

theorem Readable.lexemes_ne_nil {expr : Expr} (readable : expr.Readable) : expr.lexemes ≠ [] := by
  induction expr, readable using front_induction with
  | longer expr shorter tail _ _ _ whole extended _ _ => simp [whole, extended.1]
  | operand expr readable front =>
      cases expr with
      | column found =>
          rw [lexemes_column, Path.dottedLexemes_concat]
          exact List.append_ne_nil_of_right_ne_nil _ (List.cons_ne_nil _ _)
      | literal value => rcases value with - | - | - | (- | -) | - <;> exact List.cons_ne_nil _ _
      | wildcard path => simp [lexemes_wildcard]
      | unary op operand =>
          rw [lexemes_unary]
          cases op <;> exact List.cons_ne_nil _ _
      | call name path args distinct => simp [lexemes_call]
      | case operand conditions results otherwise => simp [lexemes_case]
      | nested inner => simp [lexemes_nested]
      | subquery query => simp [lexemes_subquery]
      | _ => cases front

end Expr

/-- A query starts with WITH or SELECT. -/
theorem Query.lexemes_head (query : Query) :
    ∃ keyword rest, query.lexemes = .key keyword :: rest ∧ keyword ∈ ["SELECT", "WITH"] := by
  rw [Query.lexemes_eq, Select.lexemes, clauseLexemes]
  split
  · exact ⟨"SELECT", _, rfl, by decide⟩
  · exact ⟨"WITH", _, rfl, by decide⟩

theorem Query.startsQuery (query : Query) (rest : List Lexeme) :
    Grammar.startsQuery (query.lexemes ++ rest) = true := by
  obtain ⟨keyword, more, whole, found⟩ := query.lexemes_head
  rw [whole]
  rcases List.mem_cons.mp found with rfl | found
  · rfl
  · obtain rfl := List.mem_singleton.mp found
    rfl

namespace Expr

/-! ## The second lexeme -/

/-- Behind its first word, a CASE starts with its operand or with a branch. -/
theorem Readable.startsWithMark_case {operand otherwise : Option Expr}
    {conditions results : List Expr}
    (readable : (Expr.case operand conditions results otherwise).Readable) {text : String}
    (other : text ∉ ["(", "-", "+", "*"]) (rest : List Lexeme) :
    Grammar.startsWithMark text
      (((Expr.case operand conditions results otherwise).lexemes ++ rest).drop 1) = false := by
  obtain ⟨⟨⟨-, paired, some⟩, -⟩, first, -⟩ := readable
  rw [lexemes_case]
  cases operand with
  | some operand =>
      rw [List.cons_append, List.drop_succ_cons, List.drop_zero, Option.elim_some,
        List.append_assoc]
      refine Readable.startsWithMark first (fun found => other ?_) ?_ _
      · exact (by decide : ["(", "-", "+"] ⊆ ["(", "-", "+", "*"]) found
      · rintro rfl
        exact absurd (by decide) other
  | none =>
      obtain ⟨condition, conditions, rfl⟩ := List.exists_cons_of_ne_nil some
      obtain ⟨result, results, rfl⟩ : ∃ result others, results = result :: others :=
        List.exists_cons_of_length_eq_add_one paired.symm
      rfl

/-- Behind the first lexeme of an expression stands nothing, a point, a parenthesis, an operator or
an alias, unless an expression or a branch does. -/
theorem Readable.lexemes_cons {expr : Expr} (readable : expr.Readable) :
    ∃ first more, expr.lexemes = first :: more ∧
      (Ahead secondMarks secondWords more ∨
        (first ∈ openers ∧ more ≠ [] ∧
          ∀ text ∉ ["(", "-", "+", "*"], Grammar.startsWithMark text more = false)) := by
  have marked (text : String) (found : text ∈ secondMarks) (more : List Lexeme) :
      Ahead secondMarks secondWords (.mark text :: more) := Ahead.mark more found
  have inside {operand : Expr} (readable : operand.Readable) (rest : List Lexeme) :
      operand.lexemes ++ rest ≠ [] ∧ ∀ text ∉ ["(", "-", "+", "*"],
        Grammar.startsWithMark text (operand.lexemes ++ rest) = false := by
    refine ⟨by simp [readable.lexemes_ne_nil], fun text other => readable.startsWithMark ?_ ?_ rest⟩
    · exact fun found => other ((by decide : ["(", "-", "+"] ⊆ ["(", "-", "+", "*"]) found)
    · rintro rfl
      exact absurd (by decide) other
  induction expr, readable using front_induction with
  | longer expr shorter tail _ _ _ whole extended _ ih =>
      obtain ⟨first, more, start, second⟩ := ih
      refine ⟨first, more ++ tail, by rw [whole, start, List.cons_append], ?_⟩
      rcases second with ahead | ⟨opens, some, unmarked⟩
      · exact .inl (ahead.append (extended.2.mono (fun _ found => by simp [secondMarks, found])
          fun _ => id))
      · obtain ⟨lexeme, others, rfl⟩ := List.exists_cons_of_ne_nil some
        exact .inr ⟨opens, by simp, unmarked⟩
  | operand expr readable front =>
      cases expr with
      | column found =>
          rw [lexemes_column]
          rcases found.qualifier with - | ⟨-, - | -⟩
          · exact ⟨_, _, rfl, .inl .nil⟩
          · exact ⟨_, _, rfl, .inl (marked "." (by decide) _)⟩
          · exact ⟨_, _, rfl, .inl (marked "." (by decide) _)⟩
      | literal value =>
          rcases value with - | - | - | (- | -) | - <;> exact ⟨_, _, rfl, .inl .nil⟩
      | wildcard path =>
          rw [lexemes_wildcard]
          rcases path with - | - | -
          · exact ⟨_, _, rfl, .inl .nil⟩
          · exact absurd rfl readable.1
          · exact ⟨_, _, rfl, .inl (marked "." (by decide) _)⟩
      | unary op operand =>
          obtain ⟨some, unmarked⟩ := inside readable.2 []
          rw [List.append_nil] at some unmarked
          rw [lexemes_unary]
          cases op with
          | not => exact ⟨.key "NOT", _, rfl, .inr ⟨by decide, some, unmarked⟩⟩
          | minus => exact ⟨.mark "-", _, rfl, .inr ⟨by decide, some, unmarked⟩⟩
          | plus => exact ⟨.mark "+", _, rfl, .inr ⟨by decide, some, unmarked⟩⟩
      | call name path args distinct =>
          rw [lexemes_call]
          rcases path with - | - | -
          · exact ⟨_, _, rfl, .inl (marked "(" (by decide) _)⟩
          · exact ⟨_, _, rfl, .inl (marked "(" (by decide) _)⟩
          · exact ⟨_, _, rfl, .inl (marked "." (by decide) _)⟩
      | case operand conditions results otherwise =>
          refine ⟨.key "CASE", _, lexemes_case .., .inr ⟨by decide, by simp, fun text other => ?_⟩⟩
          have unmarked := readable.startsWithMark_case other []
          rwa [List.append_nil, lexemes_case] at unmarked
      | nested inner =>
          obtain ⟨some, unmarked⟩ := inside readable.2 [.mark ")"]
          exact ⟨.mark "(", _, lexemes_nested inner, .inr ⟨by decide, some, unmarked⟩⟩
      | subquery query =>
          obtain ⟨keyword, more, whole, -⟩ := query.lexemes_head
          rw [lexemes_subquery, whole]
          exact ⟨_, _, rfl, .inr ⟨by simp [openers], by simp, fun _ _ => rfl⟩⟩
      | _ => cases front

theorem Readable.startsWithMark_drop {expr : Expr} (readable : expr.Readable) {text : String}
    (other : text ∉ secondMarks) {rest : List Lexeme}
    (behind : Grammar.startsWithMark text rest = false) :
    Grammar.startsWithMark text ((expr.lexemes ++ rest).drop 1) = false := by
  obtain ⟨first, more, whole, second⟩ := readable.lexemes_cons
  rw [whole, List.cons_append, List.drop_succ_cons, List.drop_zero]
  cases more with
  | nil => exact behind
  | cons lexeme others =>
      rcases second with ahead | ⟨-, -, unmarked⟩
      · exact Ahead.startsWithMark ahead other
      · refine unmarked text fun found => other ?_
        exact (by decide : ["(", "-", "+", "*"] ⊆ secondMarks) found

/-- An expression does not start with empty parentheses. -/
theorem Readable.filled {expr : Expr} (readable : expr.Readable) (rest : List Lexeme) :
    (Grammar.startsWithMark "(" (expr.lexemes ++ rest) &&
      Grammar.startsWithMark ")" ((expr.lexemes ++ rest).drop 1)) = false := by
  induction expr, readable using front_induction generalizing rest with
  | longer expr shorter tail _ _ _ whole _ _ ih =>
      rw [whole, List.append_assoc]
      exact ih _
  | operand expr readable front =>
      cases expr with
      | column found =>
          rw [lexemes_column]
          rcases found.qualifier with - | - <;> rfl
      | literal value => rcases value with - | - | - | (- | -) | - <;> rfl
      | wildcard path =>
          rw [lexemes_wildcard]
          rcases path with - | - | - <;> rfl
      | unary op operand =>
          rw [lexemes_unary]
          cases op <;> rfl
      | call name path args distinct =>
          rw [lexemes_call]
          rcases path with - | - | - <;> rfl
      | case operand conditions results otherwise =>
          rw [lexemes_case]
          rfl
      | nested inner =>
          rw [lexemes_nested, List.cons_append, List.drop_succ_cons, List.drop_zero,
            List.append_assoc, Readable.startsWithMark readable.2 (by decide)
              (fun same => absurd same (by decide)), Bool.and_false]
      | subquery query =>
          obtain ⟨keyword, more, whole, -⟩ := query.lexemes_head
          rw [lexemes_subquery, whole]
          rfl
      | _ => cases front

/-- An expression does not start with two words unless a branch or a negation does, or what stands
behind a name. -/
theorem Readable.startsWithKeywords {expr : Expr} (readable : expr.Readable)
    {first second : String} (words : List String) (free : first ∉ ["CASE", "NOT"])
    (other : second ∉ secondWords) {rest : List Lexeme}
    (behind : Grammar.startsWithKeywords (second :: words) rest = false) :
    Grammar.startsWithKeywords (first :: second :: words) (expr.lexemes ++ rest) = false := by
  obtain ⟨lexeme, more, whole, standing⟩ := readable.lexemes_cons
  rw [whole, List.cons_append, Grammar.startsWithKeywords_cons]
  rcases standing with ahead | ⟨opens, -, -⟩
  · cases more with
    | nil => rw [List.nil_append, behind, Bool.and_false]
    | cons next others =>
        have closed : Grammar.startsWithKeywords (second :: words) (next :: others ++ rest) = false :=
          (show Ahead secondMarks secondWords (next :: others ++ rest) from ahead).startsWithKeywords
            words other
        rw [closed, Bool.and_false]
  · have unlike : lexeme.isKeyword first = false := by
      simp only [List.mem_cons, List.not_mem_nil, or_false, not_or] at free
      simp only [openers, List.mem_cons, List.not_mem_nil, or_false] at opens
      rcases opens with rfl | rfl | rfl | rfl | rfl <;> simp [Ne.symm free.1, Ne.symm free.2]
    rw [unlike, Bool.false_and]

end Expr
end Sql
end SemanticLayer
