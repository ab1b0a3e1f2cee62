import SemanticLayer.Proofs.Heads
import SemanticLayer.Proofs.Telling

/-!
# Reading one level down

What the readers of a level have to do for what is nested further down: read every expression and
every query of so many levels at most back from its lexemes, and leave what stands behind. Lists
with commas are then read back item by item.
-/

namespace SemanticLayer

namespace Grammar

/-- Lexemes behind an expression that no operator starts. -/
abbrev Closes (lexemes : List Lexeme) : Prop :=
  Ahead [")", ","] closingWords lexemes

/-- Lexemes behind a list of expressions. -/
abbrev Leaves (lexemes : List Lexeme) : Prop :=
  Ahead [")"] closingWords lexemes

theorem Leaves.closes {lexemes : List Lexeme} (leaves : Leaves lexemes) : Closes lexemes :=
  leaves.mono (by decide) fun _ => id

theorem Closes.follows {lexemes : List Lexeme} (closes : Closes lexemes) : Follows lexemes :=
  closes.mono (by decide) (by decide)

/-- Nothing binds to an expression that is closed. -/
theorem Closes.nextStrength {lexemes : List Lexeme} (closes : Closes lexemes) :
    nextStrength .generic lexemes = 0 := by
  have free : ∀ keyword ∈ closingWords, keyword ≠ "NOT" ∧ keyword ≠ "AT" ∧ keyword ≠ "COLLATE" ∧
      Binding.ofKeyword? keyword = none := by decide
  cases lexemes with
  | nil => rfl
  | cons lexeme rest =>
      rcases closes with ⟨text, found, rfl⟩ | ⟨keyword, found, same⟩
      · have marks : ∀ mark ∈ [")", ","], Binding.ofMark? .generic mark = none := by decide
        simp only [Grammar.nextStrength, Binding.ahead?, marks text found]
      · cases lexeme with
        | word word =>
            obtain rfl : word.keyword = keyword := by simpa [Lexeme.isKeyword] using same
            obtain ⟨noNot, noAt, noCollate, none⟩ := free _ found
            simp only [Grammar.nextStrength, Binding.ahead?, if_neg noNot, if_neg noAt,
              if_neg noCollate, none]
        | _ => cases same

end Grammar

namespace Sql

open Grammar (Lexeme Word Ahead Follows Closes Leaves Level Reader nextStrength startsWithMark)

/-! ## What stands behind -/

/-- Whether lexemes may stand behind an expression where it ends: they bind to none of its operands,
and do not make a type of its last name. -/
structure Expr.EndsAt (expr : Expr) (rest : List Lexeme) : Prop where
  follows : Follows rest
  looser : nextStrength .generic rest ≤ expr.trailing
  untyped : expr.endsInArray = true → startsWithMark "<" rest = false

theorem Expr.endsAt_of_closes (expr : Expr) {rest : List Lexeme} (closes : Closes rest) :
    expr.EndsAt rest where
  follows := closes.follows
  looser := by simp [closes.nextStrength]
  untyped _ := closes.startsWithMark (by decide)

theorem Expr.loosest_pos (expr : Expr) : 0 < expr.loosest := by
  fun_induction loosest expr with
  | case1 left op right ih =>
      have grip : 0 < op.grip := by cases op <;> decide
      exact Nat.lt_min.mpr ⟨ih, grip⟩
  | case2 subject low high negated ih => exact Nat.lt_min.mpr ⟨ih, by decide⟩
  | case3 subject items negated ih => exact Nat.lt_min.mpr ⟨ih, by decide⟩
  | case4 subject negated ih => exact Nat.lt_min.mpr ⟨ih, by decide⟩
  | case5 => decide

/-! ## The level below -/

/-- Whether an expression is read back by readers for what binds tighter than a strength. -/
def Expr.ReadBy (expr : Expr) (reader : Nat → Reader Grammar.Expr) : Prop :=
  ∀ (strength : Nat) (rest : List Lexeme), strength < expr.loosest →
    nextStrength .generic rest ≤ strength → expr.EndsAt rest →
    ∃ tree, reader strength (expr.lexemes ++ rest) = .ok (tree, rest) ∧ expr.ToldBy tree

/-- Whether a query is read back where nothing or a closing parenthesis stands behind it. -/
def Query.ReadBy (query : Query) (reader : Reader Grammar.Query) : Prop :=
  ∀ rest : List Lexeme, Ahead [")"] [] rest →
    ∃ tree, reader (query.lexemes ++ rest) = .ok (tree, rest) ∧ query.ToldBy tree

/-- Whether the readers of a level read all expressions and queries back that nest less deep than
so many levels. -/
structure ReadsBack (level : Level) (depth : Nat) : Prop where
  rules : level.rules = .generic
  expr : ∀ expr : Expr, expr.Readable → expr.isOperand = true → expr.depth < depth →
    expr.ReadBy level.expr
  query : ∀ query : Query, query.Readable → query.depth < depth → query.ReadBy level.query
  number : 0 < depth → ∀ (text : String) (rest : List Lexeme), Closes rest →
    level.expr 0 (.number text :: rest) = .ok (.value (.number text), rest)

/-! ## Lists with commas -/

theorem behind_item {β : Type} (lexemes : β → List Lexeme) (items : List β) (rest : List Lexeme) :
    (∃ more, (items.map lexemes).flatMap (fun other => .mark "," :: other) ++ rest =
        .mark "," :: more) ∨
      (items.map lexemes).flatMap (fun other => .mark "," :: other) ++ rest = rest := by
  cases items with
  | nil => exact .inr rfl
  | cons first others => exact .inl ⟨_, rfl⟩

section

variable {α β : Type} {item : Reader α} {ends : List Lexeme → Bool} {told : β → α → Prop}
variable {lexemes : β → List Lexeme} {rest : List Lexeme}

theorem commaJoined_cons (first : List Lexeme) (others : List (List Lexeme)) :
    commaJoined (first :: others) = first ++ others.flatMap fun other => .mark "," :: other := by
  induction others generalizing first with
  | nil => simp [commaJoined]
  | cons second more ih => rw [commaJoined_cons_cons, ih, List.flatMap_cons, List.cons_append]

/-- The further items of a list are read back one by one, each behind a comma. -/
theorem moreItems_told (endless : ∀ others, ends others = false)
    (stops : startsWithMark "," rest = false) (items : List β)
    (each : ∀ entry ∈ items, ∀ behind, (∃ more, behind = .mark "," :: more) ∨ behind = rest →
      ∃ tree, item (lexemes entry ++ behind) = .ok (tree, behind) ∧ told entry tree)
    (fuel : Nat) (enough : items.length ≤ fuel) :
    ∃ trees, Reader.moreItems ends item fuel
        ((items.map lexemes).flatMap (fun other => .mark "," :: other) ++ rest) =
          .ok (trees, rest) ∧ List.Forall₂ told items trees := by
  induction items generalizing fuel with
  | nil =>
      refine ⟨[], ?_, .nil⟩
      cases fuel with
      | zero => rfl
      | succ fuel =>
          have none : Reader.mark? "," rest = .ok (false, rest) := Reader.takeIf_of_false stops
          rw [List.map_nil, List.flatMap_nil, List.nil_append, Reader.moreItems,
            Reader.bind_of_ok none]
          rfl
  | cons entry more ih =>
      obtain ⟨fuel, rfl⟩ : ∃ less, fuel = less + 1 :=
        ⟨fuel - 1, by simp only [List.length_cons] at enough; omega⟩
      obtain ⟨tree, read, tells⟩ := each entry List.mem_cons_self _ (behind_item lexemes more rest)
      obtain ⟨trees, reads, tellsAll⟩ :=
        ih (fun other found => each other (List.mem_cons_of_mem _ found)) fuel
          (Nat.le_of_succ_le_succ enough)
      refine ⟨tree :: trees, ?_, .cons tells tellsAll⟩
      rw [List.map_cons, List.flatMap_cons, List.cons_append, List.cons_append, List.append_assoc,
        Reader.moreItems, Reader.bind_of_ok (Reader.mark?_mark "," _), if_pos rfl,
        Reader.bind_of_ok (Reader.ahead_apply ends _), endless, if_neg Bool.false_ne_true,
        Reader.bind_of_ok read, Reader.bind_of_ok reads]
      rfl

/-- A list is read back if each of its items is, in front of a comma and in front of what stands
behind the list. -/
theorem separated_told (endless : ∀ others, ends others = false)
    (stops : startsWithMark "," rest = false) {items : List β} (some : items ≠ [])
    (each : ∀ entry ∈ items, ∀ behind, (∃ more, behind = .mark "," :: more) ∨ behind = rest →
      ∃ tree, item (lexemes entry ++ behind) = .ok (tree, behind) ∧ told entry tree) :
    ∃ trees, Reader.separated ends item (commaJoined (items.map lexemes) ++ rest) =
        .ok (trees, rest) ∧ List.Forall₂ told items trees := by
  obtain ⟨first, more, rfl⟩ := List.exists_cons_of_ne_nil some
  obtain ⟨tree, read, tells⟩ := each first List.mem_cons_self _ (behind_item lexemes more rest)
  have enough : more.length ≤
      ((more.map lexemes).flatMap (fun other => .mark "," :: other) ++ rest).length := by
    clear read each some
    induction more with
    | nil => exact Nat.zero_le _
    | cons second others ih =>
        simp only [List.map_cons, List.flatMap_cons, List.length_append, List.length_cons] at ih ⊢
        omega
  obtain ⟨trees, reads, tellsAll⟩ :=
    moreItems_told endless stops more (fun other found => each other (List.mem_cons_of_mem _ found))
      _ enough
  refine ⟨tree :: trees, ?_, .cons tells tellsAll⟩
  rw [List.map_cons, commaJoined_cons, List.append_assoc, Reader.separated,
    Reader.bind_of_ok read, Reader.bind_of_ok (Reader.get_apply _), Reader.bind_of_ok reads]
  rfl

end

namespace ReadsBack

variable {level : Level} {depth : Nat} (reads : ReadsBack level depth)

include reads

theorem commaSeparated_eq {α : Type} (item : Reader α) :
    Reader.commaSeparated level.rules item = Reader.separated (fun _ => false) item := by
  rw [reads.rules]
  rfl

/-- An expression is read back where no operator stands behind it. -/
theorem expression {expr : Expr} (readable : expr.Readable) (operand : expr.isOperand = true)
    (deep : expr.depth < depth) {rest : List Lexeme} (closes : Closes rest) :
    ∃ tree, level.expression (expr.lexemes ++ rest) = .ok (tree, rest) ∧ expr.ToldBy tree :=
  reads.expr expr readable operand deep 0 rest expr.loosest_pos (by rw [closes.nextStrength])
    (expr.endsAt_of_closes closes)

/-- An expression is read back in front of a word that is no operator. -/
theorem expression_key {expr : Expr} (readable : expr.Readable) (operand : expr.isOperand = true)
    (deep : expr.depth < depth) {keyword : String} (closing : keyword ∈ Grammar.closingWords)
    (rest : List Lexeme) :
    ∃ tree, level.expression (expr.lexemes ++ .key keyword :: rest) =
        .ok (tree, .key keyword :: rest) ∧ expr.ToldBy tree :=
  reads.expression readable operand deep (Ahead.key rest closing)

/-- An expression that a keyword introduces is read back, or found missing. -/
theorem behind {expr : Option Expr}
    (each : ∀ part ∈ expr, part.Readable ∧ part.isOperand = true ∧ part.depth < depth)
    (keyword : String) {rest : List Lexeme} (closes : Closes rest)
    (other : Grammar.startsWithKeywords [keyword] rest = false) :
    ∃ tree, Grammar.Reader.behind? [keyword] level.expression
          (expr.elim [] (fun part => .key keyword :: part.lexemes) ++ rest) = .ok (tree, rest) ∧
      ToldBy? expr tree := by
  cases expr with
  | none =>
      refine ⟨none, ?_, toldBy?_none⟩
      have missing : Grammar.Reader.keywords? [keyword] rest = .ok (false, rest) :=
        Grammar.Reader.takeIf_of_false other
      rw [Option.elim_none, List.nil_append, Grammar.Reader.behind?,
        Grammar.Reader.bind_of_ok missing]
      rfl
  | some part =>
      obtain ⟨readable, operand, deep⟩ := each part rfl
      obtain ⟨tree, read, told⟩ := reads.expression readable operand deep closes
      refine ⟨some tree, ?_, toldBy?_some told⟩
      have there : Grammar.Reader.keywords? [keyword] (.key keyword :: (part.lexemes ++ rest)) =
          .ok (true, part.lexemes ++ rest) := Grammar.Reader.keyword?_key keyword _
      rw [Option.elim_some, List.cons_append, Grammar.Reader.behind?,
        Grammar.Reader.bind_of_ok there, if_pos rfl]
      exact Grammar.Reader.map_of_ok read

theorem expressions {exprs : List Expr} (some : exprs ≠ [])
    (each : ∀ expr ∈ exprs, expr.Readable ∧ expr.isOperand = true ∧ expr.depth < depth)
    {rest : List Lexeme} (leaves : Leaves rest) :
    ∃ trees, level.expressions (commaJoined (exprs.map Expr.lexemes) ++ rest) =
        .ok (trees, rest) ∧ List.Forall₂ Expr.ToldBy exprs trees := by
  rw [Level.expressions, reads.commaSeparated_eq]
  refine separated_told (fun _ => rfl) (leaves.startsWithMark (by decide)) some
    fun expr found behind stands => ?_
  obtain ⟨readable, operand, deep⟩ := each expr found
  refine reads.expression readable operand deep ?_
  rcases stands with ⟨more, rfl⟩ | rfl
  · exact Ahead.mark more (by decide)
  · exact leaves.closes

end ReadsBack

end Sql
end SemanticLayer
