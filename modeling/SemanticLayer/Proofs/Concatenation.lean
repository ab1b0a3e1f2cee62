import SemanticLayer.Proofs.Climbing

/-!
# Joined texts in the text of a dialect

T-SQL spells the operator that joins texts as a plus sign and MySQL as a call. The call keeps its
operands together, but a plus sign binds looser than the grammar takes the operator to bind: where it
stands for one in front of a multiplication or behind another sum, the operands are grouped anew.
-/

namespace SemanticLayer.Sql

open Grammar (Level)

namespace Expr

/-! ## Operations -/

/-- Columns whose names are no words of the grammar, whole numbers without a sign, and what
parentheses and some operators make of them. -/
def MadeWith (allowed : BinaryOp → Prop) : Expr → Prop
  | .column found => (Expr.column found).Plain
  | .literal (.int value) => 0 ≤ value.toInt
  | .binary left op right => allowed op ∧ left.MadeWith allowed ∧ right.MadeWith allowed
  | .nested inner => inner.MadeWith allowed
  | _ => False

/-- An expression with sums for joined texts. -/
def summed : Expr → Expr
  | .binary left op right => .binary left.summed (if op = .concat then .plus else op) right.summed
  | .nested inner => .nested inner.summed
  | other => other

/-- An expression with calls for joined texts. -/
def called : Expr → Expr
  | .binary left op right =>
    if op = .concat then left.called.joinedTo right.called
    else .binary left.called op right.called
  | .nested inner => .nested inner.called
  | other => other

/-- Whether an expression joins two texts. -/
def isJoined : Expr → Bool
  | .binary _ .concat _ => true
  | _ => false

/-- Whether no joined texts without parentheses stand in front of a multiplication or division, or
behind a plus or minus sign. -/
def Unmixed : Expr → Prop
  | .binary left op right =>
    (op ∈ [.times, .divide, .modulo] → left.isJoined = false) ∧
      (op ∈ [.plus, .minus] → right.isJoined = false) ∧ left.Unmixed ∧ right.Unmixed
  | .nested inner => inner.Unmixed
  | _ => True

section

variable {allowed : BinaryOp → Prop} {expr other : Expr}

theorem plain_of_madeWith : (expr : Expr) → expr.MadeWith allowed → expr.Plain
  | .column _, made => made
  | .literal (.int _), made => ⟨made, trivial⟩
  | .binary left _ right, made => ⟨plain_of_madeWith left made.2.1, plain_of_madeWith right made.2.2⟩
  | .nested inner, made => plain_of_madeWith inner made

theorem Regroups.madeWith_iff (same : Regroups expr other) :
    expr.MadeWith allowed ↔ other.MadeWith allowed := by
  induction same with
  | refl => exact Iff.rfl
  | symm _ ih => exact ih.symm
  | trans _ _ first second => exact first.trans second
  | binary op _ _ left right => exact and_congr Iff.rfl (and_congr left right)
  | unary => exact Iff.rfl
  | nested _ ih => exact ih
  | rotate =>
      simp only [MadeWith]
      tauto
  | reach => simp [MadeWith]

/-- What is grouped and joins no texts is spelled out. -/
theorem spelled_of_grouped : (expr : Expr) → expr.MadeWith (· ≠ .concat) → expr.Grouped →
    expr.Spelled
  | .column _, made, _ => .column made
  | .literal (.int _), made, _ => .int made
  | .binary left _ right, made, grouped =>
    .binary made.1 grouped.1.1 grouped.1.2 (spelled_of_grouped left made.2.1 grouped.2.1)
      (spelled_of_grouped right made.2.2 grouped.2.2)
  | .nested inner, made, grouped => .nested (spelled_of_grouped inner made grouped)

/-! ## Sums -/

theorem madeWith_summed : (expr : Expr) → expr.MadeWith allowed →
    expr.summed.MadeWith (· ≠ .concat)
  | .column _, made => made
  | .literal (.int _), made => made
  | .binary left op right, made => by
      refine ⟨?_, madeWith_summed left made.2.1, madeWith_summed right made.2.2⟩
      split
      · decide
      · assumption
  | .nested inner, made => madeWith_summed inner made

/-- Where texts are joined by a plus sign, they are written as sums. -/
theorem text_summed {d : Dialect} (joins : d.hasConcatOperator = true)
    (sign : d.concatOperator = "+") (expr : Expr) :
    Tokens.text d (expr.tokens d) = Tokens.text d (expr.summed.tokens d) := by
  fun_induction summed expr with
  | case1 left op right first second =>
      have operator : Tokens.text d op.tokens =
          Tokens.text d (if op = .concat then BinaryOp.plus else op).tokens := by
        split
        next same =>
          rw [same]
          simp [BinaryOp.tokens, Tokens.text, Token.text, sign, Symbol.text]
        next => rfl
      rw [tokens_binary joins, tokens_binary joins]
      simp only [Tokens.text_append, Tokens.text_cons, List.cons_append, first, second, operator]
  | case2 inner ih =>
      rw [Expr.tokens, Expr.tokens, parenthesized, parenthesized]
      simp only [Tokens.text_append, Tokens.text_cons, List.cons_append, ih]
  | case3 => rfl

/-! ### How sums are grouped -/

/-- The operator that joins texts binds as a multiplication, and a plus sign for it as a sum. -/
theorem grip_summed (op : BinaryOp) :
    (if op = .concat then BinaryOp.plus else op).grip = if op = .concat then 30 else op.grip := by
  cases op <;> rfl

theorem grip_le (op : BinaryOp) : op.grip ≤ 40 ∧ (30 < op.grip → op.grip = 40) := by
  cases op <;> decide

theorem grip_eq_product {op : BinaryOp} (product : op.grip = 40) :
    op ∈ [BinaryOp.times, .divide, .modulo] ∨ op = .concat := by
  cases op <;> first
    | exact absurd product (by decide)
    | decide

theorem grip_eq_sum {op : BinaryOp} (sum : op.grip = 30) : op ∈ [BinaryOp.plus, .minus] := by
  cases op <;> first
    | exact absurd sum (by decide)
    | decide

/-- What binds tighter than every operator is an operand. -/
theorem ne_binary_of_loosest (tight : 40 < expr.loosest) (left : Expr) (op : BinaryOp)
    (right : Expr) : expr ≠ .binary left op right := by
  rintro rfl
  have most := (grip_le op).1
  rw [loosest] at tight
  omega

theorem summed_of_operand (made : expr.MadeWith allowed)
    (operand : ∀ left op right, expr ≠ .binary left op right) :
    expr.summed.loosest = Grammar.Level.tightest ∧
      expr.summed.trailing = Grammar.Level.tightest := by
  cases expr with
  | binary left op right => exact absurd rfl (operand left op right)
  | column | nested => exact ⟨rfl, rfl⟩
  | literal value => cases value <;> exact ⟨rfl, rfl⟩
  | _ => exact made.elim

/-- With sums for joined texts an expression binds no looser than before or than a sum. -/
theorem bounds_summed : (expr : Expr) → min expr.loosest 30 ≤ expr.summed.loosest ∧
    min expr.trailing 30 ≤ expr.summed.trailing
  | .binary left op right => by
      have front := (bounds_summed left).1
      have back := (bounds_summed right).2
      have own : min op.grip 30 ≤ if op = .concat then 30 else op.grip := by
        split <;> omega
      rw [summed, loosest, loosest, trailing, trailing, grip_summed]
      omega
  | .nested _ | .column _ | .literal _ | .wildcard _ | .unary _ _ | .call _ _ _ _
  | .case _ _ _ _ | .between _ _ _ _ | .inList _ _ _ | .isNull _ _ | .aliased _ _
  | .subquery _ => ⟨Nat.min_le_left _ _, Nat.min_le_left _ _⟩

/-- What binds tighter than a sum does so with sums for joined texts, unless it joins texts. -/
theorem loosest_summed : (expr : Expr) → expr.MadeWith allowed → expr.Unmixed →
    expr.isJoined = false → 30 < expr.loosest → 30 < expr.summed.loosest
  | .binary left op right, made, ⟨front, _, clear, _⟩, other, tight => by
      rw [loosest] at tight
      have product := (grip_le op).2 (by omega)
      have noConcat : op ≠ .concat := by
        rintro rfl
        cases other
      have first := loosest_summed left made.2.1 clear
        (front ((grip_eq_product product).resolve_right noConcat)) (by omega)
      rw [summed, loosest, if_neg noConcat]
      omega
  | .column _, _, _, _, _ | .nested _, _, _, _, _ => by
      show 30 < Grammar.Level.tightest
      decide
  | .literal (.int _), _, _, _, _ => by
      show 30 < Grammar.Level.tightest
      decide

/-- What binds as a multiplication does so with sums for joined texts, unless it joins texts. -/
theorem trailing_summed (made : expr.MadeWith allowed) (grouped : expr.Grouped)
    (other : expr.isJoined = false) (held : 40 ≤ expr.trailing) : 40 ≤ expr.summed.trailing := by
  by_cases operator : ∃ left op right, expr = .binary left op right
  · obtain ⟨left, op, right, rfl⟩ := operator
    rw [trailing] at held
    have tight := grouped.1.2
    have noConcat : op ≠ .concat := by
      rintro rfl
      cases other
    have last := (summed_of_operand made.2.2 (ne_binary_of_loosest (by omega))).2
    rw [summed, trailing, if_neg noConcat, last]
    exact Nat.le_min.2 ⟨by omega, by decide⟩
  · rw [(summed_of_operand made fun left op right same => operator ⟨left, op, right, same⟩).2]
    decide

/-- Joined texts bind no tighter than a sum where they are one. -/
theorem bounds_of_isJoined (joined : expr.isJoined = true) :
    expr.summed.loosest ≤ 30 ∧ expr.summed.trailing ≤ 30 := by
  obtain ⟨left, right, rfl⟩ : ∃ left right, expr = .binary left .concat right := by
    unfold isJoined at joined
    split at joined
    · exact ⟨_, _, rfl⟩
    · cases joined
  exact ⟨Nat.min_le_right _ _, Nat.min_le_left _ _⟩

/-- With sums for joined texts the operands of an operator are bound as it asks for just where no
joined texts stand in front of it if it multiplies, or behind it if it sums. -/
theorem bound_summed_iff {left right : Expr} {op : BinaryOp} (made : (binary left op right).MadeWith
    allowed) (grouped : (binary left op right).Grouped) (clear : right.Unmixed) :
    ((if op = .concat then 30 else op.grip) ≤ left.summed.trailing ∧
        (if op = .concat then 30 else op.grip) < right.summed.loosest) ↔
      (op ∈ [.times, .divide, .modulo] → left.isJoined = false) ∧
        (op ∈ [.plus, .minus] → right.isJoined = false) := by
  obtain ⟨⟨held, tight⟩, groupedLeft, groupedRight⟩ := grouped
  have front := (bounds_summed left).2
  have back := (bounds_summed right).1
  have grips := grip_le op
  have operand (tighter : 40 < right.loosest) : 40 < right.summed.loosest := by
    rw [(summed_of_operand made.2.2 (ne_binary_of_loosest tighter)).1]
    decide
  constructor
  · rintro ⟨heldSummed, tightSummed⟩
    refine ⟨fun product => ?_, fun sum => ?_⟩
    · have grip : op.grip = 40 ∧ op ≠ .concat :=
        (by decide : ∀ op ∈ [BinaryOp.times, .divide, .modulo], op.grip = 40 ∧ op ≠ .concat) op
          product
      rw [if_neg grip.2] at heldSummed
      by_contra joined
      have loose := (bounds_of_isJoined (Bool.eq_true_of_not_eq_false joined)).2
      omega
    · have grip : op.grip = 30 ∧ op ≠ .concat :=
        (by decide : ∀ op ∈ [BinaryOp.plus, .minus], op.grip = 30 ∧ op ≠ .concat) op sum
      rw [if_neg grip.2] at tightSummed
      by_contra joined
      have loose := (bounds_of_isJoined (Bool.eq_true_of_not_eq_false joined)).1
      omega
  · rintro ⟨unjoinedLeft, unjoinedRight⟩
    -- only operators as strong as a sum or stronger can lose an operand: what is looser already
    -- holds joined texts, which bind as a sum at least
    by_cases concat : op = .concat
    · have grip : op.grip = 40 := by rw [concat]; rfl
      have tightSummed := operand (by omega)
      rw [if_pos concat]
      omega
    rw [if_neg concat]
    by_cases product : op.grip = 40
    · have heldSummed := trailing_summed made.2.1 groupedLeft
        (unjoinedLeft ((grip_eq_product product).resolve_right concat)) (by omega)
      have tightSummed := operand (by omega)
      omega
    by_cases sum : op.grip = 30
    · have tightSummed := loosest_summed right made.2.2 clear
        (unjoinedRight (grip_eq_sum sum)) (by omega)
      omega
    omega

/-- With sums for joined texts a grouped expression is grouped just where no joined texts stand in
front of a multiplication or behind a sum. -/
theorem grouped_summed_iff : (expr : Expr) → expr.MadeWith allowed → expr.Grouped →
    (expr.summed.Grouped ↔ expr.Unmixed)
  | .binary left op right, made, grouped => by
      have first := grouped_summed_iff left made.2.1 grouped.2.1
      have second := grouped_summed_iff right made.2.2 grouped.2.2
      rw [summed, Grouped, Unmixed, first, second, grip_summed, ← and_assoc (b := _ → _)]
      exact and_congr_left fun clear => bound_summed_iff made grouped clear.2
  | .column _, _, _ | .literal (.int _), _, _ => Iff.rfl
  | .nested inner, made, grouped => grouped_summed_iff inner made grouped

/-! ## Calls -/

/-- Where texts are joined by a call, they are written as calls. -/
theorem tokens_called {d : Dialect} (calls : d.hasConcatOperator = false) (expr : Expr) :
    expr.tokens d = expr.called.tokens d := by
  fun_induction called expr with
  | case1 left right first second =>
      rw [tokens_joinedTo, Expr.tokens, if_pos ⟨rfl, calls⟩, first, second]
      simp [parenthesized]
  | case2 left op right other first second =>
      rw [tokens_binary_of_ne other, tokens_binary_of_ne other, first, second]
  | case3 inner ih => rw [Expr.tokens, Expr.tokens, ih]
  | case4 => rfl

/-- With calls for joined texts an expression binds no looser than before. -/
theorem bounds_called (expr : Expr) :
    expr.loosest ≤ expr.called.loosest ∧ expr.trailing ≤ expr.called.trailing := by
  fun_induction called expr with
  | case1 left right =>
      have grip : BinaryOp.concat.grip ≤ Grammar.Level.tightest := by decide
      exact ⟨Nat.le_trans (Nat.min_le_right _ _) grip, Nat.le_trans (Nat.min_le_left _ _) grip⟩
  | case2 left op right other first second =>
      rw [loosest, loosest, trailing, trailing]
      omega
  | case3 | case4 => exact ⟨Nat.le_refl _, Nat.le_refl _⟩

/-- With calls for joined texts what is grouped is spelled out. -/
theorem spelled_called : (expr : Expr) → expr.MadeWith allowed → expr.Grouped →
    expr.called.Spelled
  | .column _, made, _ => .column made
  | .literal (.int _), made, _ => .int made
  | .binary left op right, made, ⟨⟨held, tight⟩, groupedLeft, groupedRight⟩ => by
      have first := spelled_called left made.2.1 groupedLeft
      have second := spelled_called right made.2.2 groupedRight
      rw [called]
      split
      next => exact .joined first second
      next other =>
        exact .binary other (Nat.le_trans held (bounds_called left).2)
          (Nat.lt_of_lt_of_le tight (bounds_called right).1) first second
  | .nested inner, made, grouped => .nested (spelled_called inner made grouped)

end

end Expr

/-! ## Conditions -/

/-- Operations that the generic grammar reads as they are grouped are read otherwise by the grammars
of dialects that join texts in another way. What is written for T-SQL is read as the regrouped
sums, and these are the operations with a plus sign for each joining of texts just where no joined
texts without parentheses stand in front of a multiplication or behind another sum. What is written
for MySQL is read as the operations with a call for each joining of texts. -/
theorem joined_texts_are_read_by_spelling {condition : Expr}
    (made : condition.MadeWith fun _ => True) (grouped : condition.Grouped) :
    (condition.depth ≤ 47 →
      ∃ read, Query.ofText ((rowsOf condition).text .duckDb) none = .ok read ∧
        read.equal (rowsOf condition) = true) ∧
      (condition.summed.regrouped.depth ≤ 47 →
        ∃ read, Query.ofText ((rowsOf condition).text .tSql) (some .tSql) = .ok read ∧
          read.equal (rowsOf condition.summed.regrouped) = true) ∧
      (condition.summed.regrouped = condition.summed ↔ condition.Unmixed) ∧
      (condition.called.depth ≤ 47 →
        ∃ read, Query.ofText ((rowsOf condition).text .mySql) (some .mySql) = .ok read ∧
          read.equal (rowsOf condition.called) = true) := by
  have plain := Expr.plain_of_madeWith condition made
  have sums := Expr.madeWith_summed condition made
  have plainSums := Expr.plain_of_madeWith _ sums
  refine ⟨fun shallow => ?_, fun shallow => ?_, ?_, fun shallow => ?_⟩
  · obtain ⟨read, done, equal⟩ := Query.ofText_text (readable_rowsOf plain grouped)
      (unhyphenated_rowsOf plain) (by rw [depth_rowsOf]; omega)
    rw [upperFunctions_rowsOf (Expr.upperFunctions_of_plain _ plain)] at equal
    exact ⟨read, done, equal⟩
  · have same := Expr.regroups_regrouped condition.summed
    have text : (rowsOf condition).text .tSql = (rowsOf condition.summed.regrouped).text .tSql := by
      rw [Query.text, Query.text, tokens_rowsOf, tokens_rowsOf, Tokens.text_append,
        Tokens.text_append, Expr.text_summed rfl rfl, same.tokens_eq rfl]
    rw [text]
    exact ofText_rowsOf (.inl rfl) (Expr.spelled_of_grouped _ (same.madeWith_iff.1 sums)
      (Expr.grouped_regrouped plainSums)) shallow
  · rw [← Expr.grouped_summed_iff condition made grouped]
    refine ⟨fun same => ?_, Expr.regrouped_of_grouped plainSums⟩
    rw [← same]
    exact Expr.grouped_regrouped plainSums
  · have text : (rowsOf condition).text .mySql = (rowsOf condition.called).text .mySql := by
      rw [Query.text, Query.text, tokens_rowsOf, tokens_rowsOf, Expr.tokens_called rfl]
    rw [text]
    exact ofText_rowsOf (.inr rfl) (Expr.spelled_called _ made grouped) shallow

/-- Two joined texts multiplied by a third column, as the generic grammar reads `a || b * c`. -/
def joinedFactor : Expr :=
  .binary (.binary (.col "a") .concat (.col "b")) .times (.col "c")

/-- T-SQL multiplies the second text alone, and MySQL the joined texts. -/
theorem joined_texts_are_read_by_spelling_joinedFactor :
    (∃ read, Query.ofText "SELECT\n  *\nWHERE a + b * c" (some .tSql) = .ok read ∧
      read.equal (rowsOf (.binary (.col "a") .plus (.binary (.col "b") .times (.col "c")))) =
        true) ∧
      joinedFactor.summed.regrouped ≠ joinedFactor.summed ∧
      ∃ read, Query.ofText "SELECT\n  *\nWHERE CONCAT(a, b) * c" (some .mySql) = .ok read ∧
        read.equal (rowsOf (.binary ((Expr.col "a").joinedTo (.col "b")) .times (.col "c"))) =
          true := by
  have column (name : String) (free : ((Expr.col name).nameKeyword ∉ operandWords ∧
      (Expr.col name).nameKeyword ∉ ["ANY", "ALL", "SOME"]) ∧
        (Expr.col name).endsInArray = false) : (Expr.col name).MadeWith fun _ => True := free
  have made : joinedFactor.MadeWith fun _ => True := ⟨trivial, ⟨trivial,
    column "a" (by decide +kernel), column "b" (by decide +kernel)⟩, column "c" (by decide +kernel)⟩
  have grouped : joinedFactor.Grouped :=
    ⟨⟨by decide, by decide⟩, ⟨⟨by decide, by decide⟩, trivial, trivial⟩, trivial⟩
  obtain ⟨-, summed, clear, called⟩ := joined_texts_are_read_by_spelling made grouped
  have texts : (rowsOf joinedFactor).text .tSql = "SELECT\n  *\nWHERE a + b * c" ∧
      (rowsOf joinedFactor).text .mySql = "SELECT\n  *\nWHERE CONCAT(a, b) * c" := by
    decide +kernel
  rw [texts.1] at summed
  rw [texts.2] at called
  refine ⟨summed (by decide), fun same => ?_, called (by decide)⟩
  exact Bool.false_ne_true ((clear.1 same).1 (by decide)).symm

end SemanticLayer.Sql
