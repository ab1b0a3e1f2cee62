import SemanticLayer.Proofs.Conjunctions

/-!
# Operators read by their grip

An expression of operators is written with the parentheses that the strengths of its operators call
for, and it is read by how tightly the grammar takes operators to bind. Its text is read as the
regrouped expression, which holds the same operands and operators in the same order. That is the
expression itself, parentheses apart, just where each operand is bound as tightly as the operator in
front of it or behind it asks for.
-/

namespace SemanticLayer

theorem Dialect.postgres_isGeneric : postgres.IsGeneric where
  concat := rfl
  hasConcat := rfl
  quotes := rfl
  strings _ := by simp [quoteString]
  booleans _ := rfl
  ordersNulls := rfl
  counts := rfl

namespace Sql

/-! ## Texts of two dialects -/

/-- The dialects that write as the generic grammar reads spell every token alike but the names of
functions. -/
theorem Token.text_of_isGeneric {d other : Dialect} (generic : d.IsGeneric)
    (likewise : other.IsGeneric) {token : Token} (plain : ∀ called, token ≠ .function called) :
    token.text d = token.text other := by
  cases token with
  | function called => exact absurd rfl (plain called)
  | concat => simp only [Token.text, generic.concat, likewise.concat]
  | name value quoted =>
      simp only [Token.text, Dialect.quoteIdentifier, generic.quotes, likewise.quotes]
  | string value => simp only [Token.text, generic.strings, likewise.strings]
  | bool value => simp only [Token.text, generic.booleans, likewise.booleans]
  | _ => rfl

/-- Tokens among which no function is called. -/
def Tokens.Uncalled (tokens : Tokens) : Prop :=
  ∀ token ∈ tokens, ∀ called, token ≠ .function called

namespace Tokens.Uncalled

theorem nil : Uncalled [] := by simp [Uncalled]

theorem cons {token : Token} {rest : Tokens} (other : ∀ called, token ≠ .function called)
    (later : Uncalled rest) : Uncalled (token :: rest) :=
  List.forall_mem_cons.mpr ⟨other, later⟩

theorem append {front back : Tokens} (first : Uncalled front) (second : Uncalled back) :
    Uncalled (front ++ back) :=
  List.forall_mem_append.mpr ⟨first, second⟩

/-- Tokens among which no function is called are written alike. -/
theorem text_eq {d other : Dialect} (generic : d.IsGeneric) (likewise : other.IsGeneric)
    {tokens : Tokens} (uncalled : Uncalled tokens) : text d tokens = text other tokens := by
  rw [text, text, List.map_congr_left fun token member =>
    Token.text_of_isGeneric generic likewise (uncalled token member)]

end Tokens.Uncalled

namespace Expr

/-! ## Expressions that are built -/

/-- Columns whose names are no words of the grammar, literals without a sign, and what operators and
parentheses make of them. -/
def Plain : Expr → Prop
  | .column found =>
    ((Expr.column found).nameKeyword ∉ operandWords ∧
      (Expr.column found).nameKeyword ∉ ["ANY", "ALL", "SOME"]) ∧
      (Expr.column found).endsInArray = false
  | .literal value => (Expr.literal value).HasShape ∧ (Expr.literal value).IsLegible
  | .binary left _ right => left.Plain ∧ right.Plain
  | .unary op operand => op = .not ∧ operand.Plain
  | .nested inner => inner.Plain
  | _ => False

/-- Expressions built from columns and literals with the operators that put in parentheses. -/
inductive Built : Expr → Prop where
  | column {found : Column} (plain : (Expr.column found).Plain) : Built (.column found)
  | literal {value : Literal} (plain : (Expr.literal value).Plain) : Built (.literal value)
  | combine {left right : Expr} (op : BinaryOp) : Built left → Built right →
      Built (left.combine op right)
  | not {operand : Expr} : Built operand → Built (.unary .not operand)

/-- Operators that the builder and the grammar rank alike. -/
def steadyOperators : List BinaryOp :=
  [.or, .and, .eq, .ne, .lt, .gt, .lte, .gte, .plus, .minus, .times, .divide, .modulo]

/-- Expressions built with steady operators, none with another of its own strength on the right, and
with NOT in front of no AND or OR and under nothing else than AND and OR. -/
inductive Steady : Expr → Prop where
  | column (found : Column) : Steady (.column found)
  | literal (value : Literal) : Steady (.literal value)
  | combine {left right : Expr} {op : BinaryOp} : Steady left → Steady right →
      op ∈ steadyOperators →
      (∀ first inner last, right = .binary first inner last → inner.strength ≠ op.strength) →
      (op = .and ∨ op = .or ∨
        ∀ operand, left ≠ .unary .not operand ∧ right ≠ .unary .not operand) →
      Steady (left.combine op right)
  | not {operand : Expr} : Steady operand →
      (∀ first inner last, operand = .binary first inner last → inner ≠ .and ∧ inner ≠ .or) →
      Steady (.unary .not operand)

/-- An expression of operators without its parentheses. -/
def unnested : Expr → Expr
  | .binary left op right => .binary left.unnested op right.unnested
  | .unary op operand => .unary op operand.unnested
  | .nested inner => inner.unnested
  | other => other

/-- Whether the operands of all operators are bound as the grammar asks for. -/
def Grouped : Expr → Prop
  | .binary left op right =>
    (op.grip ≤ left.trailing ∧ op.grip < right.loosest) ∧ left.Grouped ∧ right.Grouped
  | .unary op operand => op.grip < operand.loosest ∧ operand.Grouped
  | .nested inner => inner.Grouped
  | _ => True

theorem plain_nestBelow {expr : Expr} (plain : expr.Plain) (op : BinaryOp) :
    (expr.nestBelow op).Plain := by
  unfold nestBelow
  split
  next => split <;> exact plain
  next => exact plain

theorem Built.plain {expr : Expr} (built : expr.Built) : expr.Plain := by
  induction built with
  | column plain => exact plain
  | literal plain => exact plain
  | combine op _ _ left right => exact ⟨plain_nestBelow left op, plain_nestBelow right op⟩
  | not _ operand => exact ⟨rfl, operand⟩

/-! ## Regrouping -/

/-- An operator and what it takes behind an expression that has been read: it takes the last operand
that is bound tightly enough. -/
def attach : Expr → BinaryOp → Expr → Expr
  | .binary first inner last, op, right =>
    if op.grip ≤ (binary first inner last).trailing then
      .binary (.binary first inner last) op right
    else .binary first inner (last.attach op right)
  | .unary sign operand, op, right =>
    if op.grip ≤ (unary sign operand).trailing then .binary (.unary sign operand) op right
    else .unary sign (operand.attach op right)
  | other, op, right => .binary other op right

/-- Two expressions that have been read with an operator between them: it takes what is bound
tighter than itself at the front of the second. -/
def linked (left : Expr) (op : BinaryOp) : Expr → Expr
  | .binary first inner last =>
    if op.grip < (binary first inner last).loosest then
      left.attach op (.binary first inner last)
    else (linked left op first).attach inner last
  | other => left.attach op other

/-- An expression that has been read behind NOT, which takes what is bound tighter than itself at
the front of it. -/
def negated : Expr → Expr
  | .binary first op last =>
    if UnaryOp.not.grip < (binary first op last).loosest then .unary .not (.binary first op last)
    else (negated first).attach op last
  | other => .unary .not other

/-- What an expression is read as where it is written. -/
def regrouped : Expr → Expr
  | .binary left op right => left.regrouped.linked op right.regrouped
  | .unary .not operand => operand.regrouped.negated
  | .nested inner => .nested inner.regrouped
  | other => other

/-- Whether two expressions hold the same operands and operators in the same order, with the same
parentheses. -/
inductive Regroups : Expr → Expr → Prop where
  | refl (expr : Expr) : Regroups expr expr
  | symm {expr other : Expr} : Regroups expr other → Regroups other expr
  | trans {expr other another : Expr} : Regroups expr other → Regroups other another →
      Regroups expr another
  | binary {left left' right right' : Expr} (op : BinaryOp) : Regroups left left' →
      Regroups right right' → Regroups (.binary left op right) (.binary left' op right')
  | unary {operand operand' : Expr} (op : UnaryOp) : Regroups operand operand' →
      Regroups (.unary op operand) (.unary op operand')
  | nested {inner inner' : Expr} : Regroups inner inner' →
      Regroups (.nested inner) (.nested inner')
  | rotate (first : Expr) (inner : BinaryOp) (middle : Expr) (outer : BinaryOp) (last : Expr) :
      Regroups (.binary (.binary first inner middle) outer last)
        (.binary first inner (.binary middle outer last))
  | reach (sign : UnaryOp) (operand : Expr) (op : BinaryOp) (right : Expr) :
      Regroups (.binary (.unary sign operand) op right) (.unary sign (.binary operand op right))

/-- How many operators an expression has, outside of its operands. -/
def operators : Expr → Nat
  | .binary left _ right => left.operators + right.operators + 1
  | .unary _ operand => operand.operators + 1
  | .nested inner => inner.operators
  | _ => 0

section

variable {left right expr other : Expr} {op : BinaryOp}

/-! ### What is kept -/

theorem regroups_attach (left : Expr) (op : BinaryOp) (right : Expr) :
    Regroups (.binary left op right) (left.attach op right) := by
  fun_induction attach left op right with
  | case1 | case3 | case5 => exact .refl _
  | case2 first inner last op right _ ih =>
      exact (Regroups.rotate ..).trans (.binary _ (.refl _) ih)
  | case4 sign operand op right _ ih => exact (Regroups.reach ..).trans (.unary _ ih)

theorem regroups_linked (left : Expr) (op : BinaryOp) (right : Expr) :
    Regroups (.binary left op right) (left.linked op right) := by
  fun_induction linked left op right with
  | case1 | case3 => exact regroups_attach ..
  | case2 first inner last _ ih =>
      exact ((Regroups.rotate ..).symm.trans (.binary _ ih (.refl _))).trans (regroups_attach ..)

theorem regroups_negated (operand : Expr) : Regroups (.unary .not operand) operand.negated := by
  fun_induction negated operand with
  | case1 | case3 => exact .refl _
  | case2 first op last _ ih =>
      exact ((Regroups.reach ..).symm.trans (.binary _ ih (.refl _))).trans (regroups_attach ..)

/-- An expression is read with its operands and operators as they are written. -/
theorem regroups_regrouped (expr : Expr) : Regroups expr expr.regrouped := by
  fun_induction regrouped expr with
  | case1 left op right first second =>
      exact (Regroups.binary op first second).trans (regroups_linked ..)
  | case2 operand ih => exact (Regroups.unary .not ih).trans (regroups_negated _)
  | case3 inner ih => exact .nested ih
  | case4 => exact .refl _

theorem Regroups.plain_iff (same : Regroups expr other) : expr.Plain ↔ other.Plain := by
  induction same with
  | refl => exact Iff.rfl
  | symm _ ih => exact ih.symm
  | trans _ _ first second => exact first.trans second
  | binary op _ _ left right => exact and_congr left right
  | unary op _ ih => exact and_congr Iff.rfl ih
  | nested _ ih => exact ih
  | rotate => exact and_assoc
  | reach => exact and_assoc

theorem Regroups.operators_eq (same : Regroups expr other) :
    expr.operators = other.operators := by
  induction same with
  | refl => rfl
  | symm _ ih => exact ih.symm
  | trans _ _ first second => exact first.trans second
  | binary op _ _ left right => simp only [operators, left, right]
  | unary op _ ih => simp only [operators, ih]
  | nested _ ih => exact ih
  | rotate => simp only [operators]; omega
  | reach => simp only [operators]; omega

theorem tokens_binary {d : Dialect} (joins : d.hasConcatOperator = true) (left : Expr)
    (op : BinaryOp) (right : Expr) : (binary left op right).tokens d =
      left.tokens d ++ (space :: op.tokens ++ space :: right.tokens d) := by
  rw [Expr.tokens, if_neg (by simp [joins]), List.append_assoc]

theorem tokens_unary (d : Dialect) (op : UnaryOp) (operand : Expr) :
    (unary op operand).tokens d = op.tokens ++ operand.tokens d := by
  rw [Expr.tokens]

/-- Expressions of the same operands and operators in the same order are written alike. -/
theorem Regroups.tokens_eq {d : Dialect} (joins : d.hasConcatOperator = true)
    (same : Regroups expr other) : expr.tokens d = other.tokens d := by
  induction same with
  | refl => rfl
  | symm _ ih => exact ih.symm
  | trans _ _ first second => exact first.trans second
  | binary op _ _ left right => simp only [tokens_binary joins, left, right]
  | unary op _ ih => simp only [Expr.tokens, ih]
  | nested _ ih => simp only [Expr.tokens, ih]
  | rotate => simp only [tokens_binary joins, List.append_assoc, List.cons_append]
  | reach => simp only [tokens_binary joins, tokens_unary, List.append_assoc]

theorem operators_unnested (expr : Expr) : expr.unnested.operators = expr.operators := by
  fun_induction unnested expr with
  | case1 left op right first second => simp only [operators, first, second]
  | case2 op operand ih => simp only [operators, ih]
  | case3 inner ih => exact ih
  | case4 => rfl

/-! ### How it is grouped -/

theorem loosest_of_plain (plain : expr.Plain)
    (operand : ∀ left op right, expr ≠ .binary left op right) :
    expr.loosest = Grammar.Level.tightest := by
  cases expr with
  | binary left op right => exact absurd rfl (operand left op right)
  | between | inList | isNull => exact plain.elim
  | _ => rfl

theorem trailing_of_plain (plain : expr.Plain)
    (noBinary : ∀ left op right, expr ≠ .binary left op right)
    (noUnary : ∀ op operand, expr ≠ .unary op operand) :
    expr.trailing = Grammar.Level.tightest := by
  cases expr with
  | binary left op right => exact absurd rfl (noBinary left op right)
  | unary op operand => exact absurd rfl (noUnary op operand)
  | between => exact plain.elim
  | _ => rfl

theorem grip_lt_tightest (op : BinaryOp) : op.grip < Grammar.Level.tightest := by
  cases op <;> decide

/-- What an operator is attached to is grouped with it. An operand of its own does not make it bind
looser at the front, and neither does the operator if it is taken by an operand. -/
theorem grouped_attach (plain : left.Plain) (first : left.Grouped) (second : right.Grouped)
    (tight : op.grip < right.loosest) :
    (left.attach op right).Grouped ∧ (left.attach op right).loosest =
      if op.grip ≤ left.trailing then min left.loosest op.grip else left.loosest := by
  fun_induction attach left op right with
  | case1 start inner last op right held =>
      rw [if_pos held]
      exact ⟨⟨⟨held, tight⟩, first, second⟩, rfl⟩
  | case2 start inner last op right taken ih =>
      obtain ⟨⟨front, behind⟩, grouped, others⟩ := first
      obtain ⟨inside, loosest⟩ := ih plain.2 others second tight
      rw [if_neg taken]
      refine ⟨⟨⟨front, ?_⟩, grouped, inside⟩, rfl⟩
      rw [loosest]
      rw [trailing] at taken
      split <;> omega
  | case3 sign operand op right held =>
      rw [if_pos held]
      exact ⟨⟨⟨held, tight⟩, first, second⟩, rfl⟩
  | case4 sign operand op right taken ih =>
      obtain ⟨behind, others⟩ := first
      obtain ⟨inside, loosest⟩ := ih plain.2 others second tight
      rw [if_neg taken]
      refine ⟨⟨?_, inside⟩, rfl⟩
      rw [loosest]
      rw [trailing] at taken
      split <;> omega
  | case5 other op right noBinary noUnary =>
      have last := trailing_of_plain plain noBinary noUnary
      have held : op.grip ≤ other.trailing := by
        rw [last]
        exact Nat.le_of_lt (grip_lt_tightest op)
      rw [if_pos held]
      exact ⟨⟨⟨held, tight⟩, first, second⟩, rfl⟩

theorem grouped_linked (front : left.Plain) (back : right.Plain) (first : left.Grouped)
    (second : right.Grouped) : (left.linked op right).Grouped := by
  fun_induction linked left op right with
  | case1 start inner last tight => exact (grouped_attach front first second tight).1
  | case2 start inner last _ ih =>
      obtain ⟨⟨-, behind⟩, grouped, others⟩ := second
      have plain : (left.linked op start).Plain :=
        (regroups_linked left op start).plain_iff.1 ⟨front, back.1⟩
      exact (grouped_attach plain (ih back.1 grouped) others behind).1
  | case3 other noBinary =>
      refine (grouped_attach front first second ?_).1
      rw [loosest_of_plain back noBinary]
      exact grip_lt_tightest op

theorem grouped_negated (plain : expr.Plain) (grouped : expr.Grouped) :
    expr.negated.Grouped := by
  fun_induction negated expr with
  | case1 start inner last tight => exact ⟨tight, grouped⟩
  | case2 start inner last _ ih =>
      obtain ⟨⟨-, behind⟩, front, others⟩ := grouped
      have negated : start.negated.Plain :=
        (regroups_negated start).plain_iff.1 ⟨rfl, plain.1⟩
      exact (grouped_attach negated (ih plain.1 front) others behind).1
  | case3 other noBinary =>
      refine ⟨?_, grouped⟩
      rw [loosest_of_plain plain noBinary]
      decide

/-- An expression is read grouped. -/
theorem grouped_regrouped (plain : expr.Plain) : expr.regrouped.Grouped := by
  fun_induction regrouped expr with
  | case1 left op right first second =>
      exact grouped_linked ((regroups_regrouped left).plain_iff.1 plain.1)
        ((regroups_regrouped right).plain_iff.1 plain.2) (first plain.1) (second plain.2)
  | case2 operand ih =>
      exact grouped_negated ((regroups_regrouped operand).plain_iff.1 plain.2) (ih plain.2)
  | case3 inner ih => exact ih plain
  | case4 other noBinary noNot noNested =>
      cases other with
      | binary left op right => exact absurd rfl (noBinary left op right)
      | unary op operand => exact absurd (plain.1 ▸ rfl) (noNot operand)
      | nested inner => exact absurd rfl (noNested inner)
      | _ => trivial

/-! ### What is read as it stands -/

theorem attach_of_le (held : op.grip ≤ left.trailing) :
    left.attach op right = .binary left op right := by
  cases left with
  | binary | unary => exact if_pos held
  | _ => rfl

theorem linked_of_lt (tight : op.grip < right.loosest) :
    left.linked op right = left.attach op right := by
  cases right with
  | binary => exact if_pos tight
  | _ => rfl

theorem negated_of_lt (tight : UnaryOp.not.grip < expr.loosest) :
    expr.negated = .unary .not expr := by
  cases expr with
  | binary => exact if_pos tight
  | _ => rfl

/-- A grouped expression is read as it stands. -/
theorem regrouped_of_grouped (plain : expr.Plain) (grouped : expr.Grouped) :
    expr.regrouped = expr := by
  fun_induction regrouped expr with
  | case1 left op right first second =>
      obtain ⟨⟨held, tight⟩, front, back⟩ := grouped
      rw [first plain.1 front, second plain.2 back, linked_of_lt tight, attach_of_le held]
  | case2 operand ih =>
      rw [ih plain.2 grouped.2, negated_of_lt grouped.1]
  | case3 inner ih => rw [ih plain grouped]
  | case4 => rfl

/-! ### What is read otherwise -/

/-- What an operator is attached to is its left operand or an expression that it is taken into. -/
theorem of_attach_eq_binary {start last : Expr} {inner : BinaryOp} (plain : left.Plain)
    (same : left.attach op right = .binary start inner last) :
    (op.grip ≤ left.trailing ∧ left = start ∧ op = inner ∧ right = last) ∨
      ∃ middle, left = .binary start inner middle ∧ ¬ op.grip ≤ left.trailing ∧
        middle.attach op right = last := by
  cases left with
  | binary first own behind =>
      rw [attach] at same
      split at same
      next held =>
        obtain ⟨rfl, rfl, rfl⟩ := binary.inj same
        exact .inl ⟨held, rfl, rfl, rfl⟩
      next taken =>
        obtain ⟨rfl, rfl, rfl⟩ := binary.inj same
        exact .inr ⟨behind, rfl, taken, rfl⟩
  | unary sign operand =>
      rw [attach] at same
      split at same
      next held =>
        obtain ⟨rfl, rfl, rfl⟩ := binary.inj same
        exact .inl ⟨held, rfl, rfl, rfl⟩
      next => cases same
  | between | inList | isNull | call | case | aliased | subquery | wildcard => exact plain.elim
  | column | literal | nested =>
      obtain ⟨rfl, rfl, rfl⟩ := binary.inj same
      exact .inl ⟨Nat.le_of_lt (grip_lt_tightest _), rfl, rfl, rfl⟩

/-- An operator with all of an expression on its left is not taken into it. -/
theorem of_attach_eq_binary_of_size {start last : Expr} {inner : BinaryOp} (plain : left.Plain)
    (same : left.attach op right = .binary start inner last)
    (size : start.operators = left.operators) :
    op.grip ≤ left.trailing ∧ left = start ∧ op = inner ∧ right = last := by
  rcases of_attach_eq_binary plain same with stands | ⟨middle, rfl, -, -⟩
  · exact stands
  · rw [operators] at size
    omega

/-- Two expressions whose operator is read with all of the first on its left keep their places: each
is bound tightly enough. -/
theorem of_linked_eq_binary {start last : Expr} {inner : BinaryOp} (front : left.Plain)
    (back : right.Plain) (grouped : right.Grouped)
    (same : left.linked op right = .binary start inner last)
    (size : start.operators = left.operators) :
    (op.grip ≤ left.trailing ∧ op.grip < right.loosest) ∧
      left = start ∧ op = inner ∧ right = last := by
  fun_induction linked left op right generalizing start inner last with
  | case1 first own behind tight =>
      obtain ⟨held, places⟩ := of_attach_eq_binary_of_size front same size
      exact ⟨⟨held, tight⟩, places⟩
  | case2 first own behind loose ih =>
      obtain ⟨⟨bound, -⟩, inside, -⟩ := grouped
      have kept := regroups_linked left op first
      rcases of_attach_eq_binary (kept.plain_iff.1 ⟨front, back.1⟩) same with
        ⟨-, rfl, -, -⟩ | ⟨middle, whole, taken, -⟩
      · rw [← kept.operators_eq, operators] at size
        omega
      · obtain ⟨⟨-, tight⟩, rfl, rfl, rfl⟩ := ih back.1 inside whole size
        rw [whole, trailing] at taken
        rw [loosest] at loose
        omega
  | case3 other noBinary =>
      have tight : op.grip < other.loosest := by
        rw [loosest_of_plain back noBinary]
        exact grip_lt_tightest op
      obtain ⟨held, places⟩ := of_attach_eq_binary_of_size front same size
      exact ⟨⟨held, tight⟩, places⟩

theorem of_attach_eq_unary {sign : UnaryOp} {operand : Expr}
    (same : left.attach op right = .unary sign operand) :
    ∃ inner, left = .unary sign inner ∧ ¬ op.grip ≤ left.trailing ∧
      inner.attach op right = operand := by
  cases left with
  | unary own inner =>
      rw [attach] at same
      split at same
      next => cases same
      next taken =>
        obtain ⟨rfl, rfl⟩ := unary.inj same
        exact ⟨inner, rfl, taken, rfl⟩
  | binary =>
      rw [attach] at same
      split at same <;> cases same
  | _ => cases same

/-- An expression that is read with all of it behind NOT is bound tightly enough. -/
theorem of_negated_eq_unary {sign : UnaryOp} {operand : Expr} (plain : expr.Plain)
    (grouped : expr.Grouped) (same : expr.negated = .unary sign operand)
    (size : operand.operators = expr.operators) :
    UnaryOp.not.grip < expr.loosest ∧ expr = operand ∧ .not = sign := by
  fun_induction negated expr generalizing sign operand with
  | case1 first op last tight =>
      obtain ⟨rfl, rfl⟩ := unary.inj same
      exact ⟨tight, rfl, rfl⟩
  | case2 first op last loose ih =>
      obtain ⟨⟨bound, -⟩, inside, -⟩ := grouped
      obtain ⟨inner, whole, taken, rfl⟩ := of_attach_eq_unary same
      rw [← (regroups_attach inner op last).operators_eq, operators, operators] at size
      obtain ⟨tight, rfl, rfl⟩ := ih plain.1 inside whole (by omega)
      rw [whole, trailing] at taken
      rw [loosest] at loose
      omega
  | case3 other noBinary =>
      obtain ⟨rfl, rfl⟩ := unary.inj same
      refine ⟨?_, rfl, rfl⟩
      rw [loosest_of_plain plain noBinary]
      decide

theorem attach_ne_nested (left : Expr) (op : BinaryOp) (right inner : Expr) :
    left.attach op right ≠ .nested inner := by
  cases left with
  | binary | unary =>
      rw [attach]
      split <;> nofun
  | _ => nofun

theorem linked_ne_nested (left : Expr) (op : BinaryOp) (right inner : Expr) :
    left.linked op right ≠ .nested inner := by
  fun_cases linked left op right <;> exact attach_ne_nested _ _ _ inner

theorem negated_ne_nested (expr inner : Expr) : expr.negated ≠ .nested inner := by
  fun_cases negated expr with
  | case1 | case3 => nofun
  | case2 => exact attach_ne_nested _ _ _ inner

/-- An expression with a binary operator in front of everything but its parentheses has that
operator on top, unless it stands in parentheses as a whole. -/
theorem of_unnested_eq_binary (noNested : ∀ inner, expr ≠ .nested inner)
    (same : expr.unnested = .binary left op right) :
    ∃ start last, expr = .binary start op last ∧ start.unnested = left ∧
      last.unnested = right := by
  cases expr with
  | binary start own last =>
      obtain ⟨rfl, rfl, rfl⟩ := binary.inj same
      exact ⟨start, last, rfl, rfl, rfl⟩
  | nested inner => exact absurd rfl (noNested inner)
  | _ => cases same

theorem of_unnested_eq_unary {sign : UnaryOp} {operand : Expr}
    (noNested : ∀ inner, expr ≠ .nested inner) (same : expr.unnested = .unary sign operand) :
    ∃ inner, expr = .unary sign inner ∧ inner.unnested = operand := by
  cases expr with
  | unary own inner =>
      obtain ⟨rfl, rfl⟩ := unary.inj same
      exact ⟨inner, rfl, rfl⟩
  | nested inner => exact absurd rfl (noNested inner)
  | _ => cases same

theorem operators_of_unnested_eq (same : expr.unnested = other.unnested) :
    expr.operators = other.operators := by
  rw [← operators_unnested, same, operators_unnested]

/-- An expression is read as it stands, parentheses apart, just where it is grouped. -/
theorem unnested_regrouped_iff (plain : expr.Plain) :
    expr.regrouped.unnested = expr.unnested ↔ expr.Grouped := by
  refine ⟨fun same => ?_, fun grouped => by rw [regrouped_of_grouped plain grouped]⟩
  fun_induction regrouped expr with
  | case1 left op right first second =>
      obtain ⟨start, last, whole, front, back⟩ :=
        of_unnested_eq_binary (linked_ne_nested _ _ _) same
      have size : start.operators = left.regrouped.operators := by
        rw [operators_of_unnested_eq front, (regroups_regrouped left).operators_eq]
      obtain ⟨bound, rfl, -, rfl⟩ := of_linked_eq_binary
        ((regroups_regrouped left).plain_iff.1 plain.1)
        ((regroups_regrouped right).plain_iff.1 plain.2) (grouped_regrouped plain.2) whole size
      have groupedLeft := first plain.1 front
      have groupedRight := second plain.2 back
      rw [regrouped_of_grouped plain.1 groupedLeft, regrouped_of_grouped plain.2 groupedRight]
        at bound
      exact ⟨bound, groupedLeft, groupedRight⟩
  | case2 operand ih =>
      obtain ⟨inner, whole, inside⟩ := of_unnested_eq_unary (negated_ne_nested _) same
      have size : inner.operators = operand.regrouped.operators := by
        rw [operators_of_unnested_eq inside, (regroups_regrouped operand).operators_eq]
      obtain ⟨tight, rfl, -⟩ := of_negated_eq_unary
        ((regroups_regrouped operand).plain_iff.1 plain.2) (grouped_regrouped plain.2) whole size
      have grouped := ih plain.2 inside
      rw [regrouped_of_grouped plain.2 grouped] at tight
      exact ⟨tight, grouped⟩
  | case3 inner ih => exact ih plain same
  | case4 other noBinary noNot noNested =>
      cases other with
      | binary left op right => exact absurd rfl (noBinary left op right)
      | unary op operand => exact absurd (plain.1 ▸ rfl) (noNot operand)
      | nested inner => exact absurd rfl (noNested inner)
      | _ => trivial

/-! ### What is built grouped -/

/-- How tightly the operator on top of an expression binds. -/
def topGrip : Expr → Nat
  | .binary _ op _ => op.grip
  | .unary op _ => op.grip
  | _ => Grammar.Level.tightest

theorem grip_le_of_steady {op inner : BinaryOp} (member : op ∈ steadyOperators)
    (other : inner ∈ steadyOperators) :
    (op.strength ≤ inner.strength → op.grip ≤ inner.grip) ∧
      (op.strength < inner.strength → op.grip < inner.grip) := by
  cases op <;> cases inner <;> first | decide | simp [steadyOperators] at member other

theorem not_grip_lt {op : BinaryOp} (member : op ∈ steadyOperators) (noAnd : op ≠ .and)
    (noOr : op ≠ .or) : UnaryOp.not.grip < op.grip := by
  cases op <;> first | decide | simp [steadyOperators] at member noAnd noOr

/-- Whether the operator on top of an expression is the loosest at either end of it, and a steady
one or NOT. -/
structure Bounded (expr : Expr) : Prop where
  loosest : expr.topGrip ≤ expr.loosest
  trailing : expr.topGrip ≤ expr.trailing
  grouped : expr.Grouped
  steady : ∀ first inner last, expr = .binary first inner last → inner ∈ steadyOperators
  negation : ∀ sign operand, expr = .unary sign operand → sign = .not

theorem Bounded.nestBelow (bounded : expr.Bounded) (op : BinaryOp) :
    (expr.nestBelow op).Bounded := by
  unfold Expr.nestBelow
  split
  next =>
    split
    next => exact ⟨Nat.le_refl _, Nat.le_refl _, bounded.grouped, nofun, nofun⟩
    next => exact bounded
  next => exact bounded

/-- An operand is bound tightly enough for a steady operator, and tighter if it is another one. -/
theorem Bounded.grip_le (bounded : expr.Bounded) (member : op ∈ steadyOperators)
    (negation : op = .and ∨ op = .or ∨ ∀ operand, expr ≠ .unary .not operand) :
    op.grip ≤ (expr.nestBelow op).topGrip ∧
      ((∀ first inner last, expr = .binary first inner last → inner.strength ≠ op.strength) →
        op.grip < (expr.nestBelow op).topGrip) := by
  cases expr with
  | binary first inner last =>
      obtain ⟨least, less⟩ := grip_le_of_steady member (bounded.steady first inner last rfl)
      rw [Expr.nestBelow]
      split
      next => exact ⟨Nat.le_of_lt (grip_lt_tightest op), fun _ => grip_lt_tightest op⟩
      next below =>
        refine ⟨least (by omega), fun other => less ?_⟩
        have differs := other first inner last rfl
        omega
  | unary sign operand =>
      obtain rfl := bounded.negation sign operand rfl
      rcases negation with rfl | rfl | none
      · exact ⟨show 10 ≤ 15 by decide, fun _ => show 10 < 15 by decide⟩
      · exact ⟨show 5 ≤ 15 by decide, fun _ => show 5 < 15 by decide⟩
      · exact absurd rfl (none operand)
  | _ => exact ⟨Nat.le_of_lt (grip_lt_tightest op), fun _ => grip_lt_tightest op⟩

/-- A steady expression is grouped as it is built. -/
theorem bounded_of_steady (steady : expr.Steady) : expr.Bounded := by
  induction steady with
  | column | literal => exact ⟨Nat.le_refl _, Nat.le_refl _, trivial, nofun, nofun⟩
  | @combine left right op _ _ member strengths negations first second =>
      obtain ⟨held, -⟩ := first.grip_le member (negations.imp_right (Or.imp_right
        fun none operand => (none operand).1))
      obtain ⟨least, less⟩ := second.grip_le member (negations.imp_right (Or.imp_right
        fun none operand => (none operand).2))
      have tight := less strengths
      have front := first.nestBelow op
      have back := second.nestBelow op
      have bound : op.grip ≤ (left.nestBelow op).trailing ∧
          op.grip < (right.nestBelow op).loosest :=
        ⟨Nat.le_trans held front.trailing, Nat.lt_of_lt_of_le tight back.loosest⟩
      refine ⟨?_, ?_, ⟨bound, front.grouped, back.grouped⟩, ?_, nofun⟩
      · exact Nat.le_min.2 ⟨Nat.le_trans held front.loosest, Nat.le_refl _⟩
      · exact Nat.le_min.2 ⟨Nat.le_refl _, Nat.le_trans least back.trailing⟩
      · rintro _ _ _ ⟨⟩
        exact member
  | @not operand _ apart ih =>
      have tight : UnaryOp.not.grip < operand.loosest ∧ UnaryOp.not.grip ≤ operand.trailing := by
        obtain ⟨loosest, trailing, -, steady, negation⟩ := ih
        cases operand with
        | binary first inner last =>
            obtain ⟨noAnd, noOr⟩ := apart first inner last rfl
            have least : UnaryOp.not.grip < inner.grip :=
              not_grip_lt (steady first inner last rfl) noAnd noOr
            exact ⟨Nat.lt_of_lt_of_le least loosest, Nat.le_trans (Nat.le_of_lt least) trailing⟩
        | unary sign operand =>
            obtain rfl := negation sign operand rfl
            exact ⟨show 15 < Grammar.Level.tightest by decide, trailing⟩
        | _ =>
            have least : UnaryOp.not.grip < Grammar.Level.tightest := by decide
            exact ⟨Nat.lt_of_lt_of_le least loosest, Nat.le_trans (Nat.le_of_lt least) trailing⟩
      exact ⟨show 15 ≤ Grammar.Level.tightest by decide, Nat.le_min.2 ⟨Nat.le_refl _, tight.2⟩,
        ⟨tight.1, ih.grouped⟩, nofun, by rintro _ _ ⟨⟩; rfl⟩

/-- An operator on the right that is no looser to the builder but no tighter to the grammar, such as
one of the same strength, gets no parentheses that it needs. -/
theorem not_grouped_of_right {first last : Expr} {inner : BinaryOp}
    (strength : op.strength ≤ inner.strength) (grip : inner.grip ≤ op.grip) :
    ¬ (left.combine op (first.combine inner last)).Grouped := by
  rintro ⟨⟨-, tight⟩, -⟩
  rw [combine, nestBelow, if_neg (Nat.not_lt.2 strength), loosest] at tight
  omega

/-- An AND or OR behind NOT gets no parentheses that it needs. -/
theorem not_grouped_of_not (junction : op = .and ∨ op = .or) :
    ¬ (unary .not (left.combine op right)).Grouped := by
  rintro ⟨tight, -⟩
  have loose : op.grip ≤ UnaryOp.not.grip := by rcases junction with rfl | rfl <;> decide
  rw [combine, loosest] at tight
  omega

/-! ### How it is read -/

theorem isOperand_of_plain (plain : expr.Plain) : expr.isOperand = true := by
  cases expr with
  | wildcard | aliased => exact plain.elim
  | _ => rfl

/-- No plain expression starts with a word that starts something else behind an operator. -/
theorem nameKeyword_of_plain : (expr : Expr) → expr.Plain →
    expr.nameKeyword ∉ ["ANY", "ALL", "SOME"]
  | .column _, plain => plain.1.2
  | .binary left _ _, plain => nameKeyword_of_plain left plain.1
  | .literal _, _ | .unary _ _, _ | .nested _, _ => by
      show "" ∉ _
      decide

theorem endsInArray_of_plain : (expr : Expr) → expr.Plain → expr.endsInArray = false
  | .column _, plain => plain.2
  | .binary _ _ right, plain => endsInArray_of_plain right plain.2
  | .unary _ operand, plain => endsInArray_of_plain operand plain.2
  | .literal _, _ | .nested _, _ => rfl

/-- A plain expression that is grouped can be read back. -/
theorem readable_of_grouped : (expr : Expr) → expr.Plain → expr.Grouped → expr.Readable
  | .column _, plain, _ => ⟨plain.1.1, trivial⟩
  | .literal _, plain, _ => plain
  | .binary left op right, plain, grouped =>
    have named := nameKeyword_of_plain right plain.2
    have noArray := endsInArray_of_plain left plain.1
    ⟨⟨⟨⟨isOperand_of_plain plain.1, isOperand_of_plain plain.2⟩, grouped.1.1, grouped.1.2,
        .inr (.inr named)⟩, fun _ => noArray, fun _ same => named (by simp [same])⟩,
      readable_of_grouped left plain.1 grouped.2.1, readable_of_grouped right plain.2 grouped.2.2⟩
  | .unary op operand, plain, grouped =>
    ⟨⟨⟨isOperand_of_plain plain.2, grouped.1⟩, trivial⟩,
      readable_of_grouped operand plain.2 grouped.2⟩
  | .nested inner, plain, grouped =>
    have operand : inner.isOperand = true := isOperand_of_plain plain
    ⟨⟨operand, trivial⟩, readable_of_grouped inner plain grouped⟩

theorem unhyphenated_operator (op : BinaryOp) {rest : Tokens} (later : Tokens.Unhyphenated rest) :
    Tokens.Unhyphenated (space :: op.tokens ++ space :: rest) := by
  have blank : Tokens.Unhyphenated (space :: rest) := .cons (by simp [space]) later
  refine .cons (by simp [space]) ?_
  cases op with
  | notLike => exact .cons (by simp) (.cons (by simp [space]) (.cons (by simp) blank))
  | _ => exact List.isChain_cons_cons.mpr ⟨by simp [space], blank⟩

/-- No two minus signs meet in a plain expression: there is none in front of an operand. -/
theorem unhyphenated_of_plain : (expr : Expr) → expr.Plain →
    Tokens.Unhyphenated (expr.tokens .duckDb)
  | .column found, _ => by
      rw [Expr.tokens]
      exact Planner.Filter.unhyphenated_column found
  | .literal value, _ => .cons (by cases value <;> simp [Literal.token]) .nil
  | .binary left op right, plain => by
      rw [tokens_binary rfl]
      exact (unhyphenated_of_plain left plain.1).append
        (unhyphenated_operator op (unhyphenated_of_plain right plain.2)) (.symbol .space rfl _)
  | .unary op operand, plain => by
      obtain ⟨rfl, plain⟩ := plain
      rw [tokens_unary]
      exact .cons (by simp) (.cons (by simp [space]) (unhyphenated_of_plain operand plain))
  | .nested inner, plain => by
      rw [Expr.tokens]
      exact (unhyphenated_of_plain inner plain).parenthesized

theorem upperFunctions_of_plain : (expr : Expr) → expr.Plain → expr.upperFunctions = expr
  | .column _, _ | .literal _, _ => rfl
  | .binary left op right, plain => by
      rw [upperFunctions, upperFunctions_of_plain left plain.1,
        upperFunctions_of_plain right plain.2]
  | .unary op operand, plain => by rw [upperFunctions, upperFunctions_of_plain operand plain.2]
  | .nested inner, plain => by rw [upperFunctions, upperFunctions_of_plain inner plain]

/-- No function is called in a plain expression. -/
theorem uncalled_of_plain {d : Dialect} (joins : d.hasConcatOperator = true) :
    (expr : Expr) → expr.Plain → Tokens.Uncalled (expr.tokens d)
  | .column found, _ => by
      rw [Expr.tokens]
      have path (names : Path) : Tokens.Uncalled names.tokens := by
        induction names with
        | nil => exact .nil
        | cons name names ih => exact .cons (by simp [Name.token]) (.cons (by simp) ih)
      exact (path _).append (.cons (by simp [Name.token]) .nil)
  | .literal value, _ => by
      cases value <;> simp [Tokens.Uncalled, Expr.tokens, Literal.token]
  | .binary left op right, plain => by
      have first := uncalled_of_plain joins left plain.1
      have second := uncalled_of_plain joins right plain.2
      have own : Tokens.Uncalled op.tokens := by
        cases op <;> simp [Tokens.Uncalled, BinaryOp.tokens, space]
      rw [tokens_binary joins]
      exact first.append (.cons (by simp [space]) (own.append (.cons (by simp [space]) second)))
  | .unary op operand, plain => by
      have inner := uncalled_of_plain joins operand plain.2
      have own : Tokens.Uncalled op.tokens := by
        cases op <;> simp [Tokens.Uncalled, UnaryOp.tokens, space]
      rw [tokens_unary]
      exact own.append inner
  | .nested inner, plain => by
      have inside := uncalled_of_plain joins inner plain
      rw [Expr.tokens, parenthesized]
      exact .cons (by simp) (inside.append (.cons (by simp) .nil))

/-- A plain expression is made of the same tokens in all dialects that join texts by an operator. -/
theorem tokens_of_plain {d other : Dialect} (joins : d.hasConcatOperator = true)
    (likewise : other.hasConcatOperator = true) :
    (expr : Expr) → expr.Plain → expr.tokens d = expr.tokens other
  | .column _, _ | .literal _, _ => by rw [Expr.tokens, Expr.tokens]
  | .binary left op right, plain => by
      rw [tokens_binary joins, tokens_binary likewise, tokens_of_plain joins likewise left plain.1,
        tokens_of_plain joins likewise right plain.2]
  | .unary op operand, plain => by
      rw [tokens_unary, tokens_unary, tokens_of_plain joins likewise operand plain.2]
  | .nested inner, plain => by
      rw [Expr.tokens, Expr.tokens, tokens_of_plain joins likewise inner plain]

end

end Expr

/-! ## Conditions of operators -/

/-- The rows that a condition holds of. -/
def rowsOf (condition : Expr) : Query :=
  { select := { projection := [.star], filter := some condition } }

theorem tokens_rowsOf (d : Dialect) (condition : Expr) :
    (rowsOf condition).tokens d = [.keyword .select, .symbol .newline, .indent 1, .symbol .star,
      .symbol .newline, .keyword .whereWord, space] ++ condition.tokens d := by
  simp [rowsOf, Query.tokens, Select.tokens, ctesTokens, exprsTokens, itemLines, clause,
    exprTokens?, commaSeparated, orderingsTokens, ending, sourcesTokens?, Expr.star, Expr.tokens,
    Path.tokens]

theorem depth_rowsOf (condition : Expr) : (rowsOf condition).depth = condition.depth + 1 := by
  simp [rowsOf, Query.depth, Select.depth, ctesDepth, depthBelow, depthBelow?, sourcesDepth?,
    orderingsDepth, Expr.star, Expr.depth]

/-- The rows that a plain condition holds of are asked for alike in the dialects that write as the
generic grammar reads. -/
theorem text_rowsOf {d other : Dialect} (generic : d.IsGeneric) (likewise : other.IsGeneric)
    {condition : Expr} (plain : condition.Plain) :
    (rowsOf condition).text d = (rowsOf condition).text other := by
  have uncalled : Tokens.Uncalled ((rowsOf condition).tokens d) := by
    rw [tokens_rowsOf]
    refine .append ?_ (Expr.uncalled_of_plain generic.hasConcat condition plain)
    simp [Tokens.Uncalled, space]
  rw [Query.text, Query.text, uncalled.text_eq generic likewise, tokens_rowsOf, tokens_rowsOf,
    Expr.tokens_of_plain generic.hasConcat likewise.hasConcat condition plain]

/-- The rows that a plain and grouped condition holds of can be asked for. -/
theorem readable_rowsOf {condition : Expr} (plain : condition.Plain)
    (grouped : condition.Grouped) : (rowsOf condition).Readable := by
  have operand := Expr.isOperand_of_plain plain
  have shape : (rowsOf condition).select.HasShape :=
    ⟨by simp [rowsOf], by simp [rowsOf], by simp [rowsOf], by rintro _ ⟨⟩; exact operand,
      by simp [rowsOf], nofun, by simp [rowsOf]⟩
  have legible : (rowsOf condition).IsLegible := ⟨nofun, nofun, by rintro _ ⟨⟩; decide, nofun⟩
  exact ⟨⟨shape, legible⟩, trivial, ⟨⟨nofun, trivial⟩, trivial⟩, trivial,
    Expr.readable_of_grouped condition plain grouped, trivial, trivial, trivial⟩

theorem unhyphenated_rowsOf {condition : Expr} (plain : condition.Plain) :
    Tokens.Unhyphenated ((rowsOf condition).tokens .duckDb) := by
  rw [tokens_rowsOf]
  have inner := Expr.unhyphenated_of_plain condition plain
  exact .cons (by simp) (.cons (by simp) (.cons (by simp) (.cons (by simp) (.cons (by simp)
    (.cons (by simp) (.cons (by simp [space]) inner))))))

theorem upperFunctions_rowsOf {condition : Expr} (inner : condition.upperFunctions = condition) :
    (rowsOf condition).upperFunctions = rowsOf condition := by
  simp [rowsOf, Query.upperFunctions, Select.upperFunctions, upperFunctionsOfCtes,
    upperFunctionsOfList, upperFunctionsOf?, upperFunctionsOfSources?, upperFunctionsOfOrderings,
    Expr.star, Expr.upperFunctions, inner]

/-- A built condition is read by how tightly its operators bind. The text that is written for
PostgreSQL is read as the regrouped condition, and that is the condition itself, parentheses apart,
just where all operands are bound as the grammar asks for. The builder sees to that for all
operators but the one that joins texts and LIKE, unless an operator has one of its own strength on
the right, or NOT stands in front of an AND or OR or under anything else than these two. -/
theorem built_conditions_are_read_by_grip {condition : Expr} (built : condition.Built)
    (shallow : condition.regrouped.depth ≤ 47) :
    (∃ read, Query.ofText ((rowsOf condition).text .postgres) none = .ok read ∧
      read.equal (rowsOf condition.regrouped) = true) ∧
      (condition.regrouped.unnested = condition.unnested ↔ condition.Grouped) ∧
      (condition.Steady → condition.Grouped) := by
  have plain := built.plain
  have same := Expr.regroups_regrouped condition
  have regrouped := same.plain_iff.1 plain
  have alike : (rowsOf condition).text .postgres = (rowsOf condition.regrouped).text .duckDb := by
    rw [text_rowsOf Dialect.postgres_isGeneric Dialect.duckDb_isGeneric plain, Query.text,
      Query.text, tokens_rowsOf, tokens_rowsOf, same.tokens_eq rfl]
  refine ⟨?_, Expr.unnested_regrouped_iff plain, fun steady =>
    (Expr.bounded_of_steady steady).grouped⟩
  obtain ⟨read, done, equal⟩ := Query.ofText_text
    (readable_rowsOf regrouped (Expr.grouped_regrouped plain)) (unhyphenated_rowsOf regrouped)
    (by rw [depth_rowsOf]; omega)
  rw [upperFunctions_rowsOf (Expr.upperFunctions_of_plain _ regrouped)] at equal
  exact ⟨read, by rw [alike, done], equal⟩

/-- What is left of one column if what is left of another without a third is taken off it. -/
def restOfRest : Expr :=
  (Expr.col "a").combine .minus ((Expr.col "b").combine .minus (.col "c"))

/-- A difference on the right of a minus sign is read on the left. -/
theorem built_conditions_are_read_by_grip_restOfRest :
    (∃ read, Query.ofText "SELECT\n  *\nWHERE a - b - c" none = .ok read ∧
      read.equal (rowsOf (((Expr.col "a").combine .minus (.col "b")).combine .minus (.col "c"))) =
        true) ∧
      restOfRest.regrouped.unnested ≠ restOfRest.unnested := by
  have column (name : String) (free : ((Expr.col name).nameKeyword ∉ operandWords ∧
      (Expr.col name).nameKeyword ∉ ["ANY", "ALL", "SOME"]) ∧
        (Expr.col name).endsInArray = false) : (Expr.col name).Built := .column free
  have built : restOfRest.Built := .combine .minus (column "a" (by decide +kernel))
    (.combine .minus (column "b" (by decide +kernel)) (column "c" (by decide +kernel)))
  obtain ⟨read, apart, -⟩ := built_conditions_are_read_by_grip built (by decide)
  have written : (rowsOf restOfRest).text .postgres = "SELECT\n  *\nWHERE a - b - c" := by
    decide +kernel
  rw [written] at read
  exact ⟨read, fun same => Expr.not_grouped_of_right (by decide) (by decide) (apart.1 same)⟩

end Sql

end SemanticLayer
