import SemanticLayer.Proofs.Operands

/-!
# Reading operations

Behind its first operand an expression is read one operation after the other, each of them tighter
than what stands in front of the expression. Where an expression nests its operations as they bind,
every one of them is read back.
-/

namespace SemanticLayer.Sql

open Grammar (Lexeme Word Level Ahead Follows Closes Leaves Operates nextStrength startsWithMark)
open Grammar.Reader

/-! ## Steps -/

section

variable {level : Level} {strength grip loosest : Nat} {lexemes rest : List Lexeme}
variable {tree : Grammar.Expr} {told : Grammar.Expr → Prop}

theorem extended_of_looser (looser : nextStrength level.rules rest ≤ strength) (fuel : Nat)
    (tree : Grammar.Expr) : level.extended strength fuel tree rest = .ok (tree, rest) := by
  cases fuel with
  | zero => rfl
  | succ fuel => rw [Level.extended, bind_of_ok (get_apply _), if_pos looser, pure_apply]

theorem extended_of_extend {longer : Grammar.Expr} (binds : nextStrength level.rules lexemes = grip)
    (tighter : strength < grip) (extend : level.extend tree grip lexemes = .ok (longer, rest))
    (fuel : Nat) :
    level.extended strength (fuel + 1) tree lexemes = level.extended strength fuel longer rest := by
  rw [Level.extended, bind_of_ok (get_apply _), binds, if_neg (Nat.not_le.mpr tighter),
    bind_of_ok extend]

/-- Whether lexemes are read operation by operation in front of others: there are an operand and a
number of steps that lead from it to a tree with some property at the end of the lexemes, for
whatever looser than the given strength stands in front. -/
def Climbs (level : Level) (lexemes rest : List Lexeme) (loosest : Nat)
    (told : Grammar.Expr → Prop) : Prop :=
  ∃ first behind steps tree, level.operand (lexemes ++ rest) = .ok (first, behind) ∧
    steps + rest.length ≤ behind.length ∧ told tree ∧
      ∀ strength < loosest, ∀ fuel,
        level.extended strength (steps + fuel) first behind = level.extended strength fuel tree rest

/-- An operand is read without any step. -/
theorem climbs_operand (read : level.operand (lexemes ++ rest) = .ok (tree, rest))
    (tells : told tree) (loosest : Nat) : Climbs level lexemes rest loosest told :=
  ⟨tree, rest, 0, tree, read, by omega, tells, fun strength _ fuel => by rw [Nat.zero_add]⟩

/-- What is read operation by operation is read further over what extends it. -/
theorem Climbs.longer {tail : List Lexeme} {tells : Grammar.Expr → Prop}
    (climbs : Climbs level lexemes (tail ++ rest) loosest told) (some : tail ≠ [])
    (binds : nextStrength level.rules (tail ++ rest) = grip)
    (extend : ∀ tree, told tree →
      ∃ longer, level.extend tree grip (tail ++ rest) = .ok (longer, rest) ∧ tells longer) :
    Climbs level (lexemes ++ tail) rest (min loosest grip) tells := by
  obtain ⟨first, behind, steps, tree, read, enough, told, climbs⟩ := climbs
  obtain ⟨longer, extend, tells⟩ := extend tree told
  have nonempty := List.length_pos_of_ne_nil some
  refine ⟨first, behind, steps + 1, longer, by rw [List.append_assoc, read], ?_, tells,
    fun strength looser fuel => ?_⟩
  · rw [List.length_append] at enough
    omega
  · obtain ⟨looserLeft, looserGrip⟩ := Nat.lt_min.mp looser
    rw [Nat.add_assoc, climbs strength looserLeft, Nat.add_comm 1 fuel,
      extended_of_extend binds looserGrip extend]

/-- What is read operation by operation is read. -/
theorem Climbs.reads (climbs : Climbs level lexemes rest loosest told)
    (tighter : strength < loosest) (looser : nextStrength level.rules rest ≤ strength) :
    ∃ tree, level.subexpression strength (lexemes ++ rest) = .ok (tree, rest) ∧ told tree := by
  obtain ⟨first, behind, steps, tree, read, enough, tells, climbs⟩ := climbs
  obtain ⟨fuel, same⟩ : ∃ fuel, behind.length = steps + fuel :=
    ⟨behind.length - steps, by omega⟩
  refine ⟨tree, ?_, tells⟩
  rw [Level.subexpression, bind_of_ok read, bind_of_ok (get_apply _), same,
    climbs strength tighter, extended_of_looser looser]

end

/-- Whether an expression is read operation by operation in front of some lexemes. -/
def Expr.ClimbedBy (expr : Expr) (level : Level) (rest : List Lexeme) : Prop :=
  Climbs level expr.lexemes rest expr.loosest expr.ToldBy

/-- An expression is read further over what extends it. -/
theorem Expr.ClimbedBy.longer {level : Level} (rules : level.rules = .generic)
    {shorter expr : Expr} {grip : Nat} {tail rest : List Lexeme}
    (climbed : shorter.ClimbedBy level (tail ++ rest)) (some : tail ≠ [])
    (whole : expr.lexemes = shorter.lexemes ++ tail)
    (loosest : expr.loosest = min shorter.loosest grip)
    (binds : nextStrength .generic (tail ++ rest) = grip)
    (extend : ∀ tree, shorter.ToldBy tree →
      ∃ longer, level.extend tree grip (tail ++ rest) = .ok (longer, rest) ∧ expr.ToldBy longer) :
    expr.ClimbedBy level rest := by
  rw [ClimbedBy, whole, loosest]
  exact Climbs.longer climbed some (rules ▸ binds) extend

/-! ## Operators -/

theorem BinaryOp.nextStrength_lexemes (op : BinaryOp) (rest : List Lexeme) :
    nextStrength .generic (Tokens.lexemes .duckDb op.tokens ++ rest) = op.grip := by
  cases op <;> rfl

theorem nextStrength_negation (negated : Bool) {keyword : String} (tests : keyword ∈ ["IN", "BETWEEN"])
    (rest : List Lexeme) :
    nextStrength .generic (negationLexemes negated ++ .key keyword :: rest) = 20 := by
  simp only [List.mem_cons, List.not_mem_nil, or_false] at tests
  rcases tests with rfl | rfl <;> cases negated <;> rfl

/-- Behind an operand that a test can be made of stands the test. -/
theorem Expr.endsAt_negation {subject : Expr} (looser : 20 ≤ subject.trailing) (negated : Bool)
    {keyword : String} (tests : keyword ∈ ["IN", "BETWEEN"]) (rest : List Lexeme) :
    subject.EndsAt (negationLexemes negated ++ .key keyword :: rest) where
  follows := (operates_negation negated
    ((by decide : ["IN", "BETWEEN"] ⊆ Grammar.operatorWords) tests) rest).follows
  looser := by rwa [nextStrength_negation negated tests]
  untyped _ := by cases negated <;> rfl

/-- An operator but LIKE is one lexeme. -/
theorem BinaryOp.lexemes_eq {op : BinaryOp} (compares : op ≠ .like ∧ op ≠ .notLike) :
    ∃ lexeme operator, Tokens.lexemes .duckDb op.tokens = [lexeme] ∧
      (∀ rules, Grammar.Operator.ofLexeme? rules lexeme = some operator) ∧
        binaryOpOf operator = .ok op := by
  cases op with
  | like => exact absurd rfl compares.1
  | notLike => exact absurd rfl compares.2
  | _ => exact ⟨_, _, rfl, fun _ => rfl, rfl⟩

/-- What makes an expression longer does not make a type of its last name, unless it is smaller than
something. -/
theorem BinaryOp.startsWithMark_lexemes {op : BinaryOp} (other : op ≠ .lt) (rest : List Lexeme) :
    startsWithMark "<" (Tokens.lexemes .duckDb op.tokens ++ rest) = false := by
  cases op with
  | lt => exact absurd rfl other
  | _ => rfl

theorem oneOf?_of_frontKeyword {keywords : List String} {lexemes : List Lexeme}
    (others : Grammar.frontKeyword lexemes ∉ keywords) :
    oneOf? keywords lexemes = .ok (none, lexemes) := by
  have missing : keywords.find? (fun keyword => Grammar.startsWithKeywords [keyword] lexemes) =
      none := by
    rw [List.find?_eq_none]
    intro keyword found
    have other : Grammar.frontKeyword lexemes ≠ keyword := by
      rintro rfl
      exact others found
    simp [Grammar.startsWithKeywords_of_frontKeyword_ne [] other]
  rw [oneOf?, missing]

/-! ## What follows an operand -/

namespace ReadsBack

variable {level : Level} {depth : Nat} (reads : ReadsBack level depth)

include reads

/-- The right side of an operator is read back. -/
theorem right {left right : Expr} {op : BinaryOp} (readable : (Expr.binary left op right).Readable)
    (deep : (Expr.binary left op right).depth ≤ depth) {rest : List Lexeme}
    (ends : (Expr.binary left op right).EndsAt rest) :
    ∃ tree, level.expr op.grip (right.lexemes ++ rest) = .ok (tree, rest) ∧ right.ToldBy tree := by
  obtain ⟨looser, looserRight⟩ := Nat.le_min.mp ends.looser
  exact reads.expr right readable.2.2 readable.1.1.1.2 (Nat.max_le.mp deep).2 op.grip rest
    readable.1.1.2.2.1 looser ⟨ends.follows, looserRight, ends.untyped⟩

theorem extend_compared {left right : Expr} {op : BinaryOp} (compares : op ≠ .like ∧ op ≠ .notLike)
    (readable : (Expr.binary left op right).Readable)
    (deep : (Expr.binary left op right).depth ≤ depth) {rest : List Lexeme}
    (ends : (Expr.binary left op right).EndsAt rest) {tree : Grammar.Expr}
    (told : left.ToldBy tree) :
    ∃ longer, level.extend tree op.grip
        (Tokens.lexemes .duckDb op.tokens ++ right.lexemes ++ rest) = .ok (longer, rest) ∧
      (Expr.binary left op right).ToldBy longer := by
  obtain ⟨second, read, toldRight⟩ := reads.right readable deep ends
  obtain ⟨lexeme, operator, single, written, meant⟩ := BinaryOp.lexemes_eq compares
  have unquantified : Grammar.frontKeyword (right.lexemes ++ rest) ∉ ["ANY", "ALL", "SOME"] := by
    have unnamed : right.nameKeyword ∉ ["ANY", "ALL", "SOME"] := by
      rcases readable.1.1.2.2.2 with rfl | rfl | unnamed
      · exact absurd rfl compares.1
      · exact absurd rfl compares.2
      · exact unnamed
    rw [Expr.Readable.frontKeyword readable.2.2]
    exact Expr.Readable.headKeyword_not_mem readable.2.2 unnamed (by decide) (by decide)
  refine ⟨.binary tree operator second, ?_, Expr.toldBy_binary told toldRight meant⟩
  rw [single, List.singleton_append, List.cons_append, Level.extend, bind_of_ok (get_apply _),
    bind_of_ok (next_cons _ _), written]
  simp only []
  rw [bind_of_ok (oneOf?_of_frontKeyword unquantified)]
  exact map_of_ok read

omit reads in
/-- A test behind a keyword, which a NOT may stand in front of, is read behind both. -/
theorem extend_negatable (tree : Grammar.Expr) (strength : Nat) (negated : Bool)
    (rest : List Lexeme) :
    level.extend tree strength (negationLexemes negated ++ .key "LIKE" :: rest) =
        level.patternTest .like tree negated rest ∧
      level.extend tree strength (negationLexemes negated ++ .key "BETWEEN" :: rest) =
        level.betweenTest tree negated rest ∧
      level.extend tree strength (negationLexemes negated ++ .key "IN" :: rest) =
        level.inTest tree negated rest := by
  cases negated <;> exact ⟨rfl, rfl, rfl⟩

theorem extend_like {left right : Expr} {op : BinaryOp} (negated : Bool)
    (same : op = if negated then .notLike else .like)
    (readable : (Expr.binary left op right).Readable)
    (deep : (Expr.binary left op right).depth ≤ depth) {rest : List Lexeme}
    (ends : (Expr.binary left op right).EndsAt rest) {tree : Grammar.Expr}
    (told : left.ToldBy tree) :
    ∃ longer, level.extend tree op.grip
        (Tokens.lexemes .duckDb op.tokens ++ right.lexemes ++ rest) = .ok (longer, rest) ∧
      (Expr.binary left op right).ToldBy longer := by
  obtain ⟨second, read, toldRight⟩ := reads.right readable deep ends
  have likes : op = .like ∨ op = .notLike := by
    cases negated
    · exact .inl same
    · exact .inr same
  have whole : Tokens.lexemes .duckDb op.tokens = negationLexemes negated ++ [.key "LIKE"] := by
    rw [same]
    cases negated <;> rfl
  have noAny : right.headKeyword ≠ "ANY" :=
    Expr.Readable.headKeyword_ne readable.2.2 (readable.1.2.2 likes) (by decide) (by decide)
  have pattern : level.operandOf .like (right.lexemes ++ rest) = .ok (second, rest) := by
    have grip : op.grip = 19 := by rcases likes with rfl | rfl <;> rfl
    rw [Level.operandOf, reads.rules, ← read, grip]
    rfl
  refine ⟨.pattern .like negated false tree second none, ?_, ?_⟩
  · rw [whole, List.append_assoc, List.append_assoc, List.singleton_append,
      (extend_negatable tree op.grip negated _).1, Level.patternTest,
      if_pos (.inl rfl), bind_of_ok (Expr.Readable.keyword? readable.2.2 noAny rest)]
    beta_reduce
    rw [bind_of_ok pattern, if_neg (by decide), bind_of_ok (ends.follows.behind? _ (by decide))]
    rfl
  · rw [same]
    exact Expr.toldBy_like told toldRight negated

/-- An operator and its right side are read behind its left side. -/
theorem extend_binary {left right : Expr} {op : BinaryOp}
    (readable : (Expr.binary left op right).Readable)
    (deep : (Expr.binary left op right).depth ≤ depth) {rest : List Lexeme}
    (ends : (Expr.binary left op right).EndsAt rest) {tree : Grammar.Expr}
    (told : left.ToldBy tree) :
    ∃ longer, level.extend tree op.grip
        (Tokens.lexemes .duckDb op.tokens ++ right.lexemes ++ rest) = .ok (longer, rest) ∧
      (Expr.binary left op right).ToldBy longer := by
  by_cases like : op = .like
  · exact reads.extend_like false like readable deep ends told
  · by_cases notLike : op = .notLike
    · exact reads.extend_like true notLike readable deep ends told
    · exact reads.extend_compared ⟨like, notLike⟩ readable deep ends told

theorem extend_between {subject low high : Expr} {negated : Bool}
    (readable : (Expr.between subject low high negated).Readable)
    (deep : (Expr.between subject low high negated).depth ≤ depth) {rest : List Lexeme}
    (ends : (Expr.between subject low high negated).EndsAt rest) {tree : Grammar.Expr}
    (told : subject.ToldBy tree) (strength : Nat) :
    ∃ longer, level.extend tree strength
        (negationLexemes negated ++ .key "BETWEEN" ::
          (low.lexemes ++ .key "AND" :: high.lexemes) ++ rest) = .ok (longer, rest) ∧
      (Expr.between subject low high negated).ToldBy longer := by
  obtain ⟨⟨⟨⟨-, operandLow, operandHigh⟩, -, ⟨tighterLow, looserLow⟩, tighterHigh⟩, -⟩, -,
    readableLow, readableHigh⟩ := readable
  obtain ⟨-, deep⟩ := Nat.max_le.mp deep
  obtain ⟨deepLow, deepHigh⟩ := Nat.max_le.mp deep
  obtain ⟨looser, looserHigh⟩ := Nat.le_min.mp ends.looser
  have conjoins : nextStrength .generic (.key "AND" :: (high.lexemes ++ rest)) = 10 := rfl
  obtain ⟨second, readLow, toldLow⟩ :=
    reads.expr low readableLow operandLow deepLow 20 (.key "AND" :: (high.lexemes ++ rest))
      tighterLow (by omega) ⟨Ahead.key _ (by decide), by omega, fun _ => rfl⟩
  obtain ⟨third, readHigh, toldHigh⟩ :=
    reads.expr high readableHigh operandHigh deepHigh 20 rest tighterHigh looser
      ⟨ends.follows, looserHigh, ends.untyped⟩
  have operandOf (lexemes : List Lexeme) :
      level.operandOf .between lexemes = level.expr 20 lexemes := by
    rw [Level.operandOf, reads.rules]
    rfl
  refine ⟨.between tree second third negated, ?_, Expr.toldBy_between told toldLow toldHigh negated⟩
  rw [List.append_assoc, List.cons_append, List.append_assoc, List.cons_append,
    (extend_negatable tree strength negated _).2.1, Level.betweenTest,
    bind_of_ok ((operandOf _).trans readLow), bind_of_ok (expectKeyword_key "AND" _),
    bind_of_ok ((operandOf _).trans readHigh)]
  rfl

omit reads in
theorem extend_isNull {subject : Expr} {negated : Bool} (rest : List Lexeme)
    {tree : Grammar.Expr} (told : subject.ToldBy tree) (strength : Nat) :
    ∃ longer, level.extend tree strength
        (.key "IS" :: (negationLexemes negated ++ [.key "NULL"]) ++ rest) = .ok (longer, rest) ∧
      (Expr.isNull subject negated).ToldBy longer := by
  refine ⟨_, ?_, Expr.toldBy_isNull told negated⟩
  cases negated <;> rfl

theorem extend_inList {subject : Expr} {items : List Expr} {negated : Bool}
    (readable : (Expr.inList subject items negated).Readable)
    (deep : (Expr.inList subject items negated).depth ≤ depth) (rest : List Lexeme)
    {tree : Grammar.Expr} (told : subject.ToldBy tree) (strength : Nat) :
    ∃ longer, level.extend tree strength
        (negationLexemes negated ++ .key "IN" :: .mark "(" ::
          (commaJoined (items.map Expr.lexemes) ++ [.mark ")"]) ++ rest) = .ok (longer, rest) ∧
      (Expr.inList subject items negated).ToldBy longer := by
  obtain ⟨⟨⟨⟨-, operands⟩, -, some⟩, -⟩, -, readableItems⟩ := readable
  obtain ⟨-, deep⟩ := Nat.max_le.mp deep
  have leaves : Leaves (.mark ")" :: rest) := Ahead.mark rest (by decide)
  obtain ⟨trees, read, toldItems⟩ := reads.expressions some (fun item found =>
    ⟨readable_of_everyExprs readableItems item found, operands item found,
      Nat.lt_of_lt_of_le (depth_lt_depthBelow item found) deep⟩) leaves
  refine ⟨.inList tree trees negated, ?_, Expr.toldBy_inList told toldItems negated⟩
  have noQuery : Grammar.startsQuery (commaJoined (items.map Expr.lexemes) ++ .mark ")" :: rest) =
      false := by
    obtain ⟨first, others, rfl⟩ := List.exists_cons_of_ne_nil some
    rw [List.map_cons, commaJoined_cons, List.append_assoc]
    exact Expr.Readable.startsQuery readableItems.1 _
  rw [List.append_assoc, List.cons_append, List.cons_append, List.append_assoc,
    List.singleton_append, (extend_negatable tree strength negated _).2.2, Level.inTest, reads.rules]
  have noUnnest : keyword? "UNNEST" (.mark "(" :: (commaJoined (items.map Expr.lexemes) ++
      .mark ")" :: rest)) = .ok (false, _) := rfl
  rw [bind_of_ok noUnnest, if_neg Bool.false_ne_true, bind_of_ok (expectMark_mark "(" _),
    bind_of_ok (ahead_apply _ _), noQuery, if_neg Bool.false_ne_true, if_neg (by decide),
    bind_of_ok (pure_apply _ _)]
  beta_reduce
  rw [if_neg Bool.false_ne_true, bind_of_ok read, bind_of_ok (expectMark_mark ")" _)]
  rfl

/-! ## Expressions -/

/-- Every expression that nests as it is read is read operation by operation. -/
theorem climbedBy : (expr : Expr) → expr.Readable → expr.isOperand = true → expr.depth ≤ depth →
    ∀ rest, expr.EndsAt rest → expr.ClimbedBy level rest
  | .binary left op right, readable, _, deep, rest, ends => by
      have ⟨⟨⟨⟨isOperand, _⟩, looser, _⟩, typed, _⟩, readableLeft, _⟩ := readable
      have binds := op.nextStrength_lexemes (right.lexemes ++ rest)
      rw [← List.append_assoc] at binds
      have leftEnds : left.EndsAt (Tokens.lexemes .duckDb op.tokens ++ right.lexemes ++ rest) := by
        refine ⟨?_, binds ▸ looser, fun array => ?_⟩
        · rw [List.append_assoc]
          exact (op.operates _).follows
        · rw [List.append_assoc]
          refine BinaryOp.startsWithMark_lexemes (fun same => ?_) _
          exact Bool.false_ne_true ((typed same).symm.trans array)
      have climbed := climbedBy left readableLeft isOperand (Nat.max_le.mp deep).1 _ leftEnds
      refine climbed.longer reads.rules ?_ (Expr.lexemes_binary left right op) rfl binds
        fun tree told => ?_
      · cases op <;> exact List.cons_ne_nil _ _
      · exact reads.extend_binary readable deep ends told
  | .between subject low high negated, readable, _, deep, rest, ends => by
      have ⟨⟨⟨⟨isOperand, _⟩, looser, _⟩, _⟩, readableSubject, _⟩ := readable
      have subjectEnds := subject.endsAt_negation looser negated (by decide : "BETWEEN" ∈ _)
        (low.lexemes ++ .key "AND" :: high.lexemes ++ rest)
      rw [← List.cons_append, ← List.append_assoc] at subjectEnds
      have climbed := climbedBy subject readableSubject isOperand (Nat.max_le.mp deep).1 _ subjectEnds
      refine climbed.longer reads.rules (by simp) (Expr.lexemes_between ..) rfl ?_
        fun tree told => reads.extend_between readable deep ends told _
      rw [List.append_assoc]
      exact nextStrength_negation negated (by decide) _
  | .inList subject items negated, readable, _, deep, rest, ends => by
      have ⟨⟨⟨⟨isOperand, _⟩, looser, filled⟩, _⟩, readableSubject, _⟩ := readable
      have subjectEnds := subject.endsAt_negation looser negated (by decide : "IN" ∈ _)
        (.mark "(" :: (commaJoined (items.map Expr.lexemes) ++ [.mark ")"]) ++ rest)
      rw [← List.cons_append, ← List.append_assoc] at subjectEnds
      have climbed := climbedBy subject readableSubject isOperand (Nat.max_le.mp deep).1 _ subjectEnds
      refine climbed.longer reads.rules (by simp) (Expr.lexemes_inList filled ..) rfl ?_
        fun tree told => reads.extend_inList readable deep rest told _
      rw [List.append_assoc]
      exact nextStrength_negation negated (by decide) _
  | .isNull subject negated, readable, _, deep, rest, ends => by
      have ⟨⟨⟨isOperand, looser⟩, _⟩, readableSubject⟩ := readable
      have subjectEnds : subject.EndsAt
          (.key "IS" :: (negationLexemes negated ++ [.key "NULL"]) ++ rest) :=
        ⟨Ahead.key _ (by decide), looser, fun _ => rfl⟩
      have climbed := climbedBy subject readableSubject isOperand deep _ subjectEnds
      exact climbed.longer reads.rules (by simp) (Expr.lexemes_isNull subject negated) rfl rfl
        fun tree told => extend_isNull rest told _
  | .column _, readable, operand, deep, rest, ends | .literal _, readable, operand, deep, rest, ends
  | .unary _ _, readable, operand, deep, rest, ends | .call _ _ _ _, readable, operand, deep, rest, ends
  | .case _ _ _ _, readable, operand, deep, rest, ends | .nested _, readable, operand, deep, rest, ends
  | .subquery _, readable, operand, deep, rest, ends => by
      obtain ⟨tree, read, told⟩ := reads.operand readable rfl operand deep ends
      exact climbs_operand read told _

/-- Every expression that nests as it is read is read back. -/
theorem subexpression {expr : Expr} (readable : expr.Readable) (operand : expr.isOperand = true)
    (deep : expr.depth ≤ depth) : expr.ReadBy level.subexpression :=
  fun _ rest tighter looser ends =>
    Climbs.reads (reads.climbedBy expr readable operand deep rest ends) tighter
      (reads.rules ▸ looser)

/-- A number is read where nothing binds to it. -/
theorem subexpression_number (text : String) {rest : List Lexeme} (closes : Closes rest) :
    level.subexpression 0 (.number text :: rest) = .ok (.value (.number text), rest) := by
  have plain : level.plainOperand (.number text :: rest) = .ok (.value (.number text), rest) := rfl
  have read := operand_of_plainOperand (Expr.typedLiteral?_of_plain rfl) plain closes.follows
  have looser : nextStrength level.rules rest ≤ 0 := by rw [reads.rules, closes.nextStrength]
  rw [Level.subexpression, bind_of_ok read, bind_of_ok (get_apply _), extended_of_looser looser]

end ReadsBack
end SemanticLayer.Sql
