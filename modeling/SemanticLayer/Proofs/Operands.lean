import SemanticLayer.Proofs.Calls

/-!
# Reading operands

The operand in front of an expression is read back: a literal, a name, a call, a CASE, or what
stands behind a sign, a NOT or a parenthesis.
-/

namespace SemanticLayer.Sql

open Grammar (Lexeme Word Level Ahead Follows Closes Leaves nextStrength startsWithMark)
open Grammar.Reader

/-! ## Parts of expressions -/

theorem depth_lt_depthBelow {exprs : List Expr} :
    ∀ expr ∈ exprs, expr.depth < depthBelow exprs := by
  induction exprs with
  | nil => simp
  | cons first rest ih =>
      intro expr found
      rw [depthBelow]
      rcases List.mem_cons.mp found with rfl | found
      · omega
      · have below := ih expr found
        omega

theorem readable_of_everyExpr? {expr : Option Expr}
    (all : everyExpr? (fun part => part.HasShape ∧ part.IsLegible)
      (fun query => query.select.HasShape ∧ query.IsLegible) expr) :
    ∀ part ∈ expr, part.Readable := by
  rintro part ⟨⟩
  exact all

theorem depth_lt_depthBelow? {expr : Option Expr} :
    ∀ part ∈ expr, part.depth < depthBelow? expr := by
  rintro part ⟨⟩
  exact Nat.lt_succ_self _

namespace Expr

/-- No name in front of an expression is written as a word that starts an operand of its own. -/
theorem Readable.nameKeyword_not_mem {expr : Expr} (readable : expr.Readable)
    (operand : expr.isOperand = true) : expr.nameKeyword ∉ operandWords := by
  have unnamed : "" ∉ operandWords := by decide
  induction expr, readable using front_induction with
  | longer expr shorter tail _ _ front _ _ isOperand ih =>
      rw [nameKeyword, front]
      exact ih isOperand
  | operand expr readable front =>
      cases expr with
      | column found => exact readable.1
      | call name path args distinct => exact readable.1.1.2.2.2
      | wildcard path => cases operand
      | literal value => exact unnamed
      | unary op operand => exact unnamed
      | case operand conditions results otherwise => exact unnamed
      | nested inner => exact unnamed
      | subquery query => exact unnamed
      | _ => cases front

/-- What stands behind a sign or a NOT stands behind the operand. -/
theorem EndsAt.operand {op : UnaryOp} {operand : Expr} {rest : List Lexeme}
    (ends : (Expr.unary op operand).EndsAt rest) :
    nextStrength .generic rest ≤ op.grip ∧ operand.EndsAt rest := by
  have looser := Nat.le_min.mp ends.looser
  exact ⟨looser.1, ends.follows, looser.2, ends.untyped⟩

end Expr

namespace ReadsBack

variable {level : Level} {depth : Nat} (reads : ReadsBack level depth)

include reads

/-! ## Branches -/

omit reads in
theorem length_le_branchLexemes {conditions results : List Expr}
    (paired : conditions.length = results.length) :
    conditions.length ≤ (branchLexemes conditions results).length := by
  induction conditions generalizing results with
  | nil => exact Nat.zero_le _
  | cons condition conditions ih =>
      obtain ⟨result, results, rfl⟩ : ∃ result others, results = result :: others :=
        List.exists_cons_of_length_eq_add_one paired.symm
      have fewer := ih (Nat.succ.inj paired)
      simp only [branchLexemes, List.length_append, List.length_cons]
      omega

/-- The branches of a CASE are read back up to its ELSE or END. -/
theorem branches {rest : List Lexeme} (stands : Ahead [] ["ELSE", "END"] rest)
    {condition result : Expr} {conditions results : List Expr}
    (paired : conditions.length = results.length)
    (each : ∀ expr ∈ (condition :: conditions) ++ (result :: results),
      expr.Readable ∧ expr.isOperand = true ∧ expr.depth < depth)
    (fuel : Nat) (enough : conditions.length < fuel) :
    ∃ pairs, level.branches fuel (condition.lexemes ++ .key "THEN" ::
          (result.lexemes ++ (branchLexemes conditions results ++ rest))) = .ok (pairs, rest) ∧
      List.Forall₂ Expr.ToldBy (condition :: conditions) (pairs.map Prod.fst) ∧
      List.Forall₂ Expr.ToldBy (result :: results) (pairs.map Prod.snd) := by
  induction conditions generalizing condition result results fuel with
  | nil =>
      obtain ⟨fuel, rfl⟩ : ∃ less, fuel = less + 1 := Nat.exists_eq_add_one.mpr enough
      obtain rfl : results = [] := List.eq_nil_of_length_eq_zero paired.symm
      obtain ⟨readable, operand, deep⟩ := each condition (by simp)
      obtain ⟨first, readFirst, toldFirst⟩ :=
        reads.expression_key readable operand deep (by decide : "THEN" ∈ Grammar.closingWords)
          (result.lexemes ++ rest)
      obtain ⟨readable, operand, deep⟩ := each result (by simp)
      obtain ⟨second, readSecond, toldSecond⟩ :=
        reads.expression readable operand deep (stands.mono (by simp) (by decide) : Closes rest)
      refine ⟨[(first, second)], ?_, .cons toldFirst .nil, .cons toldSecond .nil⟩
      rw [Level.branches, branchLexemes, List.nil_append, bind_of_ok readFirst,
        bind_of_ok (expectKeyword_key "THEN" _), bind_of_ok readSecond,
        bind_of_ok (stands.keyword? (by decide))]
      · rfl
      · simp
  | cons next conditions ih =>
      obtain ⟨fuel, rfl⟩ : ∃ less, fuel = less + 1 := ⟨fuel - 1, by omega⟩
      obtain ⟨other, results, rfl⟩ : ∃ other others, results = other :: others :=
        List.exists_cons_of_length_eq_add_one paired.symm
      obtain ⟨pairs, further, toldConditions, toldResults⟩ :=
        @ih next other results (Nat.succ.inj paired) (fun expr found => each expr (by
          simp only [List.mem_append, List.mem_cons] at found ⊢
          tauto)) fuel (Nat.lt_of_succ_lt_succ enough)
      have whole : branchLexemes (next :: conditions) (other :: results) ++ rest =
          .key "WHEN" :: (next.lexemes ++ .key "THEN" :: (other.lexemes ++
            (branchLexemes conditions results ++ rest))) := by
        simp [branchLexemes]
      rw [whole]
      obtain ⟨readable, operand, deep⟩ := each condition (by simp)
      obtain ⟨first, readFirst, toldFirst⟩ :=
        reads.expression_key readable operand deep (by decide : "THEN" ∈ Grammar.closingWords) _
      obtain ⟨readable, operand, deep⟩ := each result (by simp)
      obtain ⟨second, readSecond, toldSecond⟩ :=
        reads.expression_key readable operand deep (by decide : "WHEN" ∈ Grammar.closingWords) _
      refine ⟨(first, second) :: pairs, ?_, .cons toldFirst toldConditions,
        .cons toldSecond toldResults⟩
      rw [Level.branches, bind_of_ok readFirst, bind_of_ok (expectKeyword_key "THEN" _),
        bind_of_ok readSecond, bind_of_ok (keyword?_key "WHEN" _), if_pos rfl, bind_of_ok further]
      rfl

/-- A CASE is read back behind its keyword. -/
theorem caseOf {operand otherwise : Option Expr} {conditions results : List Expr}
    (readable : (Expr.case operand conditions results otherwise).Readable)
    (deep : (Expr.case operand conditions results otherwise).depth ≤ depth) (rest : List Lexeme) :
    ∃ tree, level.caseOf (operand.elim [] Expr.lexemes ++ (branchLexemes conditions results ++
          (otherwise.elim [] (fun expr => .key "ELSE" :: expr.lexemes) ++ .key "END" :: rest))) =
        .ok (tree, rest) ∧ (Expr.case operand conditions results otherwise).ToldBy tree := by
  obtain ⟨⟨⟨operands, paired, some⟩, -⟩, readableFirst, readableConditions, readableResults,
    readableLast⟩ := readable
  simp only [Expr.depth, Nat.max_le] at deep
  obtain ⟨⟨deepFirst, deepConditions⟩, deepResults, deepLast⟩ := deep
  obtain ⟨condition, conditions, rfl⟩ := List.exists_cons_of_ne_nil some
  obtain ⟨result, results, rfl⟩ : ∃ result others, results = result :: others :=
    List.exists_cons_of_length_eq_add_one paired.symm
  have each : ∀ expr ∈ (condition :: conditions) ++ (result :: results),
      expr.Readable ∧ expr.isOperand = true ∧ expr.depth < depth := by
    intro expr found
    refine ⟨?_, operands expr (by simp only [List.mem_append] at found ⊢; tauto), ?_⟩
    · rcases List.mem_append.mp found with found | found
      · exact readable_of_everyExprs readableConditions expr found
      · exact readable_of_everyExprs readableResults expr found
    · rcases List.mem_append.mp found with found | found
      · exact Nat.lt_of_lt_of_le (depth_lt_depthBelow expr found) deepConditions
      · exact Nat.lt_of_lt_of_le (depth_lt_depthBelow expr found) deepResults
  have eachFirst : ∀ part ∈ operand,
      part.Readable ∧ part.isOperand = true ∧ part.depth < depth := by
    rintro part ⟨⟩
    exact ⟨readableFirst, operands part (by simp), deepFirst⟩
  have eachLast : ∀ part ∈ otherwise,
      part.Readable ∧ part.isOperand = true ∧ part.depth < depth := by
    rintro part ⟨⟩
    exact ⟨readableLast, operands part (by simp), deepLast⟩
  have ends : Closes (.key "END" :: rest) := Ahead.key rest (by decide)
  obtain ⟨last, readLast, toldLast⟩ := reads.behind eachLast "ELSE" ends rfl
  have stands : Ahead [] ["ELSE", "END"]
      (otherwise.elim [] (fun expr => .key "ELSE" :: expr.lexemes) ++ .key "END" :: rest) := by
    cases otherwise with
    | none => exact Ahead.key rest (by decide)
    | some expr => exact Ahead.key _ (by decide)
  revert stands readLast
  generalize otherwise.elim [] (fun expr => .key "ELSE" :: expr.lexemes) ++ .key "END" :: rest =
    behind
  intro readLast stands
  have whole : branchLexemes (condition :: conditions) (result :: results) ++ behind =
      .key "WHEN" :: (condition.lexemes ++ .key "THEN" ::
        (result.lexemes ++ (branchLexemes conditions results ++ behind))) := by
    simp [branchLexemes]
  have few : conditions.length ≤ (branchLexemes conditions results).length :=
    length_le_branchLexemes (Nat.succ.inj paired)
  have enough : conditions.length < (condition.lexemes ++ .key "THEN" ::
      (result.lexemes ++ (branchLexemes conditions results ++ behind))).length := by
    simp only [List.length_append, List.length_cons]
    omega
  obtain ⟨pairs, readPairs, toldConditions, toldResults⟩ :=
    reads.branches stands (Nat.succ.inj paired) each _ enough
  rw [whole]
  cases operand with
  | none =>
      refine ⟨_, ?_, Expr.toldBy_case toldBy?_none toldConditions toldResults toldLast⟩
      rw [Level.caseOf, Option.elim_none, List.nil_append, bind_of_ok (keyword?_key "WHEN" _),
        if_pos rfl, pure_bind]
      beta_reduce
      rw [bind_of_ok (get_apply _), bind_of_ok readPairs, bind_of_ok readLast,
        bind_of_ok (expectKeyword_key "END" _)]
      rfl
  | some part =>
      obtain ⟨readable, isOperand, deep⟩ := eachFirst part rfl
      obtain ⟨tree, read, told⟩ := reads.expression_key readable isOperand deep
        (by decide : "WHEN" ∈ Grammar.closingWords) (condition.lexemes ++ .key "THEN" ::
          (result.lexemes ++ (branchLexemes conditions results ++ behind)))
      have other := readable.headKeyword_ne_of_reserved
        (by decide : "WHEN" ∈ callWords) (by decide) (by decide)
      refine ⟨_, ?_, Expr.toldBy_case (toldBy?_some told) toldConditions toldResults toldLast⟩
      rw [Level.caseOf, Option.elim_some, bind_of_ok (readable.keyword? other _),
        if_neg Bool.false_ne_true, bind_of_ok read, bind_of_ok (expectKeyword_key "WHEN" _),
        pure_bind]
      beta_reduce
      rw [bind_of_ok (get_apply _), bind_of_ok readPairs, bind_of_ok readLast,
        bind_of_ok (expectKeyword_key "END" _)]
      rfl

/-! ## Names and calls -/

omit reads in
theorem objectNameOf_written (first : Name) (more : Path) (word : Word) :
    Grammar.Reader.objectNameOf false (nameOf first.written)
        ((more.map Name.written ++ [word]).map nameOf) =
      ⟨(first :: more).map Name.reread, nameOf word⟩ := by
  refine objectNameOf_concat ?_
  rw [List.map_append, map_nameOf_written]
  rfl

omit reads in
theorem unopened_dots {words : List Word} {rest : List Lexeme}
    (behind : ∀ text ∈ ["(", "[", "\x7b"], startsWithMark text rest = false) :
    ∀ text ∈ ["(", "[", "\x7b"], startsWithMark text (Level.dots words ++ rest) = false := by
  intro text found
  refine Level.startsWithMark_dots ?_ words (behind text found)
  rintro rfl
  exact absurd found (by decide)

omit reads in
/-- A dotted name is read as a column, unless its first word starts an operand of its own. -/
theorem plainOperand_dotted {first : Word} (words : List Word)
    (free : first.keyword ∉ operandWords) {rest : List Lexeme} (follows : Follows rest) :
    level.plainOperand (.word first :: (Level.dots words ++ rest)) =
      .ok (columnTree (nameOf first) (words.map nameOf), rest) := by
  rw [Level.plainOperand, bind_of_ok (get_apply _), bind_of_ok (next_cons _ _)]
  refine Level.worded_of_free free (unopened_dots fun text found => ?_)
    (Level.named_column follows)
  exact follows.startsWithMark ((by decide : ∀ text ∈ ["(", "[", "\x7b"],
    text ∉ Grammar.followMarks) text found)

omit reads in
/-- An operand that no type introduces is read where no collation stands behind it. -/
theorem operand_of_plainOperand {lexemes rest : List Lexeme} {tree : Grammar.Expr}
    (untyped : level.typedLiteral? lexemes = .ok (none, lexemes))
    (read : level.plainOperand lexemes = .ok (tree, rest)) (follows : Follows rest) :
    level.operand lexemes = .ok (tree, rest) := by
  rw [Level.operand, bind_of_ok untyped]
  simp only []
  rw [bind_of_ok read, bind_of_ok (follows.keyword? (by decide))]
  rfl

omit reads in
theorem column {found : Column} (readable : (Expr.column found).Readable)
    {rest : List Lexeme} (follows : Follows rest) :
    ∃ tree, level.plainOperand ((Expr.column found).lexemes ++ rest) = .ok (tree, rest) ∧
      (Expr.column found).ToldBy tree := by
  have free : Path.keyword (found.qualifier ++ [found.name]) ∉ operandWords := readable.1
  obtain ⟨first, more, parts⟩ : ∃ first more, found.qualifier ++ [found.name] = first :: more :=
    List.exists_cons_of_ne_nil (by simp)
  rw [parts] at free
  refine ⟨_, ?_, Expr.toldBy_column (by rw [parts, List.map_cons])⟩
  rw [Expr.lexemes_column, parts, Path.dottedLexemes_cons, List.cons_append, ← map_nameOf_written]
  exact plainOperand_dotted _ free follows

theorem called {name : Name} {path : Option Path} {args : List Expr} {distinct : Bool}
    (readable : (Expr.call name path args distinct).Readable)
    (deep : (Expr.call name path args distinct).depth ≤ depth) {rest : List Lexeme}
    (follows : Follows rest) :
    ∃ tree, level.plainOperand ((Expr.call name path args distinct).lexemes ++ rest) =
        .ok (tree, rest) ∧ (Expr.call name path args distinct).ToldBy tree := by
  obtain ⟨⟨⟨shapes, some, inPath, free⟩, kept, -, unlisted⟩, inner⟩ := readable
  have each : ∀ arg ∈ args, arg.Readable ∧
      (arg.isOperand = true ∨ ∃ star, arg = .wildcard star) ∧ arg.depth < depth := fun arg found =>
    ⟨readable_of_everyExprs inner arg found, shapes arg found,
      Nat.lt_of_lt_of_le (depth_lt_depthBelow arg found) deep⟩
  obtain ⟨trees, read, told⟩ := reads.arguments each some rest
  have spelled := Expr.functionText_of_kept kept
  obtain ⟨word, written⟩ : ∃ word, word = Word.plain (Dialect.duckDb.functionText name.value) :=
    ⟨_, rfl⟩
  have given : (nameOf word).value = Text.upper name.value := by rw [written, ← spelled]; rfl
  rcases path with - | - | ⟨first, more⟩
  · refine ⟨_, ?_, Expr.toldBy_call inPath given told⟩
    have free : word.keyword ∉ callWords := by
      rw [written, spelled]
      exact unlisted rfl
    have call := reads.call read ⟨[], nameOf word⟩ follows
    have whole : (Expr.call name none args distinct).lexemes ++ rest =
        .word word :: .mark "(" :: ((if distinct then [.key "DISTINCT"] else []) ++
          commaJoined (args.map Expr.lexemes) ++ .mark ")" :: rest) := by
      simp [Expr.lexemes_call, written]
    rw [whole, Level.plainOperand, bind_of_ok (get_apply _), bind_of_ok (next_cons _ _)]
    exact Level.worded_call reads.rules free read call
  · exact absurd rfl inPath
  · refine ⟨_, ?_, Expr.toldBy_call inPath given told⟩
    have call := reads.call read ⟨(first :: more).map Name.reread, nameOf word⟩ follows
    rw [← objectNameOf_written, ← Level.named_call] at call
    rw [lexemes_call_cons, ← written, Level.plainOperand, bind_of_ok (get_apply _), bind_of_ok (next_cons _ _),
      Option.getD_some, ← objectNameOf_written]
    refine Level.worded_of_free free (fun text found => ?_) call
    have dotted : text ≠ "." := by
      rintro rfl
      exact absurd found (by decide)
    cases more with
    | nil => exact beq_eq_false_iff_ne.mpr dotted.symm
    | cons next others => exact beq_eq_false_iff_ne.mpr dotted.symm

/-! ## Literals -/

omit reads in
theorem literalOf_int {value : Int64} (positive : 0 ≤ value.toInt) :
    literalOf (.number (Number.intText value.toInt)) = .ok (.int value) := by
  obtain ⟨n, same⟩ := Int.eq_ofNat_of_zero_le positive
  have small : (n : Int) ≤ Number.maxSigned := by
    rw [← same]
    exact Int.le_of_lt_add_one (Int64.toInt_lt value)
  have read : Number.int64? (Number.natText n) = some value := by
    rw [Number.int64?_natText small, ← same, Int64.ofInt_toInt]
  have text : Number.intText (n : Int) = String.ofList (Number.natText n) := rfl
  rw [same, literalOf, numberOf, text, String.toList_ofList, read]

theorem literal {value : Literal} (readable : (Expr.literal value).Readable) (rest : List Lexeme) :
    ∃ tree, level.plainOperand ((Expr.literal value).lexemes ++ rest) = .ok (tree, rest) ∧
      (Expr.literal value).ToldBy tree := by
  have worded {word : Word} {special : Grammar.Expr}
      (found : level.reserved? word rest = some (pure special)) :
      level.plainOperand (.word word :: rest) = .ok (special, rest) := by
    rw [Level.plainOperand, bind_of_ok (get_apply _), bind_of_ok (next_cons _ _)]
    exact Level.worded_of_reads found rfl
  rcases value with value | value | text | (_ | _) | _
  · have same : (Literal.int value == .int value) = true := beq_self_eq_true value
    exact ⟨_, rfl, Expr.toldBy_literal (literalOf_int readable.1) same⟩
  · obtain ⟨-, -, -, other, read, same⟩ := readable
    exact ⟨_, rfl, Expr.toldBy_literal read same⟩
  · have same : (Literal.string text == .string text) = true := beq_self_eq_true text
    exact ⟨_, rfl, Expr.toldBy_literal rfl same⟩
  · have found : level.reserved? (Word.plain "false") rest = some (pure (.value (.boolean false))) := by
      rw [Level.reserved?, reads.rules]
      rfl
    exact ⟨_, worded found, Expr.toldBy_literal rfl rfl⟩
  · have found : level.reserved? (Word.plain "true") rest = some (pure (.value (.boolean true))) := by
      rw [Level.reserved?, reads.rules]
      rfl
    exact ⟨_, worded found, Expr.toldBy_literal rfl rfl⟩
  · exact ⟨_, @worded (Word.plain "NULL") _ rfl, Expr.toldBy_literal rfl rfl⟩

/-! ## Signs, NOT and parentheses -/

theorem unary {op : UnaryOp} {operand : Expr} (readable : (Expr.unary op operand).Readable)
    (deep : (Expr.unary op operand).depth ≤ depth) {rest : List Lexeme}
    (ends : (Expr.unary op operand).EndsAt rest) :
    ∃ tree, level.plainOperand ((Expr.unary op operand).lexemes ++ rest) = .ok (tree, rest) ∧
      (Expr.unary op operand).ToldBy tree := by
  obtain ⟨⟨⟨isOperand, tighter⟩, -⟩, inner⟩ := readable
  obtain ⟨looser, ends⟩ := ends.operand
  obtain ⟨tree, read, told⟩ :=
    reads.expr operand inner isOperand deep op.grip rest tighter looser ends
  rw [Expr.lexemes_unary, List.append_assoc]
  cases op with
  | minus =>
      refine ⟨.unary .minus tree, ?_, Expr.toldBy_unary told rfl⟩
      have behind : level.operandOf .product (operand.lexemes ++ rest) = .ok (tree, rest) := by
        rw [Level.operandOf, reads.rules]
        exact read
      exact map_of_ok behind
  | plus =>
      refine ⟨.unary .plus tree, ?_, Expr.toldBy_unary told rfl⟩
      have behind : level.operandOf .product (operand.lexemes ++ rest) = .ok (tree, rest) := by
        rw [Level.operandOf, reads.rules]
        exact read
      exact map_of_ok behind
  | not =>
      refine ⟨.unary .not tree, ?_, Expr.toldBy_unary told rfl⟩
      have behind : level.operandOf .not (operand.lexemes ++ rest) = .ok (tree, rest) := by
        rw [Level.operandOf, reads.rules]
        exact read
      have noExists : operand.headKeyword ≠ "EXISTS" := by
        refine Expr.Readable.headKeyword_ne inner (fun same => ?_) (by decide) (by decide)
        exact Expr.Readable.nameKeyword_not_mem inner isOperand (same ▸ by decide)
      have negated : level.notOf (operand.lexemes ++ rest) = .ok (.unary .not tree, rest) := by
        rw [Level.notOf, bind_of_ok (Expr.Readable.keyword? inner noExists rest),
          if_neg Bool.false_ne_true]
        exact map_of_ok behind
      exact @Level.worded_of_reads level ⟨"NOT", none, "NOT"⟩ _ _ _ rfl negated

theorem nested {inner : Expr} (readable : (Expr.nested inner).Readable)
    (deep : (Expr.nested inner).depth ≤ depth) {rest : List Lexeme} (follows : Follows rest) :
    ∃ tree, level.plainOperand ((Expr.nested inner).lexemes ++ rest) = .ok (tree, rest) ∧
      (Expr.nested inner).ToldBy tree := by
  obtain ⟨⟨isOperand, -⟩, (readable : inner.Readable)⟩ := readable
  have leaves : Leaves (.mark ")" :: rest) := Ahead.mark rest (by decide)
  obtain ⟨trees, read, told⟩ := reads.expressions (List.cons_ne_nil inner [])
    (fun expr found => by
      obtain rfl := List.mem_singleton.mp found
      exact ⟨readable, isOperand, deep⟩) leaves
  obtain ⟨tree, rfl⟩ : ∃ tree, trees = [tree] := by
    cases told with
    | cons told others =>
        cases others
        exact ⟨_, rfl⟩
  rw [List.map_singleton, commaJoined] at read
  refine ⟨.nested tree, ?_, Expr.toldBy_nested (List.forall₂_cons.mp told).1⟩
  rw [Expr.lexemes_nested, List.cons_append, List.append_assoc, List.singleton_append,
    Level.plainOperand, bind_of_ok (get_apply _), bind_of_ok (next_cons _ _)]
  have opened : level.inParentheses (inner.lexemes ++ .mark ")" :: rest) =
      .ok (.nested tree, rest) := by
    rw [Level.inParentheses, bind_of_ok (ahead_apply _ _), readable.startsQuery,
      if_neg Bool.false_ne_true, bind_of_ok read]
    simp only [pure_bind]
    rw [bind_of_ok (expectMark_mark ")" _), bind_of_ok (follows.mark? (by decide))]
    rfl
  exact opened

theorem subquery {query : Query} (readable : (Expr.subquery query).Readable)
    (deep : (Expr.subquery query).depth ≤ depth) {rest : List Lexeme} (follows : Follows rest) :
    ∃ tree, level.plainOperand ((Expr.subquery query).lexemes ++ rest) = .ok (tree, rest) ∧
      (Expr.subquery query).ToldBy tree := by
  obtain ⟨tree, read, told⟩ := reads.query query readable.2 deep (.mark ")" :: rest)
    (Ahead.mark rest (by decide))
  refine ⟨.subquery tree, ?_, Expr.toldBy_subquery told⟩
  rw [Expr.lexemes_subquery, List.cons_append, List.append_assoc, List.singleton_append,
    Level.plainOperand, bind_of_ok (get_apply _), bind_of_ok (next_cons _ _)]
  have opened : level.inParentheses (query.lexemes ++ .mark ")" :: rest) =
      .ok (.subquery tree, rest) := by
    rw [Level.inParentheses, bind_of_ok (ahead_apply _ _), query.startsQuery, if_pos rfl,
      bind_of_ok (map_of_ok read)]
    beta_reduce
    rw [bind_of_ok (expectMark_mark ")" _), bind_of_ok (follows.mark? (by decide))]
    rfl
  exact opened

/-! ## All operands -/

/-- The operand in front of an expression is read back in front of what the expression goes on
with. -/
theorem plainOperand {expr : Expr} (readable : expr.Readable) (front : expr.isFront = true)
    (operand : expr.isOperand = true) (deep : expr.depth ≤ depth) {rest : List Lexeme}
    (ends : expr.EndsAt rest) :
    ∃ tree, level.plainOperand (expr.lexemes ++ rest) = .ok (tree, rest) ∧ expr.ToldBy tree := by
  cases expr with
  | column found => exact column readable ends.follows
  | literal value => exact reads.literal readable rest
  | unary op operand => exact reads.unary readable deep ends
  | call name path args distinct => exact reads.called readable deep ends.follows
  | case operand conditions results otherwise =>
      obtain ⟨tree, read, told⟩ := reads.caseOf readable deep rest
      refine ⟨tree, ?_, told⟩
      rw [Expr.lexemes_case]
      simp only [List.cons_append, List.append_assoc, List.nil_append]
      exact @Level.worded_of_reads level ⟨"CASE", none, "CASE"⟩ _ _ _ rfl read
  | nested inner => exact reads.nested readable deep ends.follows
  | subquery query => exact reads.subquery readable deep ends.follows
  | wildcard path => cases operand
  | _ => cases front

theorem operand {expr : Expr} (readable : expr.Readable) (front : expr.isFront = true)
    (operand : expr.isOperand = true) (deep : expr.depth ≤ depth) {rest : List Lexeme}
    (ends : expr.EndsAt rest) :
    ∃ tree, level.operand (expr.lexemes ++ rest) = .ok (tree, rest) ∧ expr.ToldBy tree := by
  obtain ⟨tree, read, told⟩ := reads.plainOperand readable front operand deep ends
  have untyped := Expr.Readable.typedLiteral? reads.rules readable front operand ends.follows
    ends.untyped
  exact ⟨tree, operand_of_plainOperand untyped read ends.follows, told⟩

end ReadsBack
end SemanticLayer.Sql
