import SemanticLayer.Proofs.Relations

/-!
# Reading clauses

The clauses of a SELECT are read back one by one: each is found by its words, its entries are read
up to the words of a later clause, and a clause that is not written is found missing.
-/

namespace SemanticLayer

namespace Grammar

/-- Lexemes that may stand behind an entry of a projection. -/
abbrev EndsItem (lexemes : List Lexeme) : Prop :=
  Ahead [")", ","] ("FROM" :: clauseWords) lexemes

/-- Lexemes that may stand behind a clause: those of a later one, or what closes the query. -/
abbrev Continues (words : List String) (lexemes : List Lexeme) : Prop :=
  Ahead [")"] words lexemes

theorem Continues.clause {words later : List String} {rest : List Lexeme}
    (behind : Continues later rest) {keyword : String} (keywords : List String)
    (found : keyword ∈ words) (allLater : later ⊆ words) (items : List (List Lexeme)) :
    Continues words (Sql.clauseLexemes (keyword :: keywords) items ++ rest) := by
  rw [Sql.clauseLexemes]
  split
  · exact behind.mono (fun _ => id) allLater
  · exact Ahead.key _ found

theorem Continues.count {words later : List String} {rest : List Lexeme}
    (behind : Continues later rest) {keyword : String} (found : keyword ∈ words)
    (allLater : later ⊆ words) (count : Option UInt64) :
    Continues words (Sql.countLexemes keyword count ++ rest) := by
  cases count with
  | none => exact behind.mono (fun _ => id) allLater
  | some n => exact Ahead.key _ found

end Grammar

namespace Sql

open Grammar (Lexeme Word Level Ahead Closes Leaves EndsItem Continues startsWithMark)
open Grammar.Reader

namespace ReadsBack

variable {level : Level} {depth : Nat} (reads : ReadsBack level depth)

include reads

/-! ## Projections -/

/-- What is read behind an expression of a projection is its alias. -/
theorem selectItem_expr {lexemes rest : List Lexeme} {tree : Grammar.Expr}
    (starred : level.starred lexemes = .ok (.expr tree, rest))
    (named : Level.isFrom tree = false) :
    level.selectItem lexemes =
      (Level.itemOf tree <$> alias? Grammar.notColumnAliases) rest := by
  have unswapped : level.rules.aliasesByEquals = false := by
    rw [reads.rules]
    rfl
  rw [Level.selectItem, bind_of_ok starred]
  simp only [named, unswapped]
  rw [if_neg Bool.false_ne_true]
  split <;> rfl

/-- Nothing that may stand behind a star changes what it stands for. -/
theorem wildcardOptions {rest : List Lexeme} (ends : EndsItem rest) :
    level.wildcardOptions rest = .ok ({}, rest) := by
  have missing (keyword : String) (other : keyword ∉ "FROM" :: Grammar.clauseWords) :
      keyword? keyword rest = .ok (false, rest) := ends.keyword? other
  rw [Level.wildcardOptions, reads.rules, if_pos (by decide),
    bind_of_ok (ends.behind? _ (by decide))]
  beta_reduce
  rw [if_pos (by decide), bind_of_ok (missing "EXCLUDE" (by decide)), if_neg Bool.false_ne_true,
    bind_of_ok (pure_apply _ _)]
  beta_reduce
  rw [if_pos (by decide), bind_of_ok (missing "EXCEPT" (by decide)), if_neg Bool.false_ne_true,
    bind_of_ok (pure_apply _ _)]
  beta_reduce
  rw [if_pos (by decide), bind_of_ok (missing "RENAME" (by decide)), if_neg Bool.false_ne_true]
  rfl

/-- An entry of a projection is read back. -/
theorem selectItem {item : Expr} (readable : item.Readable) (deep : item.depth < depth)
    {rest : List Lexeme} (ends : EndsItem rest) :
    ∃ tree, level.selectItem (item.lexemes ++ rest) = .ok (tree, rest) ∧ item.ToldByItem tree := by
  have closes : Closes rest := ends.mono (fun _ => id) (by decide)
  cases operand : item.isOperand with
  | true =>
      obtain ⟨tree, read, told⟩ := reads.starred readable operand deep closes
      have noAlias : alias? Grammar.notColumnAliases rest = .ok (none, rest) :=
        alias?_of_ahead ends (by decide) (by decide)
      refine ⟨.unnamed tree, ?_, toldByItem_unnamed told⟩
      obtain ⟨-, -, -, named⟩ := told
      rw [reads.selectItem_expr read named]
      exact map_of_ok noAlias
  | false =>
      cases item with
      | aliased name child =>
          obtain ⟨⟨isOperand, -⟩, readable⟩ := readable
          have closes : Closes (.key "AS" :: .word name.written :: rest) := Ahead.key _ (by decide)
          obtain ⟨tree, read, told⟩ := reads.starred readable isOperand deep closes
          refine ⟨.aliased tree name.reread, ?_, toldByItem_aliased told⟩
          obtain ⟨-, -, -, named⟩ := told
          rw [Expr.lexemes_aliased, List.append_assoc, List.cons_append, List.cons_append,
            List.nil_append, reads.selectItem_expr read named]
          exact map_of_ok (alias?_key _ name rest)
      | wildcard path =>
          have options := reads.wildcardOptions ends
          rcases path with - | - | ⟨first, more⟩
          · refine ⟨.wildcard {}, ?_, toldByItem_wildcard _⟩
            have star : level.starred ((Expr.wildcard none).lexemes ++ rest) =
                .ok (.wildcard, rest) := rfl
            rw [Level.selectItem, bind_of_ok star]
            exact map_of_ok options
          · exact absurd rfl readable.1
          · refine ⟨_, ?_, toldByItem_path (first :: more) {}⟩
            have star := @Level.starred_path level first.written (more.map Name.written) rest
            rw [lexemes_wildcard_cons, Level.selectItem, bind_of_ok star, ← map_nameOf_written]
            exact map_of_ok options
      | _ => cases operand

/-- A projection is read back. -/
theorem projection {items : List Expr} (some : items ≠ [])
    (each : ∀ item ∈ items, item.Readable ∧ item.depth < depth) {rest : List Lexeme}
    (continues : Continues ("FROM" :: Grammar.clauseWords) rest) :
    ∃ trees, level.projection (commaJoined (items.map Expr.lexemes) ++ rest) = .ok (trees, rest) ∧
      List.Forall₂ Expr.ToldByItem items trees := by
  have endless : ∀ others, (level.rules.endsProjectionsByComma && Grammar.endsList others) =
      false := by
    intro others
    rw [reads.rules]
    rfl
  refine separated_told endless (continues.startsWithMark (by decide)) some
    fun item found behind stands => ?_
  obtain ⟨readable, deep⟩ := each item found
  refine reads.selectItem readable deep ?_
  rcases stands with ⟨more, rfl⟩ | rfl
  · exact Ahead.mark more (by decide)
  · exact continues.mono (by decide) fun _ => id

/-! ## What is kept -/

omit reads in
/-- Whether equal rows are kept apart is read back in front of the projection. -/
theorem distinct (kept : Bool) {item : Expr} (readable : item.Readable) (rest : List Lexeme) :
    level.distinct ((if kept then [.key "DISTINCT"] else []) ++ (item.lexemes ++ rest)) =
      .ok (if kept then .distinct else .all, item.lexemes ++ rest) := by
  have other {keyword : String} (listed : keyword ∈ callWords)
      (reserved : Text.asciiLower keyword ∈ reservedWords) (free : keyword ∉ Expr.fixedHeads) :
      keyword? keyword (item.lexemes ++ rest) = .ok (false, item.lexemes ++ rest) :=
    readable.keyword? (readable.headKeyword_ne_of_reserved listed reserved free) rest
  cases kept with
  | false =>
      rw [if_neg Bool.false_ne_true, List.nil_append, Level.distinct,
        bind_of_ok (other (by decide : "ALL" ∈ callWords) (by decide) (by decide)),
        bind_of_ok (other (by decide : "DISTINCT" ∈ callWords) (by decide) (by decide))]
      rfl
  | true =>
      have noAll : keyword? "ALL" (.key "DISTINCT" :: (item.lexemes ++ rest)) =
          .ok (false, .key "DISTINCT" :: (item.lexemes ++ rest)) := rfl
      rw [if_pos rfl, List.singleton_append, Level.distinct, bind_of_ok noAll,
        bind_of_ok (keyword?_key "DISTINCT" _), if_pos rfl, if_neg Bool.false_ne_true,
        bind_of_ok (other (by decide : "ON" ∈ callWords) (by decide) (by decide))]
      rfl

omit reads in
/-- No count of rows is read in front of a projection that does not start with a name TOP. -/
theorem top? {item : Expr} (readable : item.Readable) (other : item.nameKeyword ≠ "TOP")
    (rest : List Lexeme) :
    level.top? (item.lexemes ++ rest) = .ok ((none, []), item.lexemes ++ rest) := by
  rw [Level.top?, bind_of_ok (readable.keyword?
    (readable.headKeyword_ne other (by decide) (by decide)) rest)]
  rfl

/-! ## FROM and the conditions -/

/-- A FROM clause is read back, or found missing. -/
theorem sources {sources : List Source}
    (each : ∀ source ∈ sources, source.HasShape ∧ source.Readable ∧ source.depth ≤ depth)
    {rest : List Lexeme} (continues : Continues Grammar.clauseWords rest) :
    ∃ trees, (do if ← keyword? "FROM" then level.sources else pure [])
        (clauseLexemes ["FROM"] (sources.map Source.lexemes) ++ rest) = .ok (trees, rest) ∧
      List.Forall₂ Source.ToldBy sources trees := by
  cases sources with
  | nil =>
      refine ⟨[], ?_, .nil⟩
      rw [List.map_nil, clauseLexemes, if_pos rfl, List.nil_append,
        bind_of_ok (continues.keyword? (by decide))]
      rfl
  | cons source sources =>
      have behind (found : Source) (listed : found ∈ source :: sources) (others : List Lexeme)
          (stands : (∃ more, others = .mark "," :: more) ∨ others = rest) :
          ∃ tree, level.tableWithJoins (found.lexemes ++ others) = .ok (tree, others) ∧
            found.ToldBy tree := by
        obtain ⟨shape, readable, deep⟩ := each found listed
        refine reads.tableWithJoins shape readable deep ?_
        rcases stands with ⟨more, rfl⟩ | rfl
        · exact Ahead.mark more (by decide)
        · exact continues.mono (by decide) fun _ => id
      have endless : ∀ others : List Lexeme, (fun _ : List Lexeme => false) others = false :=
        fun _ => rfl
      obtain ⟨trees, read, told⟩ := separated_told endless
        (continues.startsWithMark (by decide)) (List.cons_ne_nil source sources) behind
      refine ⟨trees, ?_, told⟩
      rw [clauseLexemes, if_neg (by simp), List.map_singleton, List.cons_append, List.nil_append,
        List.cons_append, bind_of_ok (keyword?_key "FROM" _), if_pos rfl, Level.sources,
        reads.commaSeparated_eq]
      exact read

omit reads in
theorem clauseLexemes_toList (keyword : String) (expr : Option Expr) :
    clauseLexemes [keyword] (expr.toList.map Expr.lexemes) =
      expr.elim [] fun part => .key keyword :: part.lexemes := by
  cases expr <;> rfl

/-- A clause of one condition is read back, or found missing. -/
theorem condition (keyword : String) {expr : Option Expr}
    (each : ∀ part ∈ expr, part.Readable ∧ part.isOperand = true ∧ part.depth < depth)
    {words : List String} {rest : List Lexeme} (continues : Continues words rest)
    (later : words ⊆ Grammar.clauseWords) (other : keyword ∉ words) :
    ∃ tree, behind? [keyword] level.expression
          (clauseLexemes [keyword] (expr.toList.map Expr.lexemes) ++ rest) = .ok (tree, rest) ∧
      ToldBy? expr tree := by
  rw [clauseLexemes_toList]
  refine reads.behind each keyword ?_ (continues.startsWithKeywords [] other)
  exact continues.mono (by decide) fun word found =>
    (by decide : Grammar.clauseWords ⊆ Grammar.closingWords) (later found)

/-! ## GROUP BY -/

/-- An entry of GROUP BY is read back. -/
theorem groupEntry {key : Expr} (readable : key.Readable) (operand : key.isOperand = true)
    (free : key.nameKeyword ∉ ["ALL", "CUBE", "ROLLUP"]) (deep : key.depth < depth)
    {rest : List Lexeme} (closes : Closes rest) :
    ∃ tree, level.groupEntry (key.lexemes ++ rest) = .ok (tree, rest) ∧ key.ToldBy tree := by
  obtain ⟨tree, read, told⟩ := reads.expression readable operand deep closes
  refine ⟨tree, ?_, told⟩
  have noSets : keywords? ["GROUPING", "SETS"] (key.lexemes ++ rest) =
      .ok (false, key.lexemes ++ rest) :=
    takeIf_of_false (readable.startsWithKeywords [] (by decide) (by decide)
      (closes.startsWithKeywords [] (by decide)))
  have named (keyword : String) (found : keyword ∈ ["ALL", "CUBE", "ROLLUP"])
      (listed : keyword ∈ callWords) (unfixed : keyword ∉ Expr.fixedHeads) :
      keyword? keyword (key.lexemes ++ rest) = .ok (false, key.lexemes ++ rest) := by
    refine readable.keyword? (readable.headKeyword_ne ?_ listed unfixed) rest
    rintro rfl
    exact free found
  rw [Level.groupEntry, reads.rules]
  simp only []
  rw [if_pos (by decide), bind_of_ok noSets, if_neg Bool.false_ne_true,
    bind_of_ok (named "CUBE" (by decide) (by decide) (by decide)), if_neg Bool.false_ne_true,
    bind_of_ok (named "ROLLUP" (by decide) (by decide) (by decide)), if_neg Bool.false_ne_true,
    bind_of_ok (ahead_apply _ _), readable.filled, if_neg Bool.false_ne_true]
  exact read

omit reads in
theorem groupModifiers {words : List String} {rest : List Lexeme} (continues : Continues words rest)
    (other : "WITH" ∉ words) (fuel : Nat) : Level.groupModifiers fuel rest = .ok ([], rest) := by
  cases fuel with
  | zero => rfl
  | succ fuel =>
      rw [Level.groupModifiers, bind_of_ok (continues.keyword? other)]
      rfl

/-- A GROUP BY clause is read back, or found missing. -/
theorem grouping? {keys : List Expr}
    (each : ∀ key ∈ keys, key.Readable ∧ key.isOperand = true ∧
      key.nameKeyword ∉ ["ALL", "CUBE", "ROLLUP"] ∧ key.depth < depth)
    {rest : List Lexeme} (continues : Continues ["HAVING", "ORDER", "LIMIT", "OFFSET"] rest) :
    ∃ trees, level.grouping? (clauseLexemes ["GROUP", "BY"] (keys.map Expr.lexemes) ++ rest) =
        .ok ((some trees, []), rest) ∧ List.Forall₂ Expr.ToldBy keys trees := by
  cases keys with
  | nil =>
      refine ⟨[], ?_, .nil⟩
      rw [List.map_nil, clauseLexemes, if_pos rfl, List.nil_append, Level.grouping?,
        bind_of_ok (continues.keywords? ["BY"] (by decide))]
      rfl
  | cons key keys =>
      have leaves : Leaves rest := continues.mono (fun _ => id) (by decide)
      have endless : ∀ others : List Lexeme, (fun _ : List Lexeme => false) others = false :=
        fun _ => rfl
      obtain ⟨trees, read, told⟩ := separated_told endless
        (continues.startsWithMark (by decide)) (List.cons_ne_nil key keys)
        fun found listed behind stands => by
          obtain ⟨readable, operand, free, deep⟩ := each found listed
          refine reads.groupEntry readable operand free deep ?_
          rcases stands with ⟨more, rfl⟩ | rfl
          · exact Ahead.mark more (by decide)
          · exact leaves.closes
      refine ⟨trees, ?_, told⟩
      obtain ⟨readable, -, free, -⟩ := each key List.mem_cons_self
      have noAll : keyword? "ALL" (commaJoined ((key :: keys).map Expr.lexemes) ++ rest) =
          .ok (false, commaJoined ((key :: keys).map Expr.lexemes) ++ rest) := by
        rw [List.map_cons, commaJoined_cons, List.append_assoc]
        exact readable.keyword?
          (readable.headKeyword_ne_of_reserved (by decide) (by decide) (by decide)) _
      have group : keywords? ["GROUP", "BY"] (["GROUP", "BY"].map Lexeme.key ++
          commaJoined ((key :: keys).map Expr.lexemes) ++ rest) =
          .ok (true, commaJoined ((key :: keys).map Expr.lexemes) ++ rest) := rfl
      rw [clauseLexemes, if_neg (by simp), Level.grouping?, bind_of_ok group, if_pos rfl,
        bind_of_ok noAll, if_neg Bool.false_ne_true, reads.commaSeparated_eq]
      rw [bind_of_ok (map_of_ok read)]
      beta_reduce
      rw [bind_of_ok (get_apply _), if_pos reads.rules, bind_of_ok (groupModifiers continues (by decide) _)]
      rfl

/-! ## ORDER BY -/

omit reads in
theorem readable_of_everyOrderings {orderings : List Ordering}
    (all : everyOrderings (fun part => part.HasShape ∧ part.IsLegible)
      (fun query => query.select.HasShape ∧ query.IsLegible) orderings) :
    ∀ ordering ∈ orderings, ordering.expr.Readable := by
  induction orderings with
  | nil => simp
  | cons ordering rest ih =>
      intro other found
      obtain ⟨first, others⟩ := all
      rcases List.mem_cons.mp found with rfl | found
      · obtain ⟨expr, ascending, nullsFirst⟩ := other
        exact first
      · exact ih others other found

/-- An entry of ORDER BY is read back. -/
theorem ordering {ordering : Ordering} (readable : ordering.expr.Readable)
    (operand : ordering.expr.isOperand = true) (deep : ordering.expr.depth < depth)
    {rest : List Lexeme} (stands : Ahead [")", ","] ["LIMIT", "OFFSET"] rest) :
    ∃ tree, level.ordering (ordering.lexemes ++ rest) = .ok (tree, rest) ∧
      ordering.ToldBy tree := by
  obtain ⟨expr, ascending, nullsFirst⟩ := ordering
  -- what stands behind the direction, and what stands behind the expression
  obtain ⟨nulls, nullsWritten⟩ : ∃ nulls : List Lexeme, nulls =
      nullsFirst.elim [] fun first => [.key "NULLS", .key (if first then "FIRST" else "LAST")] :=
    ⟨_, rfl⟩
  have afterDirection : Ahead [")", ","] ["NULLS", "LIMIT", "OFFSET"] (nulls ++ rest) := by
    rcases nullsFirst with - | first
    · rw [nullsWritten]
      exact stands.mono (fun _ => id) (by decide)
    · rw [nullsWritten]
      exact Ahead.key _ (by decide)
  have direction : oneOf? ["ASC", "DESC"]
      ((ascending.elim [] fun up => [.key (if up then "ASC" else "DESC")]) ++ (nulls ++ rest)) =
      .ok (ascending.map (fun up => if up then "ASC" else "DESC"), nulls ++ rest) := by
    rcases ascending with - | - | -
    · exact afterDirection.oneOf? (by decide)
    · rfl
    · rfl
  have closes : Closes
      ((ascending.elim [] fun up => [.key (if up then "ASC" else "DESC")]) ++ (nulls ++ rest)) := by
    rcases ascending with - | - | -
    · exact afterDirection.mono (fun _ => id) (by decide)
    · exact Ahead.key _ (by decide)
    · exact Ahead.key _ (by decide)
  have ascends : (ascending.map (fun up => if up then "ASC" else "DESC")).map (· == "ASC") =
      ascending := by
    rcases ascending with - | - | - <;> rfl
  obtain ⟨tree, read, told⟩ := reads.expression readable operand deep closes
  refine ⟨_, ?_, Ordering.toldBy told ascending nullsFirst⟩
  rw [Ordering.lexemes, ← nullsWritten, List.append_assoc, List.append_assoc, Level.ordering,
    bind_of_ok read, bind_of_ok direction]
  simp only [ascends]
  subst nullsWritten
  rcases nullsFirst with - | - | -
  · rw [Option.elim_none, List.nil_append,
      bind_of_ok (stands.keywords? ["FIRST"] (by decide)), if_neg Bool.false_ne_true,
      bind_of_ok (stands.keywords? ["LAST"] (by decide))]
    rfl
  · rfl
  · rfl

/-- An ORDER BY clause is read back, or found missing. -/
theorem orderings? {orderings : List Ordering}
    (each : ∀ ordering ∈ orderings, ordering.expr.Readable ∧ ordering.expr.isOperand = true ∧
      ordering.expr.depth < depth)
    {rest : List Lexeme} (continues : Continues ["LIMIT", "OFFSET"] rest) :
    ∃ trees, level.orderings?
          (clauseLexemes ["ORDER", "BY"] (orderings.map Ordering.lexemes) ++ rest) =
        .ok (trees, rest) ∧ List.Forall₂ Ordering.ToldBy orderings trees := by
  cases orderings with
  | nil =>
      refine ⟨[], ?_, .nil⟩
      rw [List.map_nil, clauseLexemes, if_pos rfl, List.nil_append, Level.orderings?,
        bind_of_ok (continues.keywords? ["BY"] (by decide))]
      rfl
  | cons first orderings =>
      have endless : ∀ others : List Lexeme, (fun _ : List Lexeme => false) others = false :=
        fun _ => rfl
      obtain ⟨trees, read, told⟩ := separated_told endless
        (continues.startsWithMark (by decide)) (List.cons_ne_nil first orderings)
        fun found listed behind stands => by
          obtain ⟨readable, operand, deep⟩ := each found listed
          refine reads.ordering readable operand deep ?_
          rcases stands with ⟨more, rfl⟩ | rfl
          · exact Ahead.mark more (by decide)
          · exact continues.mono (by decide) fun _ => id
      refine ⟨trees, ?_, told⟩
      have order : keywords? ["ORDER", "BY"] (["ORDER", "BY"].map Lexeme.key ++
          commaJoined ((first :: orderings).map Ordering.lexemes) ++ rest) =
          .ok (true, commaJoined ((first :: orderings).map Ordering.lexemes) ++ rest) := rfl
      rw [clauseLexemes, if_neg (by simp), Level.orderings?, bind_of_ok order, if_pos rfl,
        Level.orderings, reads.commaSeparated_eq]
      exact read

/-! ## LIMIT and OFFSET -/

omit reads in
/-- Where no comma comes next, LIMIT and OFFSET stay what they are. -/
theorem unswapped {α : Type} {rest : List Lexeme} (continues : Continues [] rest) (skips : Bool)
    (swapped kept : Grammar.Reader α) :
    (if skips = true then do if ← mark? "," then swapped else kept
      else do if ← pure false then swapped else kept) rest = kept rest := by
  cases skips with
  | true =>
      rw [if_pos rfl, bind_of_ok (continues.mark? (by decide)), if_neg Bool.false_ne_true]
  | false => rfl

/-- Counts are read back, in the order they are written in. -/
theorem page {limit offset : Option UInt64} (positive : 0 < depth)
    {rest : List Lexeme} (continues : Continues [] rest) :
    level.page {} (countLexemes "LIMIT" limit ++ (countLexemes "OFFSET" offset ++ rest)) =
      .ok (⟨countExpr limit, countExpr offset⟩, rest) := by
  have count (n : UInt64) {behind : List Lexeme} (closes : Closes behind) :
      level.expression (.number (Number.intText n.toInt64.toInt) :: behind) =
        .ok (.value (.number (Number.intText n.toInt64.toInt)), behind) :=
    reads.number positive _ behind closes
  have closes : Closes rest := continues.mono (by decide) (by simp)
  have skipped : behind? ["OFFSET"] level.offset (countLexemes "OFFSET" offset ++ rest) =
      .ok (countExpr offset, rest) := by
    cases offset with
    | none => exact continues.behind? _ (by decide)
    | some n =>
        have counted : level.offset (.number (Number.intText n.toInt64.toInt) :: rest) =
            .ok (.value (.number (Number.intText n.toInt64.toInt)), rest) := by
          rw [Level.offset, bind_of_ok (count n closes),
            bind_of_ok (continues.oneOf? (by decide))]
          rfl
        have there : keywords? ["OFFSET"] (countLexemes "OFFSET" (some n) ++ rest) =
            .ok (true, .number (Number.intText n.toInt64.toInt) :: rest) := rfl
        rw [behind?, bind_of_ok there, if_pos rfl]
        exact map_of_ok counted
  have behind : Continues ["OFFSET"] (countLexemes "OFFSET" offset ++ rest) :=
    continues.count (by decide) (by simp) offset
  rw [Level.page]
  simp only [Option.isNone_none, if_true]
  cases limit with
  | none =>
      rw [countLexemes, Option.elim_none, List.nil_append,
        bind_of_ok (behind.keyword? (by decide)), if_neg Bool.false_ne_true, pure_bind,
        bind_of_ok skipped]
      exact unswapped continues _ _ _
  | some n =>
      have there : keyword? "LIMIT" (countLexemes "LIMIT" (some n) ++
          (countLexemes "OFFSET" offset ++ rest)) = .ok (true,
          .number (Number.intText n.toInt64.toInt) :: (countLexemes "OFFSET" offset ++ rest)) := rfl
      have noAll : keyword? "ALL"
          (.number (Number.intText n.toInt64.toInt) :: (countLexemes "OFFSET" offset ++ rest)) =
          .ok (false, _) := rfl
      have counted := count n (behind.mono (by decide) (by decide))
      rw [bind_of_ok there, if_pos rfl, bind_of_ok noAll, if_neg Bool.false_ne_true,
        bind_of_ok (map_of_ok counted), bind_of_ok skipped]
      exact unswapped continues _ _ _

omit reads in
/-- Counts that are read stay when no more are written. -/
theorem page_again (limit offset : Option UInt64) {rest : List Lexeme}
    (continues : Continues [] rest) :
    level.page ⟨countExpr limit, countExpr offset⟩ rest =
      .ok (⟨countExpr limit, countExpr offset⟩, rest) := by
  have noLimit : keyword? "LIMIT" rest = .ok (false, rest) := continues.keyword? (by simp)
  have noOffset : behind? ["OFFSET"] level.offset rest = .ok (none, rest) :=
    continues.behind? _ (by simp)
  rw [Level.page]
  cases limit with
  | none =>
      have missing : (countExpr none).isNone = true := rfl
      rw [if_pos missing, bind_of_ok noLimit, if_neg Bool.false_ne_true, pure_bind]
      beta_reduce
      cases offset with
      | none =>
          simp only [countExpr, Option.map_none, Option.isNone_none, if_true]
          rw [bind_of_ok noOffset]
          exact unswapped continues _ _ _
      | some n =>
          exact unswapped continues _ _ _
  | some m =>
      have there : ¬(countExpr (some m)).isNone = true := Bool.false_ne_true
      rw [if_neg there, pure_bind]
      beta_reduce
      cases offset with
      | none =>
          simp only [countExpr, Option.map_none, Option.isNone_none, if_true]
          rw [bind_of_ok noOffset]
          exact unswapped continues _ _ _
      | some n =>
          exact unswapped continues _ _ _

end ReadsBack
end Sql
end SemanticLayer
