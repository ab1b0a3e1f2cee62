import SemanticLayer.Proofs.Legibility
import SemanticLayer.Proofs.Queries

/-!
# Texts read back

The text of a query that nests as queries are read, and whose words can be told from others, is
read back as the query.
-/

namespace SemanticLayer.Sql

open Grammar (Lexeme Level Closes)
open Grammar.Reader

/-- The readers of every level read back what nests no deeper than their levels. -/
theorem readsBack_ofDepth (depth : Nat) : ReadsBack (Level.ofDepth .generic depth) depth := by
  induction depth with
  | zero =>
      exact
        { rules := rfl
          expr := fun _ _ _ deep => absurd deep (Nat.not_lt_zero _)
          query := fun _ _ deep => absurd deep (Nat.not_lt_zero _)
          number := fun positive => absurd positive (Nat.not_lt_zero _) }
  | succ depth ih =>
      exact
        { rules := rfl
          expr := fun expr readable operand deep =>
            ih.subexpression readable operand (Nat.le_of_lt_succ deep)
          query := fun query readable deep => ih.wholeQuery readable (Nat.le_of_lt_succ deep)
          number := fun _ text rest closes => ih.subexpression_number text closes }

/-- A query that nothing stands behind is the one statement that is read. -/
theorem statements_of_query {level : Level} {lexemes : List Lexeme} {tree : Grammar.Query}
    (starts : Grammar.startsQuery lexemes = true) (read : level.query lexemes = .ok (tree, []))
    (fuel : Nat) : level.statements (fuel + 1) lexemes = .ok ([.query tree], []) := by
  obtain ⟨word, rest, rfl⟩ : ∃ word rest, lexemes = .word word :: rest := by
    rcases lexemes with - | ⟨_ | _ | _ | _ | _, rest⟩
    case cons.word word => exact ⟨word, rest, rfl⟩
    all_goals cases starts
  have first : (modify Level.afterSemicolons : Grammar.Reader PUnit) (.word word :: rest) =
      .ok (⟨⟩, .word word :: rest) := rfl
  have statement : level.statement (.word word :: rest) = .ok (.query tree, []) := by
    rw [Level.statement, bind_of_ok (get_apply _), starts, Bool.true_or, Bool.true_or, if_pos rfl]
    exact map_of_ok read
  have nothing (fuel : Nat) : level.statements fuel [] = .ok ([], []) := by
    cases fuel <;> rfl
  have noEnd : ahead (Grammar.startsWithKeywords ["END"]) [] = .ok (false, []) := rfl
  have ended : ahead (fun lexemes => lexemes.isEmpty || Grammar.startsWithMark ";" lexemes) [] =
      .ok (true, []) := rfl
  rw [Level.statements, bind_of_ok first, bind_of_ok (ahead_apply _ _), List.isEmpty_cons,
    if_neg Bool.false_ne_true, bind_of_ok statement, bind_of_ok noEnd, if_neg Bool.false_ne_true,
    bind_of_ok ended, if_pos rfl, bind_of_ok (nothing fuel)]
  rfl

/-- A text is read as the query that its lexemes are. -/
theorem Query.ofText_of_lexemes {dialect : Option Dialect} {text : String} {lexemes : List Lexeme}
    {tree : Grammar.Query} (cut : Lexeme.ofText? (.ofDialect? dialect) text = some lexemes)
    (starts : Grammar.startsQuery lexemes = true)
    (read : (Level.ofDepth (.ofDialect? dialect) 48).wholeQuery lexemes = .ok (tree, [])) :
    Query.ofText text dialect = queryOf tree := by
  have found : Grammar.statements? (.ofDialect? dialect) text = some [.query tree] := by
    have depthLimit : Grammar.depthLimit - 1 = 49 := rfl
    have inner : (Level.ofDepth (.ofDialect? dialect) 49).query lexemes = .ok (tree, []) := read
    rw [Grammar.statements?, cut, Option.bind_some, depthLimit, statements_of_query starts inner]
  have single : singleQueryOf text dialect = .ok tree := by
    have statements : statementsOf text dialect = .ok [.query tree] := by rw [statementsOf, found]
    rw [singleQueryOf, statements]
    rfl
  rw [Query.ofText, single]
  rfl

/-- The text of a query that can be read back is read as a query equal to it, apart from how names
are quoted, if it nests less than so deep and no two minus signs meet. -/
theorem Query.ofText_text {query : Query} (readable : query.Readable)
    (unhyphenated : Tokens.Unhyphenated (query.tokens .duckDb)) (deep : query.depth ≤ 48) :
    ∃ read, Query.ofText (query.text .duckDb) none = .ok read ∧
      read.equal query.upperFunctions = true := by
  have cut : Lexeme.ofText? .generic (query.text .duckDb) = some query.lexemes :=
    Query.lexemes_text Dialect.duckDb_isGeneric query unhyphenated
      (query.legible_tokens readable)
  obtain ⟨tree, read, result, given, same⟩ :=
    (readsBack_ofDepth 48).wholeQuery readable deep [] trivial
  have starts := query.startsQuery []
  rw [List.append_nil] at read starts
  exact ⟨result, (@Query.ofText_of_lexemes none _ _ _ cut starts read).trans given, same⟩

end SemanticLayer.Sql
