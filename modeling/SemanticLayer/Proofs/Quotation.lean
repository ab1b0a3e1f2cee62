import SemanticLayer.Grammar.Lexeme
import SemanticLayer.Planner.Filter
import SemanticLayer.Proofs.Spelling

/-!
# String literals

A string literal is written with its quotation marks doubled. This module reads such a literal back
by the rules of its dialect, and says exactly which texts come back whole: every text, except that
MySQL takes a backslash for the start of an escape.
-/

namespace SemanticLayer

open Grammar.Lexeme (quotedText? escaped)
open Sql (Token Tokens Expr)

/-! ## Quoted text -/

namespace Text

/-- Doubling one character leaves the number of every other one. -/
theorem count_replaceChar_of_ne {mark d : Char} (differs : d ≠ mark) (chars : List Char) :
    (replaceChar mark [mark, mark] chars).count d = chars.count d := by
  induction chars with
  | nil => rfl
  | cons c rest ih =>
      rw [replaceChar_cons, List.count_append, ih, List.count_cons]
      by_cases same : c = mark
      · subst same
        simp [Ne.symm differs]
      · simp [same, List.count_cons, Nat.add_comm]

end Text

namespace Grammar.Lexeme

theorem escaped_eq_backslash_iff (c : Char) : escaped c = '\\' ↔ c = '\\' := by
  unfold escaped
  split <;> simp

/-- Where backslashes escape, the value of a quoted text holds at most half of the backslashes that
were read for it. -/
theorem count_backslash_of_quotedText?
    {closing : Char} (differs : closing ≠ '\\') {chars value after : List Char}
    (found : quotedText? closing true chars = some (value, after)) :
    2 * value.count '\\' + after.count '\\' ≤ chars.count '\\' := by
  fun_induction quotedText? closing true chars generalizing value with
  | case1 => simp at found
  | case2 d ih =>
      obtain ⟨⟨inner, behind⟩, read, same⟩ := Option.map_eq_some_iff.mp found
      obtain ⟨rfl, rfl⟩ := Prod.mk.injEq .. ▸ same
      have bound := ih read
      simp only [List.count_cons, beq_iff_eq, differs, if_false]
      omega
  | case3 d more other =>
      simp only [Option.some.injEq, Prod.mk.injEq] at found
      obtain ⟨rfl, rfl⟩ := found
      simp [List.count_cons, differs]
  | case4 =>
      simp only [Option.some.injEq, Prod.mk.injEq] at found
      obtain ⟨rfl, rfl⟩ := found
      simp
  | case5 c other isBackslash d more ih =>
      obtain ⟨⟨inner, behind⟩, read, same⟩ := Option.map_eq_some_iff.mp found
      obtain ⟨rfl, rfl⟩ := Prod.mk.injEq .. ▸ same
      have bound := ih read
      obtain rfl : c = '\\' := by simpa using isBackslash
      simp only [List.count_cons, beq_iff_eq, escaped_eq_backslash_iff, if_true]
      split <;> omega
  | case6 => simp at found
  | case7 c rest other plain ih =>
      obtain ⟨⟨inner, behind⟩, read, same⟩ := Option.map_eq_some_iff.mp found
      obtain ⟨rfl, rfl⟩ := Prod.mk.injEq .. ▸ same
      have bound := ih read
      have noBackslash : c ≠ '\\' := by simpa using plain
      simp only [List.count_cons, beq_iff_eq, noBackslash, if_false]
      omega

end Grammar.Lexeme

/-! ## Literals of a dialect -/

namespace Dialect

/-- The text behind the opening mark of a string literal. In T-SQL an `N` may stand in front. -/
def stringBody? (dialect : Dialect) : List Char → Option (List Char)
  | '\'' :: body => some body
  | 'N' :: '\'' :: body => if dialect = tSql then some body else none
  | _ => none

/-- The value of the string literal at the start of a text, and the text behind it. A mark written
twice stands for itself; in MySQL a backslash starts an escape. -/
def readString? (dialect : Dialect) (chars : List Char) : Option (String × List Char) :=
  (dialect.stringBody? chars).bind fun body =>
    (quotedText? '\'' (dialect == mySql) body).map fun (value, after) =>
      (String.ofList value, after)

/-- Whether a text may be written by doubling its quotation marks only. -/
def writesPlainly (dialect : Dialect) (text : String) : Prop :=
  dialect = mySql → '\\' ∉ text.toList

/-- Whatever mark stands in front of it, a written string has its doubled text for a body. -/
theorem stringBody?_quoteString (dialect : Dialect) (text : String) (rest : List Char) :
    dialect.stringBody? ((dialect.quoteString text).toList ++ rest) =
      some (Text.replaceChar '\'' ['\'', '\''] text.toList ++ '\'' :: rest) := by
  unfold quoteString enclose
  dsimp only
  split
  · rename_i national
    obtain ⟨rfl, -⟩ := national
    simp [stringBody?]
  · simp [stringBody?]

/-- A written string reads back exactly, unless it holds a backslash and backslashes escape. -/
theorem readString?_quoteString_eq_some_iff
    (dialect : Dialect) (text : String) {rest : List Char} (ends : rest.head? ≠ some '\'') :
    dialect.readString? ((dialect.quoteString text).toList ++ rest) = some (text, rest) ↔
      dialect.writesPlainly text := by
  rw [readString?, stringBody?_quoteString, Option.bind_some]
  constructor
  · rintro read rfl
    obtain ⟨⟨value, after⟩, found, same⟩ := Option.map_eq_some_iff.mp read
    obtain ⟨rfl, rfl⟩ : String.ofList value = text ∧ after = rest := by simpa using same
    have bound := Grammar.Lexeme.count_backslash_of_quotedText? (by decide) found
    rw [List.count_append, List.count_cons, Text.count_replaceChar_of_ne (by decide)] at bound
    have none : value.count '\\' = 0 := by
      simp only [String.toList_ofList, beq_iff_eq, Char.reduceEq, if_false] at bound
      omega
    simpa using List.count_eq_zero.mp none
  · intro plain
    have noEscape : (dialect == mySql) = true → '\\' ∉ text.toList := fun escapes =>
      plain (by simpa using escapes)
    simp [Grammar.Lexeme.quotedText?_replaceChar text.toList noEscape ends]

end Dialect

/-! ## Strings in compiled SQL -/

namespace Sql

/-- A symbol does not start with a quotation mark. -/
theorem Tokens.head?_ne_quote
    {tokens : Tokens} (dialect : Dialect)
    (symbol : tokens = [] ∨ ∃ mark rest, tokens = .symbol mark :: rest) :
    (Tokens.text dialect tokens).toList.head? ≠ some '\'' := by
  obtain rfl | ⟨mark, rest, rfl⟩ := symbol
  · simp [Tokens.text]
  · rw [Tokens.text_cons, String.toList_append]
    cases mark <;> simp [Token.text, Symbol.text]

/-- A filter on text writes that text as the literal at its end. -/
theorem tokens_toExpr_of_string
    (dialect : Dialect) (filter : Planner.Filter) (column : Column) {text : String}
    (isText : filter.value = .string text) :
    ∃ front, (filter.toExpr column).tokens dialect = front ++ [.string text] := by
  have noConcat : filter.op.toBinaryOp ≠ .concat := by
    cases filter.op <;> simp [Planner.FilterOp.toBinaryOp]
  refine ⟨column.tokens ++ space :: filter.op.toBinaryOp.tokens ++ [space], ?_⟩
  simp [Planner.Filter.toExpr, Expr.combine, Expr.nestBelow, Expr.tokens, noConcat, isText,
    Literal.token]

/-- A string in compiled SQL, read by the rules of its dialect, is one literal that ends where its
token ends and has the value of its token: exactly if the dialect is not MySQL or the string holds
no backslash. The text of a filter is such a string. -/
theorem compiled_string_reads_back_iff (dialect : Dialect) :
    (∀ text, dialect.readString? ((Token.string text).text dialect).toList = some (text, []) ↔
        dialect.writesPlainly text) ∧
      (∀ (query : Query) (front : Tokens) (text : String) (rest : Tokens),
        query.tokens dialect = front ++ .string text :: rest →
          (dialect.readString? (Tokens.text dialect (.string text :: rest)).toList =
              some (text, (Tokens.text dialect rest).toList) ↔
            dialect.writesPlainly text)) ∧
        ∀ (filter : Planner.Filter) (column : Column) (text : String),
          filter.value = .string text →
            ∃ front, (filter.toExpr column).tokens dialect = front ++ [.string text] := by
  refine ⟨fun text => ?_, fun query front text rest split => ?_, fun filter column text isText => ?_⟩
  · have alone := Dialect.readString?_quoteString_eq_some_iff dialect text (by simp : ([] : List Char).head? ≠ some '\'')
    simpa [Token.text] using alone
  · have apart : Tokens.Apart (front ++ .string text :: rest) :=
      split ▸ Query.apart_tokens dialect query
    have ends := Tokens.head?_ne_quote dialect (apart.isSymbol_behind rfl)
    rw [Tokens.text_cons, String.toList_append]
    exact Dialect.readString?_quoteString_eq_some_iff dialect text ends
  · exact tokens_toExpr_of_string dialect filter column isText

/-- In `SELECT 'it''s'` of MySQL the literal is the text it was made of. -/
theorem compiled_string_reads_back_quote :
    let query : Query := { select := { projection := [.literal (.string "it's")] } }
    let front : Tokens := [.keyword .select, .symbol .newline, .indent 1]
    query.tokens .mySql = front ++ [.string "it's"] ∧
      Dialect.mySql.readString? (Tokens.text .mySql [.string "it's"]).toList =
        some ("it's", (Tokens.text .mySql []).toList) := by
  intro query front
  have split : query.tokens .mySql = front ++ [.string "it's"] := rfl
  have readsBack := (compiled_string_reads_back_iff .mySql).2.1 query front "it's" [] split
  exact ⟨split, readsBack.mpr fun _ => by decide⟩

/-- A single backslash makes MySQL read on behind the end of the literal. -/
example : Dialect.mySql.readString? (Dialect.mySql.quoteString "\\").toList = none := by decide

end Sql
end SemanticLayer
