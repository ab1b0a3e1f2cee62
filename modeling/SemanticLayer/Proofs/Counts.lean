import SemanticLayer.Proofs.NumberLiterals
import SemanticLayer.Sql.Render

/-!
# Counts of rows

A count of rows is an unsigned word, but it is written as the signed word with its bits. So counts
keep their value up to the greatest signed word, and beyond that a negative number stands in their
place.
-/

namespace SemanticLayer

open Number

namespace Sql

/-! ## Signed words -/

/-- A count as it is written: as the signed word with its bits. -/
def asSigned (count : UInt64) : Int :=
  if count.toNat < 2 ^ 63 then count.toNat else count.toNat - 2 ^ 64

theorem toInt_toInt64_eq (count : UInt64) : count.toInt64.toInt = asSigned count := by
  have small := count.toNat_lt
  have word : count.toInt64.toInt = count.toBitVec.toInt := rfl
  have bits : count.toBitVec.toNat = count.toNat := rfl
  rw [word, BitVec.toInt_eq_toNat_cond, bits, asSigned]
  split_ifs <;> omega

theorem asSigned_eq_iff (count : UInt64) : asSigned count = count.toNat ↔ count.toNat < 2 ^ 63 := by
  rw [asSigned]
  split_ifs with small
  · exact iff_of_true rfl small
  · exact iff_of_false (by omega) small

/-! ## The numbers of a clause -/

/-- The whole numbers among the pieces of a text between blanks. -/
def numbersIn (text : String) : List Int :=
  (text.toList.splitOn ' ').filterMap integer?

/-- The counts that a dialect writes. Where rows are fetched behind an offset, there is always one,
which is zero if none is given. -/
def countsShown (d : Dialect) (limit offset : Option UInt64) : List UInt64 :=
  if d.paginatesByFetch then offset.getD 0 :: limit.toList else limit.toList ++ offset.toList

/-- The words of the clause that counts off rows. -/
def paginationWords (d : Dialect) (limit offset : Option UInt64) : List (List Char) :=
  let count (n : UInt64) : List Char := (intText (asSigned n)).toList
  if d.paginatesByFetch then
    ["OFFSET".toList, count (offset.getD 0), "ROWS".toList] ++
      limit.elim [] fun n =>
        ["FETCH".toList, "NEXT".toList, count n, "ROWS".toList, "ONLY".toList]
  else
    (limit.elim [] fun n => ["LIMIT".toList, count n]) ++
      offset.elim [] fun n => ["OFFSET".toList, count n]

theorem toList_text_pagination (d : Dialect) (limit offset : Option UInt64) :
    (Tokens.text d (pagination d limit offset)).toList =
      [' '].intercalate (paginationWords d limit offset) := by
  have zero : asSigned 0 = 0 := by decide
  unfold pagination paginationWords
  cases d.paginatesByFetch <;> cases limit <;> cases offset <;>
    simp [Token.text, Keyword.text, Symbol.text, space, toInt_toInt64_eq, List.intercalate,
      Tokens.text, zero]

theorem not_mem_intText (n : Int) : ' ' ∉ (intText n).toList := by
  intro blank
  have numbers := Decimal.all_isNumberChar_of_integer? (integer?_intText n)
  exact absurd (List.all_eq_true.1 numbers _ blank) (by decide)

theorem not_mem_paginationWords (d : Dialect) (limit offset : Option UInt64) :
    ∀ word ∈ paginationWords d limit offset, ' ' ∉ word := by
  unfold paginationWords
  cases d.paginatesByFetch <;> cases limit <;> cases offset <;> simp [not_mem_intText]

theorem filterMap_paginationWords (d : Dialect) (limit offset : Option UInt64) :
    (paginationWords d limit offset).filterMap integer? =
      (countsShown d limit offset).map asSigned := by
  have words : ∀ word ∈ ["LIMIT", "OFFSET", "ROWS", "FETCH", "NEXT", "ONLY"],
      integer? word.toList = none := by decide
  simp only [List.mem_cons, List.not_mem_nil, or_false, forall_eq_or_imp, forall_eq] at words
  obtain ⟨limitWord, offsetWord, rows, fetch, next, only⟩ := words
  unfold paginationWords countsShown
  cases d.paginatesByFetch <;> cases limit <;> cases offset <;>
    simp only [Bool.false_eq_true, if_true, if_false, Option.elim, Option.getD, Option.toList,
      List.cons_append, List.nil_append, List.append_nil, List.filterMap_cons, List.filterMap_nil,
      List.map_cons, List.map_nil, limitWord, offsetWord, rows, fetch, next, only, integer?_intText]

/-- The numbers of the clause are the counts as they are written. -/
theorem numbersIn_pagination (d : Dialect) (limit offset : Option UInt64) :
    numbersIn (Tokens.text d (pagination d limit offset)) =
      (countsShown d limit offset).map asSigned := by
  rw [numbersIn, toList_text_pagination, ← filterMap_paginationWords]
  by_cases empty : paginationWords d limit offset = []
  · rw [empty]
    rfl
  · rw [List.splitOn_intercalate ' ' (not_mem_paginationWords d limit offset) empty]

theorem forall_countsShown_iff (d : Dialect) (limit offset : Option UInt64) :
    (∀ n ∈ countsShown d limit offset, n.toNat < 2 ^ 63) ↔
      ∀ n ∈ limit.toList ++ offset.toList, n.toNat < 2 ^ 63 := by
  unfold countsShown
  cases d.paginatesByFetch <;> cases limit <;> cases offset <;> simp [and_comm]

/-! ## Counts in SQL -/

theorem integer?_of_uint64? {chars : List Char} {count : UInt64}
    (read : uint64? chars = some count) : integer? chars = some (count.toNat : Int) := by
  unfold uint64? at read
  obtain ⟨n, digits, fits⟩ := Option.bind_eq_some_iff.1 read
  split_ifs at fits with small
  cases fits
  have word : (UInt64.ofNat n).toNat = n := by
    have bound : n < 2 ^ 64 := Nat.lt_succ_of_le small
    rw [UInt64.toNat_ofNat', Nat.mod_eq_of_lt bound]
  rw [word]
  split at digits
  next =>
    rw [integer?, digits]
    rfl
  next =>
    have plain : chars ≠ [] ∧ chars.all Char.isDigit = true := by
      by_contra other
      rw [natural?, if_neg other] at digits
      cases digits
    obtain ⟨c, rest, rfl⟩ := List.exists_cons_of_ne_nil plain.1
    rw [integer?_of_isDigit (List.all_eq_true.1 plain.2 c (.head _)), digits]
    rfl

/-- A paginated SELECT ends in the clause that counts off its rows. -/
theorem Select.exists_tokens_eq (d : Dialect) (select : Select)
    (paginated : (select.limit.isSome || select.offset.isSome) = true) :
    ∃ front, select.tokens d =
      front ++ .symbol .newline :: pagination d select.limit select.offset := by
  obtain ⟨distinct, projection, sources, filter, groupBy, having, orderBy, limit, offset⟩ := select
  unfold tokens ending
  dsimp only at paginated ⊢
  rw [if_pos paginated, ← List.append_assoc]
  exact ⟨_, rfl⟩

/-- The clause that counts off rows holds the counts as signed words, which are the counts
themselves just where they are below half of the range. It ends every SELECT that has a count, and
the count of a text that is accepted is the number that the text is. -/
theorem counts_keep_their_value_iff (d : Dialect) (limit offset : Option UInt64) :
    numbersIn (Tokens.text d (pagination d limit offset)) =
        (countsShown d limit offset).map asSigned ∧
      (numbersIn (Tokens.text d (pagination d limit offset)) =
          (countsShown d limit offset).map (fun n => (n.toNat : Int)) ↔
        ∀ n ∈ limit.toList ++ offset.toList, n.toNat < 2 ^ 63) ∧
      (∀ select : Select, select.limit = limit → select.offset = offset →
        (limit.isSome || offset.isSome) = true →
          ∃ front, select.tokens d = front ++ .symbol .newline :: pagination d limit offset) ∧
      ∀ (text : String) (count : UInt64), countOf (.value (.number text)) = .ok count →
        integer? text.toList = some (count.toNat : Int) := by
  have shown := numbersIn_pagination d limit offset
  refine ⟨shown, ?_, ?_, ?_⟩
  · rw [shown, List.map_inj_left, ← forall_countsShown_iff d]
    exact forall₂_congr fun n _ => asSigned_eq_iff n
  · rintro select rfl rfl paginated
    exact select.exists_tokens_eq d paginated
  · intro text count accepted
    rw [countOf] at accepted
    split at accepted
    next read =>
      cases accepted
      exact integer?_of_uint64? read
    next => cases accepted

/-- The greatest count, which asks for all rows, is accepted and written as a negative one. -/
theorem counts_keep_their_value_iff_greatest :
    let greatest : UInt64 := 18446744073709551615
    countOf (.value (.number "18446744073709551615")) = .ok greatest ∧
      integer? "18446744073709551615".toList = some 18446744073709551615 ∧
      numbersIn (Tokens.text .mySql (pagination .mySql (some greatest) none)) = [-1] ∧
      (∃ front, ({ limit := some greatest } : Select).tokens .mySql =
        front ++ .symbol .newline :: pagination .mySql (some greatest) none) ∧
      numbersIn (Tokens.text .tSql (pagination .tSql (some 10) (some 20))) = [20, 10] := by
  have accepted : countOf (.value (.number "18446744073709551615")) =
      .ok 18446744073709551615 := by decide +kernel
  obtain ⟨shown, -, ends, reads⟩ :=
    counts_keep_their_value_iff .mySql (some 18446744073709551615) none
  have kept := (counts_keep_their_value_iff .tSql (some 10) (some 20)).2.1
  exact ⟨accepted, reads _ _ accepted, shown.trans (by decide +kernel), ends _ rfl rfl rfl,
    (kept.2 (by simp)).trans (by decide)⟩

end Sql

end SemanticLayer
