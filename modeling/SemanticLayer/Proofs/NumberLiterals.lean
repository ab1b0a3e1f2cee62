import SemanticLayer.Planner.Filter
import SemanticLayer.Proofs.CallNames
import SemanticLayer.Proofs.Decimals
import SemanticLayer.Proofs.Shapes
import SemanticLayer.Sql.Query
import SemanticLayer.Sql.Reading

/-!
# Numbers that are kept

A number in SQL or in a filter is an integer if it is a whole number that a signed word holds, and
the nearest floating-point number otherwise. So whole numbers beyond a word are rounded like the
others. What is too large for any floating-point number is refused in a filter, but in SQL it is
read as infinite and written as a missing value.
-/

namespace SemanticLayer

open Number Planner

/-! ## Texts of decimals -/

namespace Number.Decimal

theorem all_isNumberChar_of_isDigit {digits : List Char} (all : digits.all Char.isDigit = true) :
    digits.all Filter.isNumberChar = true := by
  rw [List.all_eq_true] at all ⊢
  intro c found
  simp [Filter.isNumberChar, all c found]

theorem takeWhile_all_isNumberChar (chars : List Char) :
    (chars.takeWhile Char.isDigit).all Filter.isNumberChar = true :=
  all_isNumberChar_of_isDigit List.all_takeWhile

theorem all_isNumberChar_of_natural? {chars : List Char} {n : Nat}
    (read : natural? chars = some n) : chars.all Filter.isNumberChar = true := by
  unfold natural? at read
  split_ifs at read with digits
  exact all_isNumberChar_of_isDigit digits.2

theorem all_isNumberChar_of_splitSign {chars : List Char}
    (tail : (splitSign chars).2.all Filter.isNumberChar = true) :
    chars.all Filter.isNumberChar = true := by
  unfold splitSign at tail
  split at tail
  · rw [List.all_cons, tail]
    rfl
  · rw [List.all_cons, tail]
    rfl
  · exact tail

/-- A whole number is digits behind a sign. -/
theorem integer?_eq (chars : List Char) :
    integer? chars = (natural? (splitSign chars).2).map fun n : Nat =>
      if (splitSign chars).1 then -(n : Int) else (n : Int) := by
  unfold integer?
  split
  next digits =>
    rw [splitSign]
    cases natural? digits <;> rfl
  next digits =>
    rw [splitSign]
    cases natural? digits <;> rfl
  next minus plus =>
    have unsigned : splitSign chars = (false, chars) := by
      unfold splitSign
      split
      next rest => exact absurd rfl (minus rest)
      next rest => exact absurd rfl (plus rest)
      next => rfl
    rw [unsigned]
    cases natural? chars <;> rfl

theorem splitSign_of_exponent? {ending : List Char} {power : Int}
    (read : exponent? ending = some power) : splitSign ending = (false, ending) := by
  cases ending with
  | nil => rfl
  | cons c rest =>
      rcases head_of_exponent? read c rfl with rfl | rfl <;>
        exact splitSign_cons (by decide) (by decide) rest

theorem ofText?_of_digits {whole tail : List Char} (all : whole.all Char.isDigit = true)
    (unsigned : splitSign tail = (false, tail)) :
    ofText? (whole ++ tail) = unsigned? false (whole ++ tail) := by
  have split : splitSign (whole ++ tail) = (false, whole ++ tail) := by
    cases whole with
    | nil => exact unsigned
    | cons c rest => exact splitSign_of_isDigit (List.all_eq_true.1 all c (.head _)) _
  rw [ofText?, split]

theorem integer?_signed {sign digits : List Char} (isSign : sign = [] ∨ sign = ['-'] ∨ sign = ['+'])
    (nonempty : digits ≠ []) (all : digits.all Char.isDigit = true) :
    ∃ n, integer? (sign ++ digits) = some n := by
  have split : (splitSign (sign ++ digits)).2 = digits := by
    rcases isSign with rfl | rfl | rfl
    · obtain ⟨c, rest, rfl⟩ := List.exists_cons_of_ne_nil nonempty
      rw [List.nil_append, splitSign_of_isDigit (List.all_eq_true.1 all c (.head _))]
    · rfl
    · rfl
  rw [integer?_eq, split, natural?, if_pos ⟨nonempty, all⟩]
  exact ⟨_, rfl⟩

theorem all_isNumberChar_of_integer? {chars : List Char} {n : Int}
    (read : integer? chars = some n) : chars.all Filter.isNumberChar = true := by
  rw [integer?_eq] at read
  obtain ⟨value, digits, -⟩ := Option.map_eq_some_iff.1 read
  exact all_isNumberChar_of_splitSign (all_isNumberChar_of_natural? digits)

theorem all_isNumberChar_of_exponent? {chars : List Char} {n : Int}
    (read : exponent? chars = some n) : chars.all Filter.isNumberChar = true := by
  cases chars with
  | nil => rfl
  | cons c rest =>
      rw [exponent?] at read
      split_ifs at read with letter
      have tail := all_isNumberChar_of_integer? read
      rw [List.all_cons, tail]
      rcases letter with rfl | rfl <;> rfl

theorem all_isNumberChar_of_unsigned? {chars : List Char} {negative : Bool} {d : Decimal}
    (read : unsigned? negative chars = some d) : chars.all Filter.isNumberChar = true := by
  rw [← List.takeWhile_append_dropWhile (p := Char.isDigit) (l := chars), List.all_append,
    takeWhile_all_isNumberChar]
  unfold unsigned? at read
  dsimp only at read
  split_ifs at read with empty
  obtain ⟨power, ending, -⟩ := Option.map_eq_some_iff.1 read
  have tail := all_isNumberChar_of_exponent? ending
  revert tail
  split
  · rename_i more point
    intro tail
    rw [point, List.all_cons, ← List.takeWhile_append_dropWhile (p := Char.isDigit) (l := more),
      List.all_append, takeWhile_all_isNumberChar, tail]
    rfl
  · exact fun tail => tail

/-- The text of a decimal holds nothing but the characters of numbers. -/
theorem all_isNumberChar_of_ofText? {chars : List Char} {d : Decimal}
    (read : ofText? chars = some d) : chars.all Filter.isNumberChar = true :=
  all_isNumberChar_of_splitSign (all_isNumberChar_of_unsigned? read)

/-- Digits are a decimal. -/
theorem unsigned?_of_natural? {chars : List Char} {n : Nat} (read : natural? chars = some n)
    (negative : Bool) : unsigned? negative chars = some ⟨negative, n, 0⟩ := by
  unfold natural? at read
  split_ifs at read with digits
  cases read
  have plain := unsigned?_plain digits.1 digits.2 (rfl : exponent? [] = some 0) negative
  rwa [List.append_nil] at plain

/-- A whole number is a decimal with its value. -/
theorem ofText?_of_integer? {chars : List Char} {n : Int} (read : integer? chars = some n) :
    ∃ d, ofText? chars = some d ∧ d.value = n := by
  rw [integer?_eq] at read
  obtain ⟨digits, found, rfl⟩ := Option.map_eq_some_iff.1 read
  refine ⟨⟨(splitSign chars).1, digits, 0⟩, unsigned?_of_natural? found _, ?_⟩
  rw [value, magnitude, zpow_zero, mul_one]
  split_ifs <;> simp

end Number.Decimal

/-! ## Characters of numbers -/

namespace Planner.Filter

theorem toNat_of_isNumberChar {c : Char} (number : isNumberChar c = true) : c.toNat < 0x80 := by
  simp only [isNumberChar, Bool.or_eq_true, beq_iff_eq] at number
  rcases number with ((((digit | rfl) | rfl) | rfl) | rfl) | rfl
  · have bounds := Text.toNat_of_isDigit digit
    omega
  all_goals decide

theorem isNumberChar_toLower {c : Char} (number : isNumberChar c = true) :
    isNumberChar c.toLower = true := by
  have all : ∀ n : Fin 0x80, isNumberChar (Char.ofNat n) = true →
      isNumberChar (Char.ofNat n).toLower = true := by decide
  have small := toNat_of_isNumberChar number
  have lower := all ⟨c.toNat, small⟩
  rw [Char.ofNat_toNat] at lower
  exact lower number

/-- A text of the characters of numbers is no word, in whatever case. -/
theorem lower_ne {chars : List Char} (numbers : chars.all isNumberChar = true) {word : String}
    (other : word.toList.all isNumberChar = false) :
    String.ofList (chars.map Char.toLower) ≠ word := by
  rintro rfl
  rw [String.toList_ofList, List.all_map, ← Bool.not_eq_true] at other
  refine other (List.all_eq_true.2 fun c found => ?_)
  exact isNumberChar_toLower (List.all_eq_true.1 numbers c found)

/-- A text of the characters of numbers is not in quotation marks. -/
theorem unquote?_of_numbers {chars : List Char} (numbers : chars.all isNumberChar = true)
    {quote : Char} (other : isNumberChar quote = false) : unquote? quote chars = none := by
  cases chars with
  | nil => rfl
  | cons c rest =>
      rw [unquote?, if_neg]
      rintro ⟨rfl, -⟩
      rw [List.all_cons, other] at numbers
      cases numbers

end Planner.Filter

/-! ## Numbers in SQL -/

namespace Grammar.Lexeme

variable {rules : Rules} {c : Char} {chars rest after : List Char} {text : String}

/-- A number is what a digit or a point starts. -/
theorem first?_number (found : first? rules c rest = some (.number text, after)) :
    (c.isDigit = true ∨ c = '.') ∧ ofDigits rules (c :: rest) = (.number text, after) := by
  unfold first? at found
  dsimp only at found
  split at found
  next => simp at found
  next =>
    split at found
    next => simp at found
    next =>
      split at found
      next => simp at found
      next =>
        split_ifs at found with double digits sign question starts dollar
        · simp at found
        · exact ⟨digits, Option.some.inj found⟩
        · split at found
          next => split_ifs at found <;> simp [ofWord] at found
          next => simp at found
        · simp at found
        · simp [ofWord] at found
        · unfold ofDollar? at found
          dsimp only at found
          split at found <;> simp at found
        · simp at found

theorem ofDigits_number (found : ofDigits rules chars = (.number text, after)) :
    (numberText chars).1 ≠ ['.'] ∧
      text = String.ofList ((numberText chars).1 ++ (numberText chars).2.1) := by
  unfold ofDigits at found
  dsimp only at found
  split_ifs at found with point hex tail word
  all_goals simp only [Prod.mk.injEq, reduceCtorEq, false_and, number.injEq] at found
  all_goals exact ⟨point, found.1.symm⟩

/-- The exponent of a number is the exponent of a decimal. -/
theorem exponent?_exponentText (chars : List Char) :
    ∃ power, Decimal.exponent? (exponentText chars).1 = some power := by
  cases chars with
  | nil => exact ⟨0, rfl⟩
  | cons c more =>
      rw [exponentText_cons]
      split
      next found =>
        rw [List.cons_append, Decimal.exponent?, if_pos found.1]
        refine Decimal.integer?_signed ?_ found.2 List.all_takeWhile
        unfold signText
        split <;> simp
      next => exact ⟨0, rfl⟩

/-- A number in SQL is the text of a decimal. -/
theorem ofText?_of_first? (found : first? rules c rest = some (.number text, after)) :
    ∃ d, Decimal.ofText? text.toList = some d := by
  obtain ⟨start, digits⟩ := first?_number found
  obtain ⟨point, rfl⟩ := ofDigits_number digits
  have whole : ((c :: rest).takeWhile Char.isDigit).all Char.isDigit = true := List.all_takeWhile
  rw [String.toList_ofList]
  unfold numberText at point ⊢
  dsimp only at point ⊢
  split
  next more behind =>
    obtain ⟨power, exponent⟩ := exponent?_exponentText (more.dropWhile Char.isDigit)
    rw [behind] at point
    have nonempty : (c :: rest).takeWhile Char.isDigit ≠ [] ∨ more.takeWhile Char.isDigit ≠ [] := by
      rw [← not_and_or]
      rintro ⟨noWhole, noDecimals⟩
      refine point ?_
      rw [noWhole]
      exact congrArg ('.' :: ·) noDecimals
    rw [List.append_assoc, List.cons_append]
    exact ⟨_, (Decimal.ofText?_of_digits whole rfl).trans
      (Decimal.unsigned?_pointed nonempty whole List.all_takeWhile exponent false)⟩
  next noPoint =>
    obtain ⟨power, exponent⟩ := exponent?_exponentText ((c :: rest).dropWhile Char.isDigit)
    have digit : c.isDigit = true := start.resolve_right fun isPoint => by
      subst isPoint
      exact noPoint rest rfl
    have nonempty : (c :: rest).takeWhile Char.isDigit ≠ [] := by simp [digit]
    rw [List.append_nil]
    exact ⟨_, (Decimal.ofText?_of_digits whole (Decimal.splitSign_of_exponent? exponent)).trans
      (Decimal.unsigned?_plain nonempty whole exponent false)⟩

end Grammar.Lexeme

/-! ## Reading numbers -/

theorem Number.int64?_eq_some_iff {chars : List Char} {value : Int64} :
    int64? chars = some value ↔ integer? chars = some value.toInt := by
  have low := value.le_toInt
  have high := value.toInt_lt
  rw [int64?, Option.bind_eq_some_iff]
  constructor
  · rintro ⟨n, read, fits⟩
    split_ifs at fits with range
    cases fits
    rw [read, Int64.toInt_ofInt_of_le]
    · exact range.1
    · exact Int.lt_add_one_of_le range.2
  · intro read
    refine ⟨_, read, ?_⟩
    rw [if_pos ⟨low, Int.le_of_lt_add_one high⟩, Int64.ofInt_toInt]

theorem Number.int64?_eq_none_iff {chars : List Char} :
    int64? chars = none ↔ ∀ n, integer? chars = some n → ¬(minSigned ≤ n ∧ n ≤ maxSigned) := by
  rw [int64?, Option.bind_eq_none_iff]
  simp only [ite_eq_right_iff, reduceCtorEq, imp_false]

/-- A decimal is no name of an infinity. -/
theorem Number.Binary64.ofText?_of_decimal {chars : List Char} {d : Decimal}
    (read : Decimal.ofText? chars = some d) : Binary64.ofText? chars = some d.toBinary64 := by
  have numbers : (Decimal.splitSign chars).2.all Filter.isNumberChar = true :=
    Decimal.all_isNumberChar_of_unsigned? read
  rw [Binary64.ofText?]
  dsimp only
  rw [if_neg (not_or.2 ⟨Filter.lower_ne numbers (by decide), Filter.lower_ne numbers (by decide)⟩),
    if_neg (Filter.lower_ne numbers (by decide))]
  exact congrArg (Option.map Decimal.toBinary64) read

/-- A decimal in SQL is an integer if a signed word holds it, and else the nearest number. -/
theorem Sql.numberOf_of_decimal {text : String} {d : Decimal}
    (read : Decimal.ofText? text.toList = some d) :
    Sql.numberOf text =
      .ok ((int64? text.toList).elim (.float d.toBinary64) Sql.Literal.int) := by
  rw [Sql.numberOf, Binary64.ofText?_of_decimal read]
  cases int64? text.toList <;> rfl

/-- The text of a finite number is not read as an integer. -/
theorem Number.Binary64.int64?_text {x : Binary64} (finite : x.isFinite = true) :
    int64? x.text.toList = none := by
  rw [int64?_eq_none_iff, integer?_text finite]
  simp

/-- Every finite number without a sign is written as one that is read as a number equal to it. -/
theorem Sql.readsAgain_of_isFinite {x : Binary64} (finite : x.isFinite = true)
    (unsigned : x.isNegative = false) : Sql.ReadsAgain x := by
  obtain ⟨chars, digits, exponent, same, spelled, -⟩ := Binary64.exists_spelled_text finite
  obtain ⟨d, read, again⟩ := Binary64.ofText?_text finite
  refine ⟨finite, ?_, x, ?_, ?_⟩
  · rw [same, unsigned]
    exact spelled.isNumber
  · rw [Sql.numberOf_of_decimal read, Binary64.int64?_text finite, again]
    rfl
  · simp [Binary64.equal, Binary64.isNaN_of_isFinite finite]

/-- A decimal in a filter is an integer if a signed word holds it, and else the nearest number if
that is finite. -/
theorem Planner.Filter.literal_of_decimal {raw : String} {d : Decimal}
    (read : Decimal.ofText? (Text.trim raw.toList) = some d) :
    Filter.literal raw =
      (int64? (Text.trim raw.toList)).elim
        (if d.toBinary64.isFinite then .ok (.float d.toBinary64) else .error (.invalidValue raw))
        fun n => .ok (.int n) := by
  have numbers := Decimal.all_isNumberChar_of_ofText? read
  have word : ∀ other : String, other.toList.all isNumberChar = false →
      Text.asciiLower (String.ofList (Text.trim raw.toList)) ≠ other := fun other letters => by
    rw [Text.asciiLower, String.toList_ofList]
    exact lower_ne numbers letters
  rw [literal, unquote?_of_numbers numbers (by decide), unquote?_of_numbers numbers (by decide)]
  dsimp only [Option.or]
  rw [if_neg (word "true" (by decide)), if_neg (word "false" (by decide)),
    if_neg (not_or.2 ⟨word "null" (by decide), word "none" (by decide)⟩), numbers, if_pos rfl, read]
  cases int64? (Text.trim raw.toList) <;> rfl

/-- The numbers of filters are decimals. -/
theorem Planner.Filter.ofText?_of_literal {raw : String} {value : Sql.Literal}
    (accepted : Filter.literal raw = .ok value)
    (number : (∃ n, value = .int n) ∨ (∃ x, value = .float x)) :
    ∃ d, Decimal.ofText? (Text.trim raw.toList) = some d := by
  cases word : int64? (Text.trim raw.toList) with
  | some n =>
      obtain ⟨d, read, -⟩ := Decimal.ofText?_of_integer? (int64?_eq_some_iff.1 word)
      exact ⟨d, read⟩
  | none =>
      unfold literal at accepted
      simp only [word] at accepted
      split at accepted
      next =>
        cases accepted
        simp at number
      next =>
        split_ifs at accepted
        · cases accepted
          simp at number
        · cases accepted
          simp at number
        · cases accepted
          simp at number
        · split at accepted
          next found =>
            obtain ⟨d, read, -⟩ := Option.map_eq_some_iff.1 found
            exact ⟨d, read⟩
          next => cases accepted
        · cases accepted

/-! ## What is kept -/

namespace Number.Decimal

theorem two_pow_lt_overflow : (2 : ℚ) ^ 63 < Binary64.overflow := by
  have upper : (2 : ℚ) ^ 1024 = 2 ^ 54 * 2 ^ 970 := pow_add 2 54 970
  have words : (2 : ℚ) ^ 63 ≤ 2 ^ 970 := pow_le_pow_right₀ (by norm_num) (by norm_num)
  rw [Binary64.overflow, upper]
  generalize (2 : ℚ) ^ 970 = unit at words ⊢
  linarith

/-- Whether what is written for the text of a decimal keeps its value: a whole number is written as
that number, and any other one as a decimal that is read as the nearest floating-point number. -/
def Keeps (chars : List Char) (d : Decimal) (written : String) : Prop :=
  (∀ n, integer? chars = some n → written = intText n) ∧
    (integer? chars = none → ∃ e, ofText? written.toList = some e ∧ d.Nearest e.toBinary64)

variable {chars : List Char} {d : Decimal}

/-- A missing value keeps nothing. -/
theorem not_keeps_missing : ¬ Keeps chars d "NULL" := by
  rintro ⟨whole, others⟩
  cases read : integer? chars with
  | none =>
      obtain ⟨e, missing, -⟩ := others read
      have noDecimal : ofText? "NULL".toList = none := by decide
      rw [noDecimal] at missing
      cases missing
  | some n =>
      have missing := integer?_intText n
      have noInteger : integer? "NULL".toList = none := by decide
      rw [← whole n read, noInteger] at missing
      cases missing

/-- What a signed word holds is no overflow. -/
theorem lt_overflow_of_integer? {n : Int} (read : ofText? chars = some d)
    (whole : integer? chars = some n) (low : minSigned ≤ n) (high : n ≤ maxSigned) :
    d.magnitude < Binary64.overflow := by
  obtain ⟨other, again, value⟩ := ofText?_of_integer? whole
  obtain rfl : other = d := Option.some.inj (again.symm.trans read)
  have least : |(n : ℚ)| ≤ 2 ^ 63 := by
    have bound : |n| ≤ 2 ^ 63 := by
      rw [abs_le]
      exact ⟨low, high.trans (by decide)⟩
    exact_mod_cast bound
  rw [← other.abs_value, value]
  exact least.trans_lt two_pow_lt_overflow

/-- A signed word is written as the number that it was read from. -/
theorem keeps_int {n : Int64} (whole : int64? chars = some n) :
    Keeps chars d (intText n.toInt) := by
  rw [int64?_eq_some_iff] at whole
  refine ⟨fun m read => ?_, fun none => ?_⟩
  · rw [whole] at read
    rw [Option.some.inj read]
  · rw [whole] at none
    cases none

/-- What is read as a floating-point number is kept if it is finite and was no whole number. -/
theorem keeps_float_iff (dialect : Dialect) :
    Keeps chars d ((Sql.Token.float d.toBinary64).text dialect) ↔
      d.toBinary64.isFinite = true ∧ integer? chars = none := by
  rw [Sql.Token.text]
  split_ifs with finite
  · rw [and_iff_right finite]
    refine ⟨fun keeps => ?_, fun none => ⟨fun n read => ?_, fun _ => ?_⟩⟩
    · by_contra some
      obtain ⟨n, read⟩ := Option.ne_none_iff_exists'.1 some
      have same := Binary64.integer?_text finite
      rw [keeps.1 n read, integer?_intText] at same
      cases same
    · rw [none] at read
      cases read
    · obtain ⟨e, read, same⟩ := Binary64.ofText?_text finite
      exact ⟨e, read, same ▸ nearest_toBinary64 finite⟩
  · exact iff_of_false not_keeps_missing fun both => finite both.1

theorem float_eq_missing_iff (dialect : Dialect) :
    (Sql.Token.float d.toBinary64).text dialect = "NULL" ↔ Binary64.overflow ≤ d.magnitude := by
  rw [Sql.Token.text, ← not_lt, ← isFinite_toBinary64_iff]
  split_ifs with finite
  · refine iff_of_false (fun missing => ?_) (not_not_intro finite)
    obtain ⟨e, read, -⟩ := Binary64.ofText?_text finite
    rw [missing] at read
    cases read
  · exact iff_of_true rfl finite

/-- A decimal is written as a missing value if it is too large for any finite number, and it is kept
if it is not and is no whole number beyond a signed word. -/
theorem written_of_decimal (read : ofText? chars = some d) (dialect : Dialect) :
    let written := ((int64? chars).elim (.float d.toBinary64) Sql.Literal.int).token.text dialect
    (written = "NULL" ↔ Binary64.overflow ≤ d.magnitude) ∧
      (d.Keeps chars written ↔ d.magnitude < Binary64.overflow ∧
        ∀ n, integer? chars = some n → minSigned ≤ n ∧ n ≤ maxSigned) := by
  cases word : int64? chars with
  | some n =>
      have whole := int64?_eq_some_iff.1 word
      have range : minSigned ≤ n.toInt ∧ n.toInt ≤ maxSigned :=
        ⟨n.le_toInt, Int.le_of_lt_add_one n.toInt_lt⟩
      have finite := lt_overflow_of_integer? read whole range.1 range.2
      have keeps : d.Keeps chars (intText n.toInt) := keeps_int word
      refine ⟨iff_of_false (fun missing => ?_) (not_le.2 finite), iff_of_true keeps ⟨finite, ?_⟩⟩
      · have same : intText n.toInt = "NULL" := missing
        rw [same] at keeps
        exact not_keeps_missing keeps
      · intro m same
        rw [whole] at same
        cases same
        exact range
  | none =>
      have beyond := int64?_eq_none_iff.1 word
      refine ⟨float_eq_missing_iff dialect, (keeps_float_iff dialect).trans ?_⟩
      rw [isFinite_toBinary64_iff]
      refine and_congr_right fun _ => ⟨fun none n read => ?_, fun fits => ?_⟩
      · rw [none] at read
        cases read
      · exact Option.eq_none_iff_forall_ne_some.2 fun n read => beyond n read (fits n read)

end Number.Decimal

namespace Planner

open Sql (Literal numberOf)

/-- Every number in SQL is a decimal. It is written as a missing value if it is too large for any
floating-point number, and its value is kept if it is not and is no whole number beyond a signed
word. The numbers of filters are the decimals that are not too large, and they are kept likewise. -/
theorem numbers_keep_their_value_iff (dialect : Dialect) (text : String) :
    (∀ (rules : Grammar.Rules) (c : Char) (rest behind : List Char),
      Grammar.Lexeme.first? rules c rest = some (.number text, behind) →
        ∃ d, Decimal.ofText? text.toList = some d) ∧
    (∀ d : Decimal, Decimal.ofText? text.toList = some d →
      ∃ value : Literal, numberOf text = .ok value ∧
        (value.token.text dialect = "NULL" ↔ Binary64.overflow ≤ d.magnitude) ∧
        (d.Keeps text.toList (value.token.text dialect) ↔ d.magnitude < Binary64.overflow ∧
          ∀ n, integer? text.toList = some n → minSigned ≤ n ∧ n ≤ maxSigned)) ∧
    (∀ d : Decimal, Decimal.ofText? (Text.trim text.toList) = some d →
      Binary64.overflow ≤ d.magnitude ∧ Filter.literal text = .error (.invalidValue text) ∨
      d.magnitude < Binary64.overflow ∧ ∃ value : Literal, Filter.literal text = .ok value ∧
        value.token.text dialect ≠ "NULL" ∧
        (d.Keeps (Text.trim text.toList) (value.token.text dialect) ↔
          ∀ n, integer? (Text.trim text.toList) = some n → minSigned ≤ n ∧ n ≤ maxSigned)) ∧
    ∀ value : Literal, Filter.literal text = .ok value →
      (∃ n, value = .int n) ∨ (∃ x, value = .float x) →
        ∃ d, Decimal.ofText? (Text.trim text.toList) = some d := by
  refine ⟨fun rules c rest behind found => Grammar.Lexeme.ofText?_of_first? found,
    fun d read => ⟨_, Sql.numberOf_of_decimal read, Decimal.written_of_decimal read dialect⟩,
    fun d read => ?_, fun value accepted number => Filter.ofText?_of_literal accepted number⟩
  have written := Decimal.written_of_decimal read dialect
  rw [Filter.literal_of_decimal read]
  by_cases finite : d.toBinary64.isFinite = true
  · have below := d.isFinite_toBinary64_iff.1 finite
    refine .inr ⟨below, (int64? (Text.trim text.toList)).elim (.float d.toBinary64) Literal.int,
      ?_, ?_, ?_⟩
    · rw [if_pos finite]
      cases int64? (Text.trim text.toList) <;> rfl
    · exact mt written.1.1 (not_le.2 below)
    · exact written.2.trans (and_iff_right below)
  · have beyond := not_lt.1 (mt d.isFinite_toBinary64_iff.2 finite)
    have word : int64? (Text.trim text.toList) = none := by
      refine int64?_eq_none_iff.2 fun n whole range => ?_
      exact absurd (Decimal.lt_overflow_of_integer? read whole range.1 range.2) (not_lt.2 beyond)
    exact .inl ⟨beyond, by rw [word, Option.elim_none, if_neg finite]⟩

theorem overflow_le_huge : Binary64.overflow ≤ Decimal.magnitude ⟨false, 1, 999⟩ :=
  calc Binary64.overflow
      ≤ 2 ^ 1024 := sub_le_self _ (by positivity)
    _ ≤ 10 ^ 999 := Decimal.two_pow_le_ten_pow (by decide +kernel)
    _ = Decimal.magnitude ⟨false, 1, 999⟩ := by rw [Decimal.magnitude, Nat.cast_one, one_mul]; rfl

/-- One followed by 999 zeros is read from SQL and written as a missing value, and refused in a
filter. Two and a half is kept. -/
theorem numbers_keep_their_value_iff_huge :
    (∃ d, Decimal.ofText? "1e999".toList = some d) ∧
      (∃ value, numberOf "1e999" = .ok value ∧ value.token.text .duckDb = "NULL") ∧
      Filter.literal "1e999" = .error (.invalidValue "1e999") ∧
      (∃ value, numberOf "2.50" = .ok value ∧
        Decimal.Keeps "2.50".toList ⟨false, 250, -2⟩ (value.token.text .duckDb)) ∧
      ∃ d, Decimal.ofText? (Text.trim " 7".toList) = some d := by
  have huge : Decimal.ofText? "1e999".toList = some ⟨false, 1, 999⟩ := by decide
  have half : Decimal.ofText? "2.50".toList = some ⟨false, 250, -2⟩ := by decide
  have small : Decimal.magnitude ⟨false, 250, -2⟩ < Binary64.overflow := by
    refine lt_trans ?_ Decimal.two_pow_lt_overflow
    norm_num [Decimal.magnitude]
  obtain ⟨lexed, sql, filter, -⟩ := numbers_keep_their_value_iff .duckDb "1e999"
  refine ⟨lexed .generic '1' "e999".toList [] (by decide), ?_, ?_, ?_, ?_⟩
  · obtain ⟨value, read, written, -⟩ := sql _ huge
    exact ⟨value, read, written.2 overflow_le_huge⟩
  · obtain ⟨-, refused⟩ | ⟨below, -⟩ := filter _ huge
    · exact refused
    · exact absurd below (not_lt.2 overflow_le_huge)
  · obtain ⟨value, read, -, kept⟩ := (numbers_keep_their_value_iff .duckDb "2.50").2.1 _ half
    refine ⟨value, read, kept.2 ⟨small, fun n whole => ?_⟩⟩
    have notWhole : integer? "2.50".toList = none := by decide
    rw [notWhole] at whole
    cases whole
  · exact (numbers_keep_their_value_iff .duckDb " 7").2.2.2 (.int 7) rfl (.inl ⟨7, rfl⟩)

end Planner

end SemanticLayer
