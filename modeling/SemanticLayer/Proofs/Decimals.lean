import SemanticLayer.Proofs.Numerals
import SemanticLayer.Proofs.Shortest
import SemanticLayer.Proofs.Spelling

/-!
# Decimal texts

The digits of a floating-point number are laid out with a point among them or with an exponent
behind them, so its text is never that of a whole number. Either way they keep their value, and the
text of a finite number is read as the number.
-/

namespace SemanticLayer

namespace Number

open Grammar.Lexeme (IsExponent IsFraction span_digits)

/-! ## Parts of a decimal -/

namespace Decimal

theorem splitSign_cons {c : Char} (minus : c ≠ '-') (plus : c ≠ '+') (rest : List Char) :
    splitSign (c :: rest) = (false, c :: rest) := by
  unfold splitSign
  split
  next same => exact absurd (List.cons.inj same).1 minus
  next same => exact absurd (List.cons.inj same).1 plus
  next => rfl

theorem splitSign_of_isDigit {c : Char} (digit : c.isDigit = true) (rest : List Char) :
    splitSign (c :: rest) = (false, c :: rest) :=
  splitSign_cons (by rintro rfl; cases digit) (by rintro rfl; cases digit) rest

theorem head_of_exponent? {ending : List Char} {power : Int}
    (read : exponent? ending = some power) : ∀ c ∈ ending.head?, c = 'e' ∨ c = 'E' := by
  cases ending with
  | nil => simp
  | cons c rest =>
      rw [exponent?] at read
      split_ifs at read with letter
      simpa using letter

theorem head_not_isDigit {ending : List Char} {power : Int}
    (read : exponent? ending = some power) : ∀ c ∈ ending.head?, c.isDigit = false := by
  intro c found
  rcases head_of_exponent? read c found with rfl | rfl <;> decide

/-- Digits with a point among them and an exponent behind them are a decimal. -/
theorem unsigned?_pointed {whole fraction ending : List Char} {power : Int}
    (nonempty : whole ≠ [] ∨ fraction ≠ []) (all : whole.all Char.isDigit = true)
    (decimals : fraction.all Char.isDigit = true) (read : exponent? ending = some power)
    (negative : Bool) :
    unsigned? negative (whole ++ '.' :: (fraction ++ ending)) =
      some ⟨negative, digitsValue (whole ++ fraction), power - fraction.length⟩ := by
  obtain ⟨taken, dropped⟩ := span_digits all
    (by simp : ∀ c ∈ ('.' :: (fraction ++ ending)).head?, c.isDigit = false)
  obtain ⟨takenMore, droppedMore⟩ := span_digits decimals (head_not_isDigit read)
  simp only [unsigned?, taken, dropped, takenMore, droppedMore,
    if_neg (not_and_or.2 nonempty), read, Option.map_some]

/-- Digits with an exponent behind them are a decimal. -/
theorem unsigned?_plain {whole ending : List Char} {power : Int} (nonempty : whole ≠ [])
    (all : whole.all Char.isDigit = true) (read : exponent? ending = some power)
    (negative : Bool) :
    unsigned? negative (whole ++ ending) = some ⟨negative, digitsValue whole, power⟩ := by
  obtain ⟨taken, dropped⟩ := span_digits all (head_not_isDigit read)
  unfold unsigned?
  simp only [taken, dropped]
  split
  · rename_i more
    rcases head_of_exponent? read '.' rfl with letter | letter <;> cases letter
  · rw [if_neg (fun empty => nonempty empty.1), read, List.append_nil]
    simp

end Decimal

/-! ## Texts with a point or an exponent -/

/-- A text of digits with a point among them or an exponent behind them, and the decimal that it
stands for. -/
inductive Spelled : List Char → Nat → Int → Prop where
  | pointed {whole fraction ending : List Char} {power : Int} (nonempty : whole ≠ [])
      (all : whole.all Char.isDigit = true) (decimals : fraction.all Char.isDigit = true)
      (isExponent : IsExponent ending) (read : Decimal.exponent? ending = some power) :
      Spelled (whole ++ '.' :: (fraction ++ ending)) (digitsValue (whole ++ fraction))
        (power - fraction.length)
  | scientific {whole ending : List Char} {power : Int} (nonempty : whole ≠ [])
      (all : whole.all Char.isDigit = true) (isExponent : IsExponent ending) (ends : ending ≠ [])
      (read : Decimal.exponent? ending = some power) :
      Spelled (whole ++ ending) (digitsValue whole) power

namespace Spelled

variable {chars : List Char} {digits : Nat} {exponent : Int}

theorem isNumber (spelled : Spelled chars digits exponent) : Sql.IsNumber chars := by
  cases spelled with
  | pointed nonempty all decimals isExponent read =>
      exact ⟨_, '.' :: _, _, by simp, nonempty, all, .inr ⟨_, rfl, decimals⟩, isExponent⟩
  | scientific nonempty all isExponent ends read =>
      exact ⟨_, [], _, by simp, nonempty, all, .inl rfl, isExponent⟩

/-- Such a text is read as its decimal. -/
theorem unsigned? (spelled : Spelled chars digits exponent) (negative : Bool) :
    Decimal.unsigned? negative chars = some ⟨negative, digits, exponent⟩ := by
  cases spelled with
  | pointed nonempty all decimals isExponent read =>
      exact Decimal.unsigned?_pointed (.inl nonempty) all decimals read negative
  | scientific nonempty all isExponent ends read =>
      exact Decimal.unsigned?_plain nonempty all read negative

/-- Such a text holds a character that is no digit. -/
theorem not_all_isDigit (spelled : Spelled chars digits exponent) :
    chars.all Char.isDigit = false := by
  cases spelled with
  | pointed => simp
  | scientific nonempty all isExponent ends read =>
      obtain ⟨c, more, rfl⟩ := List.exists_cons_of_ne_nil ends
      rcases Decimal.head_of_exponent? read c rfl with rfl | rfl <;> simp

/-- Such a text starts with a digit. -/
theorem exists_digit (spelled : Spelled chars digits exponent) :
    ∃ c rest, chars = c :: rest ∧ c.isDigit = true := by
  cases spelled with
  | pointed nonempty all decimals isExponent read =>
      obtain ⟨c, more, rfl⟩ := List.exists_cons_of_ne_nil nonempty
      exact ⟨c, _, rfl, List.all_eq_true.1 all c (.head _)⟩
  | scientific nonempty all isExponent ends read =>
      obtain ⟨c, more, rfl⟩ := List.exists_cons_of_ne_nil nonempty
      exact ⟨c, _, rfl, List.all_eq_true.1 all c (.head _)⟩

end Spelled

/-! ## Laying out digits -/

namespace Binary64

/-- Digits and a power of ten with a point or an exponent. -/
def layout (digits : Nat) (exponent : Int) : List Char :=
  let chars := natText digits
  let place := exponent + chars.length
  if 0 ≤ exponent ∧ place ≤ 16 then
    chars ++ List.replicate exponent.toNat '0' ++ ['.', '0']
  else if 0 < place ∧ place ≤ 16 then
    chars.take place.toNat ++ '.' :: chars.drop place.toNat
  else if -5 < place ∧ place ≤ 0 then
    '0' :: '.' :: List.replicate (-place).toNat '0' ++ chars
  else
    let head := chars.take 1
    let tail := chars.drop 1
    head ++ (if tail = [] then [] else '.' :: tail) ++ 'e' :: (intText (place - 1)).toList

theorem isNaN_of_isFinite {x : Binary64} (finite : x.isFinite = true) : x.isNaN = false := by
  rw [isNaN, Bool.and_eq_false_iff]
  exact .inl (by simpa [isFinite] using finite)

theorem text_of_isZero {x : Binary64} (finite : x.isFinite = true) (zero : x.isZero = true) :
    x.text = (if x.isNegative then "-" else "") ++ "0.0" := by
  rw [text, isNaN_of_isFinite finite, finite, zero]
  rfl

/-- The text of a finite number other than zero is its sign and its digits. -/
theorem text_eq_layout {x : Binary64} (finite : x.isFinite = true) (some : x.isZero = false) :
    x.text = (if x.isNegative then "-" else "") ++
      String.ofList (layout x.shortest.1 x.shortest.2) := by
  rw [text, isNaN_of_isFinite finite, finite, some]
  rfl

theorem isExponent_intText (n : Int) : IsExponent ('e' :: (intText n).toList) := by
  cases n with
  | ofNat n =>
      rw [intText, String.toList_ofList]
      exact .inr ⟨[], natText n, rfl, .inl rfl, natText_ne_nil n, all_isDigit_natText n⟩
  | negSucc n =>
      rw [intText, String.toList_ofList]
      exact .inr ⟨['-'], natText (n + 1), rfl, .inr rfl, natText_ne_nil _, all_isDigit_natText _⟩

theorem exponent?_intText (n : Int) : Decimal.exponent? ('e' :: (intText n).toList) = some n := by
  rw [Decimal.exponent?, if_pos (.inl rfl), integer?_intText]

theorem spelled_point {whole fraction : List Char} (nonempty : whole ≠ [])
    (all : whole.all Char.isDigit = true) (decimals : fraction.all Char.isDigit = true) :
    Spelled (whole ++ '.' :: fraction) (digitsValue (whole ++ fraction)) (-fraction.length) := by
  have spelled := Spelled.pointed nonempty all decimals (.inl rfl)
    (rfl : Decimal.exponent? [] = some 0)
  rwa [List.append_nil, zero_sub] at spelled

/-- Zeros behind the digits of a decimal make up for a lesser power of ten. -/
theorem shifted_value {read digits : Nat} {power exponent : Int} (zeros : Nat)
    (same : read = digits * 10 ^ zeros) (place : exponent = power + zeros) :
    (read * 10 ^ power : ℚ) = digits * 10 ^ exponent := by
  rw [same, place, zpow_add₀ (by norm_num), zpow_natCast]
  push_cast
  ring

/-- The digits keep their value. -/
theorem exists_spelled_layout (digits : Nat) (exponent : Int) :
    ∃ read power, Spelled (layout digits exponent) read power ∧
      (read * 10 ^ power : ℚ) = digits * 10 ^ exponent := by
  have all := all_isDigit_natText digits
  have nonempty := natText_ne_nil digits
  have value := digitsValue_natText digits
  unfold layout
  dsimp only
  generalize natText digits = chars at all nonempty value ⊢
  subst value
  have some : 0 < chars.length := List.length_pos_iff.2 nonempty
  have front : ∀ count, (chars.take count).all Char.isDigit = true := fun count =>
    List.all_eq_true.2 fun c found => List.all_eq_true.1 all c (List.mem_of_mem_take found)
  have back : ∀ count, (chars.drop count).all Char.isDigit = true := fun count =>
    List.all_eq_true.2 fun c found => List.all_eq_true.1 all c (List.mem_of_mem_drop found)
  split_ifs with plain point small single
  · have whole : (chars ++ List.replicate exponent.toNat '0').all Char.isDigit = true := by
      rw [List.all_append, all, all_isDigit_zeros]
      rfl
    have zero : digitsValue ['0'] = 0 := digitsValue_zeros 1
    refine ⟨_, _, spelled_point (by simp [nonempty]) whole (by decide), ?_⟩
    refine shifted_value (exponent.toNat + 1) ?_ ?_
    · rw [digitsValue_append, digitsValue_append, digitsValue_zeros, zero, List.length_replicate,
        List.length_singleton, pow_succ]
      ring
    · rw [List.length_singleton]
      omega
  · have whole : chars.take (exponent + chars.length).toNat ≠ [] := by
      rw [← List.length_pos_iff, List.length_take]
      omega
    refine ⟨_, _, spelled_point whole (front _) (back _), shifted_value 0 ?_ ?_⟩
    · rw [List.take_append_drop, pow_zero, mul_one]
    · rw [List.length_drop]
      omega
  · have fraction : (List.replicate (-(exponent + chars.length)).toNat '0' ++ chars).all
        Char.isDigit = true := by
      rw [List.all_append, all, all_isDigit_zeros]
      rfl
    have zero : digitsValue ['0'] = 0 := digitsValue_zeros 1
    rw [List.cons_append, List.cons_append]
    refine ⟨_, _, spelled_point (List.cons_ne_nil '0' []) (by decide) fraction,
      shifted_value 0 ?_ ?_⟩
    · rw [digitsValue_append, digitsValue_append, digitsValue_zeros, zero, pow_zero]
      ring
    · rw [List.length_append, List.length_replicate]
      omega
  · have alone : chars.length = 1 := by
      have none := congrArg List.length single
      rw [List.length_drop, List.length_nil] at none
      omega
    rw [List.append_nil, List.take_of_length_le alone.le]
    refine ⟨_, _, Spelled.scientific nonempty all (isExponent_intText _) (List.cons_ne_nil _ _)
      (exponent?_intText _), shifted_value 0 (by rw [pow_zero, mul_one]) ?_⟩
    omega
  · have whole : chars.take 1 ≠ [] := by
      rw [← List.length_pos_iff, List.length_take]
      omega
    rw [List.append_assoc, List.cons_append]
    refine ⟨_, _, Spelled.pointed whole (front 1) (back 1) (isExponent_intText _)
      (exponent?_intText _), shifted_value 0 ?_ ?_⟩
    · rw [List.take_append_drop, pow_zero, mul_one]
    · rw [List.length_drop]
      omega

/-! ## Texts of numbers -/

theorem isZero_iff (x : Binary64) : x.isZero = true ↔ x.significand = 0 := by
  rw [isZero, Bool.and_eq_true, beq_iff_eq, beq_iff_eq, significand]
  by_cases low : x.exponentField = 0
  · rw [if_pos low]
    exact and_iff_right low
  · rw [if_neg low]
    exact iff_of_false (fun zero => low zero.1) (by omega)

/-- The text of a finite number is its sign and a decimal that is rounded to it. -/
theorem exists_spelled_text {x : Binary64} (finite : x.isFinite = true) :
    ∃ chars digits exponent,
      x.text.toList = (if x.isNegative then ['-'] else []) ++ chars ∧
      Spelled chars digits exponent ∧ RoundsTo (digits * 10 ^ exponent) x.pattern := by
  have sign : (if x.isNegative then "-" else "").toList = if x.isNegative then ['-'] else [] := by
    split_ifs <;> rfl
  by_cases zero : x.isZero = true
  · have nothing : x.pattern = 0 := by
      have none := x.isZero_iff.1 zero
      rw [isZero, Bool.and_eq_true, beq_iff_eq] at zero
      rw [pattern_eq, none, zero.1]
      rfl
    refine ⟨['0', '.', '0'], _, _, ?_, spelled_point (List.cons_ne_nil '0' []) (by decide)
      (by decide : ['0'].all Char.isDigit = true), ?_⟩
    · rw [text_of_isZero finite zero, String.toList_append, sign]
      rfl
    · have none : digitsValue (['0'] ++ ['0']) = 0 := digitsValue_zeros 2
      rw [nothing, none, Nat.cast_zero, zero_mul]
      exact roundsTo_zero
  · have positive : 0 < x.significand := Nat.pos_of_ne_zero (mt x.isZero_iff.2 zero)
    obtain ⟨digits, exponent, spelled, value⟩ :=
      exists_spelled_layout x.shortest.1 x.shortest.2
    refine ⟨_, digits, exponent, ?_, spelled, ?_⟩
    · rw [text_eq_layout finite (Bool.eq_false_iff.2 zero), String.toList_append, sign,
        String.toList_ofList]
    · rw [value]
      exact roundsTo_shortest finite positive

/-- The text of a finite number is read as a decimal that stands for the number. -/
theorem ofText?_text {x : Binary64} (finite : x.isFinite = true) :
    ∃ d, Decimal.ofText? x.text.toList = some d ∧ d.toBinary64 = x := by
  obtain ⟨chars, digits, exponent, same, spelled, rounds⟩ := exists_spelled_text finite
  refine ⟨⟨x.isNegative, digits, exponent⟩, ?_, Decimal.toBinary64_eq rfl rounds⟩
  have split : Decimal.splitSign x.text.toList = (x.isNegative, chars) := by
    rw [same]
    cases x.isNegative with
    | true => rfl
    | false =>
        obtain ⟨c, rest, rfl, digit⟩ := spelled.exists_digit
        exact Decimal.splitSign_of_isDigit digit rest
  rw [Decimal.ofText?, split]
  exact spelled.unsigned? x.isNegative

/-- The text of a finite number is not that of a whole number. -/
theorem integer?_text {x : Binary64} (finite : x.isFinite = true) :
    integer? x.text.toList = none := by
  obtain ⟨chars, digits, exponent, same, spelled, -⟩ := exists_spelled_text finite
  have notDigits : natural? chars = none := by
    rw [natural?, spelled.not_all_isDigit]
    exact if_neg (by simp)
  rw [same]
  cases x.isNegative with
  | true =>
      rw [if_pos rfl, List.singleton_append, integer?, notDigits]
      rfl
  | false =>
      obtain ⟨c, rest, rfl, digit⟩ := spelled.exists_digit
      rw [if_neg Bool.false_ne_true, List.nil_append, integer?_of_isDigit digit, notDigits,
        Option.map_none]

end Binary64

end Number

end SemanticLayer
