import SemanticLayer.Number.Integer
import Mathlib.Algebra.Group.Nat.Defs
import Mathlib.Data.List.Induction

/-!
# Numerals

The decimal text of a whole number holds digits only and reads back as the number, and no other text
without a needless zero does.
-/

namespace SemanticLayer

namespace Number

theorem natText_of_lt {n : Nat} (small : n < 10) : natText n = [Nat.digitChar n] :=
  Nat.toDigits_of_lt_base small

theorem natText_of_le {n : Nat} (large : 10 ≤ n) :
    natText n = natText (n / 10) ++ [Nat.digitChar (n % 10)] :=
  Nat.toDigits_of_base_le (by decide) large

theorem digitsValue_natText (n : Nat) : digitsValue (natText n) = n :=
  Nat.ofDigitChars_ten_toDigits

theorem natText_ne_nil (n : Nat) : natText n ≠ [] :=
  Nat.toDigits_ne_nil

theorem all_isDigit_natText (n : Nat) : (natText n).all Char.isDigit = true := by
  rw [List.all_eq_true]
  intro c found
  exact Nat.isDigit_of_mem_toDigits (by decide) (by decide) found

theorem natural?_natText (n : Nat) : natural? (natText n) = some n := by
  rw [natural?, if_pos ⟨natText_ne_nil n, all_isDigit_natText n⟩, digitsValue_natText]

theorem unsigned_natText (n : Nat) : ∀ c ∈ (natText n).head?, c ≠ '-' ∧ c ≠ '+' := by
  intro c found
  have digit : c.isDigit = true :=
    List.all_eq_true.mp (all_isDigit_natText n) c (List.mem_of_mem_head? found)
  constructor <;>
    · rintro rfl
      cases digit

theorem integer?_natText (n : Nat) : integer? (natText n) = some (n : Int) := by
  have unsigned := unsigned_natText n
  have read := natural?_natText n
  revert unsigned read
  cases natText n with
  | nil => exact fun _ read => by cases read
  | cons c rest =>
      intro unsigned read
      obtain ⟨noMinus, noPlus⟩ := unsigned c rfl
      unfold integer?
      split
      next same => exact absurd (List.cons.inj same).1 noMinus
      next same => exact absurd (List.cons.inj same).1 noPlus
      next =>
        rw [read]
        rfl

/-- The digits of a number that a signed word holds read back as the word. -/
theorem int64?_natText {n : Nat} (small : (n : Int) ≤ maxSigned) :
    int64? (natText n) = some (Int64.ofInt n) := by
  have low : minSigned ≤ (n : Int) := Int.le_trans (by decide) (Int.natCast_nonneg n)
  rw [int64?, integer?_natText, Option.bind_some, if_pos ⟨low, small⟩]

/-- The digits of a number that an unsigned word holds read back as the word. -/
theorem uint64?_natText {n : Nat} (small : n ≤ maxUnsigned) :
    uint64? (natText n) = some (UInt64.ofNat n) := by
  have unsigned := unsigned_natText n
  have read := natural?_natText n
  revert unsigned read
  cases natText n with
  | nil => exact fun _ read => by cases read
  | cons c rest =>
      intro unsigned read
      obtain ⟨-, noPlus⟩ := unsigned c rfl
      unfold uint64?
      split
      next same => exact absurd (List.cons.inj same).1 noPlus
      next =>
        simp only []
        rw [read, Option.bind_some, if_pos small]

/-- An unsigned word that a signed one holds stays the number it is. -/
theorem toInt_toInt64 {n : UInt64} (small : n.toNat < 2 ^ 63) :
    n.toInt64.toInt = Int.ofNat n.toNat := by
  have below : 2 * n.toBitVec.toNat < 2 ^ 64 := by
    show 2 * n.toNat < 2 ^ 64
    omega
  show n.toBitVec.toInt = Int.ofNat n.toNat
  rw [BitVec.toInt_eq_toNat_of_lt below]
  rfl

/-- The decimal digits of a positive number do not start with a zero. -/
theorem natText_head?_ne_zero {n : Nat} (positive : 0 < n) : (natText n).head? ≠ some '0' := by
  induction n using Nat.strongRecOn with
  | ind n ih =>
      rcases Nat.lt_or_ge n 10 with small | large
      · rw [natText_of_lt small]
        have digits : ∀ m < 10, 0 < m → Nat.digitChar m ≠ '0' := by decide
        simpa using digits n small positive
      · have shorter := ih (n / 10) (by omega) (by omega)
        obtain ⟨c, rest, digits⟩ := List.exists_cons_of_ne_nil (natText_ne_nil (n / 10))
        rw [natText_of_le large]
        rw [digits] at shorter ⊢
        exact shorter

theorem digitsValue_append_singleton (digits : List Char) (c : Char) :
    digitsValue (digits ++ [c]) = 10 * digitsValue digits + (c.toNat - '0'.toNat) := by
  rw [digitsValue, List.foldl_append]
  rfl

/-- A digit is written for the value it has. -/
theorem digitChar_of_isDigit {c : Char} (digit : c.isDigit = true) :
    c.toNat - '0'.toNat < 10 ∧ Nat.digitChar (c.toNat - '0'.toNat) = c := by
  simp only [Char.isDigit, Bool.and_eq_true, decide_eq_true_eq, ge_iff_le] at digit
  have low : 48 ≤ c.toNat := digit.1
  have high : c.toNat ≤ 57 := digit.2
  have zero : '0'.toNat = 48 := rfl
  have small : c.toNat - '0'.toNat < 10 := by omega
  refine ⟨small, Char.toNat_inj.1 ?_⟩
  rw [Nat.toNat_digitChar_of_lt_ten small]
  omega

theorem digitsValue_pos {digits : List Char} (nonempty : digits ≠ [])
    (all : digits.all Char.isDigit = true) (lead : digits.head? ≠ some '0') :
    0 < digitsValue digits := by
  induction digits using List.reverseRecOn with
  | nil => exact absurd rfl nonempty
  | append_singleton front c ih =>
      rw [digitsValue_append_singleton]
      rw [List.all_append, Bool.and_eq_true] at all
      cases front with
      | nil =>
          have digit : c.isDigit = true := by simpa using all.2
          have value := (digitChar_of_isDigit digit).2
          rcases Nat.eq_zero_or_pos (c.toNat - '0'.toNat) with zero | positive
          · rw [zero] at value
            exact absurd (congrArg some value.symm) lead
          · exact Nat.add_pos_right _ positive
      | cons first rest =>
          have positive := ih (by simp) all.1 (by simpa using lead)
          omega

/-- Digits without a needless zero in front are the decimal digits of their value. -/
theorem natText_digitsValue {digits : List Char} (nonempty : digits ≠ [])
    (all : digits.all Char.isDigit = true) (lead : digits.head? = some '0' → digits = ['0']) :
    natText (digitsValue digits) = digits := by
  induction digits using List.reverseRecOn with
  | nil => exact absurd rfl nonempty
  | append_singleton front c ih =>
      rw [List.all_append, Bool.and_eq_true] at all
      have digit : c.isDigit = true := by simpa using all.2
      obtain ⟨small, written⟩ := digitChar_of_isDigit digit
      rw [digitsValue_append_singleton]
      cases front with
      | nil =>
          rw [natText_of_lt (by simpa [digitsValue] using small)]
          simpa [digitsValue] using written
      | cons first rest =>
          have unpadded : (first :: rest).head? ≠ some '0' := by
            intro zero
            simpa using lead (by simpa using zero)
          have positive := digitsValue_pos (by simp) all.1 unpadded
          rw [natText_of_le (by omega), show (10 * digitsValue (first :: rest) +
            (c.toNat - '0'.toNat)) / 10 = digitsValue (first :: rest) by omega,
            ih (by simp) all.1 (fun zero => absurd zero unpadded),
            show (10 * digitsValue (first :: rest) + (c.toNat - '0'.toNat)) % 10 =
              c.toNat - '0'.toNat by omega, written]

/-- A negative number is written as a minus sign and its opposite. -/
theorem intText_of_neg {n : Int} (negative : n < 0) : intText n = "-" ++ intText (-n) := by
  cases n with
  | ofNat n => exact absurd negative (Int.not_lt.2 (Int.natCast_nonneg n))
  | negSucc n =>
      rw [Int.neg_negSucc]
      show String.ofList ('-' :: natText (n + 1)) = "-" ++ String.ofList (natText (n + 1))
      simp

/-- The text of a whole number reads back as the number. -/
theorem integer?_intText (n : Int) : integer? (intText n).toList = some n := by
  cases n with
  | ofNat n =>
      rw [intText, String.toList_ofList]
      exact integer?_natText n
  | negSucc n =>
      rw [intText, String.toList_ofList, integer?, natural?_natText]
      rfl

theorem integer?_of_isDigit {c : Char} (digit : c.isDigit = true) (rest : List Char) :
    integer? (c :: rest) = (natural? (c :: rest)).map Int.ofNat := by
  unfold integer?
  split
  next same => cases (List.cons.inj same).1 ▸ digit
  next same => cases (List.cons.inj same).1 ▸ digit
  next => rfl

theorem digitsValue_append (front back : List Char) :
    digitsValue (front ++ back) = 10 ^ back.length * digitsValue front + digitsValue back :=
  (Nat.ofDigitChars_append 0).trans (Nat.ofDigitChars_eq_ofDigitChars_zero ..)

theorem digitsValue_zeros (count : Nat) : digitsValue (List.replicate count '0') = 0 :=
  Nat.ofDigitChars_replicate_zero

theorem all_isDigit_zeros (count : Nat) : (List.replicate count '0').all Char.isDigit = true := by
  rw [List.all_eq_true]
  intro c found
  rw [List.eq_of_mem_replicate found]
  decide

end Number

end SemanticLayer
