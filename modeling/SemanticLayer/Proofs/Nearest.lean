import SemanticLayer.Proofs.Rounding

/-!
# Nearest numbers

A decimal is read as the floating-point number nearest to its value, unless it lies beyond the
greatest of them by half of the last step or more: that is read as infinite. Two decimals with one
sign that are rounded to one pattern are read as one number.
-/

namespace SemanticLayer

namespace Number.Decimal

/-- The value of a decimal without its sign. -/
def magnitude (d : Decimal) : ℚ :=
  d.digits * 10 ^ d.exponent

/-- The value of a decimal. -/
def value (d : Decimal) : ℚ :=
  if d.negative then -d.magnitude else d.magnitude

theorem magnitude_nonneg (d : Decimal) : 0 ≤ d.magnitude := by
  unfold magnitude
  positivity

theorem abs_value (d : Decimal) : |d.value| = d.magnitude := by
  unfold value
  split_ifs
  · rw [abs_neg, abs_of_nonneg d.magnitude_nonneg]
  · exact abs_of_nonneg d.magnitude_nonneg

end Number.Decimal

namespace Number.Binary64

/-! ## Values of patterns -/

/-- The value of a finite number without its sign. -/
def size (x : Binary64) : ℚ :=
  x.significand * 2 ^ x.scale

/-- The value of a finite number. -/
def value (x : Binary64) : ℚ :=
  if x.isNegative then -x.size else x.size

theorem size_nonneg (x : Binary64) : 0 ≤ x.size := by
  unfold size
  positivity

theorem abs_value (x : Binary64) : |x.value| = x.size := by
  unfold value
  split_ifs
  · rw [abs_neg, abs_of_nonneg x.size_nonneg]
  · exact abs_of_nonneg x.size_nonneg

/-- The pattern of a number without its sign. -/
def pattern (x : Binary64) : Nat :=
  x.bits.toNat % 2 ^ 63

theorem significand_lt (x : Binary64) : x.significand < 2 ^ 53 := by
  have small := Nat.mod_lt x.bits.toNat (show 0 < 2 ^ 52 by decide)
  rw [significand, fractionField_eq]
  split_ifs <;> omega

theorem le_significand {x : Binary64} (normal : x.exponentField ≠ 0) :
    2 ^ 52 ≤ x.significand := by
  rw [significand, if_neg normal]
  omega

theorem pattern_eq (x : Binary64) :
    x.pattern = (max x.exponentField 1 - 1) * 2 ^ 52 + x.significand := by
  rw [pattern, significand, exponentField_eq, fractionField_eq]
  split_ifs <;> omega

theorem pattern_mod_two (x : Binary64) : x.pattern % 2 = x.significand % 2 := by
  rw [pattern_eq]
  omega

theorem steps_pattern (x : Binary64) :
    steps x.pattern = x.significand * 2 ^ (max x.exponentField 1 - 1) := by
  rw [pattern_eq]
  refine steps_scaled ?_ x.significand_lt.le
  rcases Nat.eq_zero_or_pos x.exponentField with zero | positive
  · exact .inl (by omega)
  · exact .inr (le_significand positive.ne')

theorem cast_steps_pattern (x : Binary64) : (steps x.pattern : ℚ) = x.size * stepsPerUnit := by
  rw [steps_pattern, size, cast_stepsPerUnit, mul_assoc, scale]
  push_cast
  rw [← zpow_natCast, ← zpow_natCast, ← zpow_add₀ two_ne_zero]
  congr 2
  omega

theorem size_eq_iff {x y : Binary64} : x.size = y.size ↔ x.pattern = y.pattern := by
  have scaled : x.size = y.size ↔ (steps x.pattern : ℚ) = steps y.pattern := by
    rw [cast_steps_pattern, cast_steps_pattern, mul_left_inj' stepsPerUnit_pos.ne']
  rw [scaled, Nat.cast_inj, steps_strictMono.injective.eq_iff]

theorem isFinite_iff (x : Binary64) : x.isFinite = true ↔ x.pattern < infiniteMagnitude := by
  have infinite : infiniteMagnitude = 2047 * 2 ^ 52 := by decide
  have small := x.bits.toNat_lt
  rw [isFinite, bne_iff_ne, pattern, exponentField_eq, infinite]
  omega

theorem toNat_bits_ofMagnitude {p : Nat} (small : p < 2 ^ 63) (negative : Bool) :
    (ofMagnitude negative p).bits.toNat = p + if negative then 2 ^ 63 else 0 := by
  rw [ofMagnitude, UInt64.toNat_ofNat']
  cases negative <;> simp <;> omega

theorem pattern_ofMagnitude {p : Nat} (small : p < 2 ^ 63) (negative : Bool) :
    (ofMagnitude negative p).pattern = p := by
  rw [pattern, toNat_bits_ofMagnitude small]
  split_ifs <;> omega

theorem isNegative_ofMagnitude {p : Nat} (small : p < 2 ^ 63) (negative : Bool) :
    (ofMagnitude negative p).isNegative = negative := by
  rw [Bool.eq_iff_iff, isNegative_iff, toNat_bits_ofMagnitude small]
  split_ifs with sign
  · exact iff_of_true (by omega) sign
  · exact iff_of_false (by omega) sign

/-- A number is its sign and its pattern. -/
theorem ofMagnitude_pattern (x : Binary64) : ofMagnitude x.isNegative x.pattern = x := by
  have small : x.pattern < 2 ^ 63 := Nat.mod_lt _ (by decide)
  have bits : (ofMagnitude x.isNegative x.pattern).bits = x.bits := by
    rw [← UInt64.toNat_inj, toNat_bits_ofMagnitude small, pattern]
    have sign := x.isNegative_iff
    have bound := x.bits.toNat_lt
    split_ifs with negative
    · have high := sign.1 negative
      omega
    · have low := mt sign.2 negative
      omega
  cases x
  exact congrArg mk bits

/-! ## What is nearest -/

/-- A magnitude lies above the middle between the pattern that it is rounded to and any lesser one,
or on it if the pattern is even. -/
theorem RoundsTo.above_middle {q : ℚ} {p other : Nat} (rounds : RoundsTo q p) (less : other < p) :
    (steps other + steps p : ℚ) < halfSteps q ∨
      (steps other + steps p : ℚ) = halfSteps q ∧ p % 2 = 0 := by
  obtain ⟨last, rfl⟩ : ∃ last, p = last + 1 := ⟨p - 1, by omega⟩
  have beneath : (steps other : ℚ) ≤ steps last := by
    exact_mod_cast steps_strictMono.monotone (Nat.le_of_lt_succ less)
  have middle := cast_midpoint last
  rcases rounds.low last rfl with strict | ⟨same, even⟩
  · exact .inl (by linarith)
  · rcases beneath.lt_or_eq with lesser | equal
    · exact .inl (by linarith)
    · exact .inr ⟨by linarith, even⟩

/-- A magnitude lies below the middle between the pattern that it is rounded to and any greater one,
or on it if the pattern is even. -/
theorem RoundsTo.below_middle {q : ℚ} {p other : Nat} (rounds : RoundsTo q p)
    (finite : p < infiniteMagnitude) (less : p < other) :
    halfSteps q < (steps p + steps other : ℚ) ∨
      halfSteps q = (steps p + steps other : ℚ) ∧ p % 2 = 0 := by
  have beyond : (steps (p + 1) : ℚ) ≤ steps other := by
    exact_mod_cast steps_strictMono.monotone less
  have middle := cast_midpoint p
  rcases rounds.high finite with strict | ⟨same, even⟩
  · exact .inl (by linarith)
  · rcases beyond.lt_or_eq with lesser | equal
    · exact .inl (by linarith)
    · exact .inr ⟨by linarith, even⟩

/-- A magnitude is nearer to the pattern that it is rounded to than to any other, or as near if the
pattern is even. -/
theorem RoundsTo.nearer {q : ℚ} {p other : Nat} (rounds : RoundsTo q p)
    (finite : p < infiniteMagnitude) (different : other ≠ p) :
    |q * stepsPerUnit - steps p| < |q * stepsPerUnit - steps other| ∨
      |q * stepsPerUnit - steps p| = |q * stepsPerUnit - steps other| ∧ p % 2 = 0 := by
  have half : halfSteps q = 2 * (q * stepsPerUnit) := rfl
  rcases Nat.lt_or_gt_of_ne different with below | above
  · have less : (steps other : ℚ) < steps p := by exact_mod_cast steps_strictMono below
    rcases rounds.above_middle below with strict | ⟨tie, even⟩
    · left
      rw [abs_of_pos (a := q * stepsPerUnit - steps other) (by linarith), abs_lt]
      constructor <;> linarith
    · refine .inr ⟨?_, even⟩
      rw [abs_of_pos (a := q * stepsPerUnit - steps other) (by linarith),
        abs_of_neg (by linarith)]
      linarith
  · have less : (steps p : ℚ) < steps other := by exact_mod_cast steps_strictMono above
    rcases rounds.below_middle finite above with strict | ⟨tie, even⟩
    · left
      rw [abs_of_neg (a := q * stepsPerUnit - steps other) (by linarith), abs_lt]
      constructor <;> linarith
    · refine .inr ⟨?_, even⟩
      rw [abs_of_neg (a := q * stepsPerUnit - steps other) (by linarith),
        abs_of_pos (by linarith)]
      linarith

/-- A magnitude is nearer to the size of the number that it is rounded to than to any other, or as
near if its significand is even. -/
theorem RoundsTo.nearer_size {q : ℚ} {x y : Binary64} (rounds : RoundsTo q x.pattern)
    (finite : x.isFinite = true) (different : y.size ≠ x.size) :
    |q - x.size| < |q - y.size| ∨ |q - x.size| = |q - y.size| ∧ x.significand % 2 = 0 := by
  have scaled : ∀ z : Binary64,
      |q * stepsPerUnit - steps z.pattern| = |q - z.size| * stepsPerUnit := fun z => by
    rw [cast_steps_pattern, ← sub_mul, abs_mul, abs_of_pos stepsPerUnit_pos]
  have nearer := rounds.nearer (x.isFinite_iff.1 finite) (mt size_eq_iff.2 different)
  rwa [scaled, scaled, mul_lt_mul_iff_left₀ stepsPerUnit_pos,
    mul_left_inj' stepsPerUnit_pos.ne', pattern_mod_two] at nearer

/-- The least magnitude that is read as infinite: half of the last step beyond the greatest finite
number. -/
def overflow : ℚ :=
  2 ^ 1024 - 2 ^ 970

theorem cast_midpoint_last :
    (midpoint (infiniteMagnitude - 1) : ℚ) = 2 * (overflow * stepsPerUnit) := by
  have greatest : infiniteMagnitude - 1 = 2045 * 2 ^ 52 + (2 ^ 53 - 1) := by decide
  have infinite : infiniteMagnitude - 1 + 1 = 2045 * 2 ^ 52 + 2 ^ 53 := by decide
  have upper : (2 : ℚ) ^ 1024 = 2 ^ 54 * 2 ^ 970 := pow_add 2 54 970
  have lower : (2 : ℚ) ^ 2045 = 2 * (2 ^ 970 * 2 ^ 1074) := by
    rw [← pow_add, ← pow_succ']
  have units : ((2 ^ 53 - 1 + 2 ^ 53 : Nat) : ℚ) = 2 ^ 54 - 1 := by norm_num
  rw [cast_midpoint, infinite, greatest, steps_scaled (.inr (by decide)) (by decide),
    steps_scaled (.inr (by decide)) le_rfl, ← Nat.cast_add, ← Nat.add_mul, Nat.cast_mul, units,
    Nat.cast_pow, Nat.cast_ofNat, lower, cast_stepsPerUnit, overflow, upper]
  generalize (2 : ℚ) ^ 970 = unit, (2 : ℚ) ^ 1074 = finest
  ring

/-- A magnitude is rounded to a finite pattern if it lies below the middle of the last step. -/
theorem RoundsTo.lt_infiniteMagnitude_iff {q : ℚ} {p : Nat} (rounds : RoundsTo q p) :
    p < infiniteMagnitude ↔ q < overflow := by
  have odd : (infiniteMagnitude - 1) % 2 = 1 := by decide
  have limit : q < overflow ↔ halfSteps q < midpoint (infiniteMagnitude - 1) := by
    rw [cast_midpoint_last, halfSteps, mul_lt_mul_iff_right₀ two_pos,
      mul_lt_mul_iff_left₀ stepsPerUnit_pos]
  rw [limit]
  constructor
  · intro finite
    rcases Nat.lt_or_eq_of_le (Nat.le_sub_one_of_lt finite) with less | rfl
    · have lesser : (midpoint p : ℚ) < midpoint (infiniteMagnitude - 1) := by
        exact_mod_cast midpoint_strictMono less
      exact (rounds.le_high finite).trans_lt lesser
    · rcases rounds.high finite with strict | ⟨-, even⟩
      · exact strict
      · omega
  · intro less
    refine Nat.lt_of_le_of_ne rounds.le fun infinite => ?_
    subst infinite
    exact absurd less (rounds.low_le (by decide)).not_gt

/-- What lies at the middle of the last step or beyond is rounded to the infinite pattern. -/
theorem roundsTo_infiniteMagnitude {q : ℚ} (le : overflow ≤ q) :
    RoundsTo q infiniteMagnitude := by
  refine ⟨le_rfl, fun below same => ?_, fun less => absurd less (lt_irrefl _)⟩
  obtain rfl : below = infiniteMagnitude - 1 := by omega
  have least : (midpoint (infiniteMagnitude - 1) : ℚ) ≤ halfSteps q := by
    rw [cast_midpoint_last, halfSteps]
    exact mul_le_mul_of_nonneg_left (mul_le_mul_of_nonneg_right le stepsPerUnit_pos.le) two_pos.le
  rcases least.lt_or_eq with strict | equal
  · exact .inl strict
  · exact .inr ⟨equal, by decide⟩

end Number.Binary64

namespace Number.Decimal

/-- The finite number that a decimal is read as: it has the sign of the decimal, no other number is
nearer, and of two that are equally near it has the even significand. -/
structure Nearest (d : Decimal) (x : Binary64) : Prop where
  finite : x.isFinite = true
  sign : x.isNegative = d.negative
  le : ∀ y : Binary64, y.isFinite = true → |d.value - x.value| ≤ |d.value - y.value|
  even : ∀ y : Binary64, y.isFinite = true → y.value ≠ x.value →
    |d.value - y.value| = |d.value - x.value| → x.significand % 2 = 0

/-- The distance of a decimal to a number with its sign is that of their magnitudes. -/
theorem abs_sub_value {d : Decimal} {x : Binary64} (sign : x.isNegative = d.negative) :
    |d.value - x.value| = |d.magnitude - x.size| := by
  rw [value, Binary64.value, sign]
  split_ifs
  · rw [neg_sub_neg, abs_sub_comm]
  · rfl

/-- The distance of a decimal to a number is no less than that of their magnitudes. -/
theorem le_abs_sub_value (d : Decimal) (x : Binary64) :
    |d.magnitude - x.size| ≤ |d.value - x.value| := by
  rw [← d.abs_value, ← x.abs_value]
  exact abs_abs_sub_abs_le _ _

open Binary64 in
/-- The finite number with the sign of a decimal and the pattern of its magnitude is the nearest. -/
theorem nearest_of_roundsTo {d : Decimal} {x : Binary64} (finite : x.isFinite = true)
    (sign : x.isNegative = d.negative) (rounds : RoundsTo d.magnitude x.pattern) :
    d.Nearest x := by
  refine ⟨finite, sign, fun y _ => ?_, fun y _ different tie => ?_⟩
  · refine (abs_sub_value sign).trans_le (le_trans ?_ (le_abs_sub_value d y))
    by_cases same : y.size = x.size
    · rw [same]
    · rcases rounds.nearer_size finite same with nearer | ⟨tie, -⟩
      · exact nearer.le
      · exact tie.le
  · by_cases same : y.size = x.size
    · have opposite : y.value = -x.value := by
        rw [← x.abs_value, ← y.abs_value, abs_eq_abs] at same
        exact same.resolve_left different
      -- Two numbers of one size are equally far from zero only.
      have zero : d.value = 0 := by
        rcases abs_eq_abs.1 tie with equal | mirrored
        · exact absurd (sub_right_injective equal) different
        · linarith
      have nothing : d.magnitude = 0 := by rw [← d.abs_value, zero, abs_zero]
      rw [nothing] at rounds
      rw [← pattern_mod_two, rounds.unique roundsTo_zero]
    · rcases rounds.nearer_size finite same with nearer | ⟨-, even⟩
      · have further := nearer.trans_le (le_abs_sub_value d y)
        rw [tie, abs_sub_value sign] at further
        exact absurd further (lt_irrefl _)
      · exact even

/-! ## Reading -/

theorem lt_pow_length (n : Nat) : n < 10 ^ (Nat.toDigits 10 n).length :=
  (Nat.length_toDigits_le_iff (by decide) Nat.length_toDigits_pos).1 le_rfl

theorem pow_length_le {n : Nat} (positive : n ≠ 0) :
    10 ^ (Nat.toDigits 10 n).length ≤ 10 * n := by
  have nonempty : 0 < (Nat.toDigits 10 n).length := Nat.length_toDigits_pos
  obtain ⟨length, succ⟩ : ∃ length, (Nat.toDigits 10 n).length = length + 1 :=
    ⟨(Nat.toDigits 10 n).length - 1, by omega⟩
  rw [succ, Nat.pow_succ']
  refine Nat.mul_le_mul_left 10 (Nat.not_lt.1 fun short => ?_)
  rcases Nat.eq_zero_or_pos length with rfl | several
  · exact positive (Nat.lt_one_iff.1 short)
  · have fewer := (Nat.length_toDigits_le_iff (by decide) several).2 short
    omega

/-- A decimal lies below the power of ten that the place of its first digit tells. -/
theorem magnitude_lt (d : Decimal) :
    d.magnitude < 10 ^ ((Nat.toDigits 10 d.digits).length + d.exponent) := by
  rw [magnitude, zpow_add₀ (by norm_num), zpow_natCast]
  exact mul_lt_mul_of_pos_right (by exact_mod_cast lt_pow_length d.digits) (by positivity)

/-- A decimal lies within a factor of ten of the power that the place of its first digit tells. -/
theorem le_magnitude {d : Decimal} (positive : d.digits ≠ 0) :
    (10 : ℚ) ^ ((Nat.toDigits 10 d.digits).length + d.exponent) ≤ 10 * d.magnitude := by
  rw [magnitude, zpow_add₀ (by norm_num), zpow_natCast, ← mul_assoc]
  exact mul_le_mul_of_nonneg_right (by exact_mod_cast pow_length_le positive) (by positivity)

theorem two_pow_le_ten_pow {m n : Nat} (le : 2 ^ m ≤ 10 ^ n) : (2 : ℚ) ^ m ≤ 10 ^ n := by
  exact_mod_cast le

open Binary64 in
/-- A decimal is read as the number with its sign and the pattern of its magnitude. -/
theorem exists_pattern (d : Decimal) :
    ∃ p, d.toBinary64 = ofMagnitude d.negative p ∧ RoundsTo d.magnitude p := by
  refine ⟨_, rfl, ?_⟩
  have ten : (1 : ℚ) ≤ 10 := by norm_num
  split_ifs with tiny huge negative
  · refine roundsTo_zero_of_lt ?_
    rcases tiny with zero | early
    · rw [halfSteps, magnitude, zero, Nat.cast_zero, zero_mul, zero_mul, mul_zero]
      exact one_pos
    · have small : d.magnitude < 10 ^ (-331 : Int) :=
        d.magnitude_lt.trans_le (zpow_le_zpow_right₀ ten (by omega))
      have steps : (2 : ℚ) ^ 1075 ≤ 10 ^ 331 := two_pow_le_ten_pow (by decide +kernel)
      rw [zpow_neg, ← one_div, lt_div_iff₀ (by positivity)] at small
      calc halfSteps d.magnitude
          = d.magnitude * 2 ^ 1075 := by
            rw [halfSteps, cast_stepsPerUnit, mul_comm, mul_assoc, ← pow_succ]
        _ ≤ d.magnitude * 10 ^ 331 := mul_le_mul_of_nonneg_left steps d.magnitude_nonneg
        _ < 1 := small
  · refine roundsTo_infiniteMagnitude ?_
    have large : (10 : ℚ) ^ (311 : Int) ≤ 10 * d.magnitude :=
      (zpow_le_zpow_right₀ ten (by omega)).trans (le_magnitude (by tauto))
    rw [show (311 : Int) = (310 : Nat) + 1 by rfl, zpow_add_one₀ (by norm_num), zpow_natCast,
      mul_comm, mul_le_mul_iff_right₀ (by norm_num)] at large
    calc overflow
        ≤ 2 ^ 1024 := sub_le_self _ (by positivity)
      _ ≤ 10 ^ 310 := two_pow_le_ten_pow (by decide +kernel)
      _ ≤ d.magnitude := large
  · have rounded := roundsTo_nearestMagnitude d.digits
      (show 10 ^ (-d.exponent).toNat ≠ 0 by positivity)
    have same : d.magnitude = d.digits / ((10 ^ (-d.exponent).toNat : Nat) : ℚ) := by
      rw [magnitude, Nat.cast_pow, Nat.cast_ofNat, div_eq_mul_inv, ← zpow_natCast, ← zpow_neg,
        Int.toNat_of_nonneg (by omega), neg_neg]
    rw [same]
    exact rounded
  · have rounded := roundsTo_nearestMagnitude (d.digits * 10 ^ d.exponent.toNat) one_ne_zero
    have same : d.magnitude = ((d.digits * 10 ^ d.exponent.toNat : Nat) : ℚ) / (1 : Nat) := by
      rw [magnitude, Nat.cast_mul, Nat.cast_pow, Nat.cast_ofNat, Nat.cast_one, div_one,
        ← zpow_natCast, Int.toNat_of_nonneg (by omega)]
    rw [same]
    exact rounded

open Binary64 in
theorem isNegative_toBinary64 (d : Decimal) : d.toBinary64.isNegative = d.negative := by
  obtain ⟨p, same, rounds⟩ := d.exists_pattern
  rw [same, isNegative_ofMagnitude (rounds.le.trans_lt (by decide))]

open Binary64 in
theorem roundsTo_toBinary64 (d : Decimal) : RoundsTo d.magnitude d.toBinary64.pattern := by
  obtain ⟨p, same, rounds⟩ := d.exists_pattern
  rwa [same, pattern_ofMagnitude (rounds.le.trans_lt (by decide))]

theorem isFinite_toBinary64_iff (d : Decimal) :
    d.toBinary64.isFinite = true ↔ d.magnitude < Binary64.overflow := by
  rw [Binary64.isFinite_iff, d.roundsTo_toBinary64.lt_infiniteMagnitude_iff]

/-- A decimal within range is read as the nearest number. -/
theorem nearest_toBinary64 {d : Decimal} (finite : d.toBinary64.isFinite = true) :
    d.Nearest d.toBinary64 :=
  nearest_of_roundsTo finite d.isNegative_toBinary64 d.roundsTo_toBinary64

/-- A decimal is read as the number with its sign that its magnitude is rounded to. -/
theorem toBinary64_eq {d : Decimal} {x : Binary64} (sign : x.isNegative = d.negative)
    (rounds : Binary64.RoundsTo d.magnitude x.pattern) : d.toBinary64 = x := by
  rw [← d.toBinary64.ofMagnitude_pattern, ← x.ofMagnitude_pattern, d.isNegative_toBinary64, sign,
    d.roundsTo_toBinary64.unique rounds]

end Number.Decimal

end SemanticLayer
