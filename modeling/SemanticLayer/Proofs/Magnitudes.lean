import Mathlib.Algebra.Group.Nat.Defs
import SemanticLayer.Number.Decimal

/-!
# Numbers without their sign

The fields of a floating-point number are parts of its pattern, and all but the sign are those of
the number without its sign. A negative number is written as a minus sign in front of that number.
-/

namespace SemanticLayer

namespace Number.Binary64

/-- The number without its sign. -/
def magnitude (x : Binary64) : Binary64 :=
  ⟨x.bits &&& 0x7FFFFFFFFFFFFFFF⟩

theorem toNat_bits_magnitude (x : Binary64) : x.magnitude.bits.toNat = x.bits.toNat % 2 ^ 63 := by
  have masked : x.magnitude.bits.toNat = x.bits.toNat &&& (2 ^ 63 - 1) := by
    rw [magnitude, UInt64.toNat_and]
    rfl
  rw [masked, Nat.and_two_pow_sub_one_eq_mod]

theorem exponentField_eq (x : Binary64) : x.exponentField = x.bits.toNat / 2 ^ 52 % 2 ^ 11 := by
  have masked : x.exponentField = (x.bits.toNat >>> 52) &&& (2 ^ 11 - 1) := by
    rw [exponentField, UInt64.toNat_and, UInt64.toNat_shiftRight]
    rfl
  rw [masked, Nat.and_two_pow_sub_one_eq_mod, Nat.shiftRight_eq_div_pow]

theorem fractionField_eq (x : Binary64) : x.fractionField = x.bits.toNat % 2 ^ 52 := by
  have masked : x.fractionField = x.bits.toNat &&& (2 ^ 52 - 1) := by
    rw [fractionField, UInt64.toNat_and]
    rfl
  rw [masked, Nat.and_two_pow_sub_one_eq_mod]

theorem isNegative_iff (x : Binary64) : x.isNegative = true ↔ 2 ^ 63 ≤ x.bits.toNat := by
  have shifted : (x.bits >>> 63).toNat = x.bits.toNat / 2 ^ 63 := by
    rw [UInt64.toNat_shiftRight, ← Nat.shiftRight_eq_div_pow]
    rfl
  have small := x.bits.toNat_lt
  rw [isNegative, beq_iff_eq, ← UInt64.toNat_inj, shifted]
  have one : UInt64.toNat 1 = 1 := rfl
  rw [one]
  omega

@[simp]
theorem exponentField_magnitude (x : Binary64) : x.magnitude.exponentField = x.exponentField := by
  rw [exponentField_eq, exponentField_eq, toNat_bits_magnitude]
  omega

@[simp]
theorem fractionField_magnitude (x : Binary64) : x.magnitude.fractionField = x.fractionField := by
  rw [fractionField_eq, fractionField_eq, toNat_bits_magnitude]
  omega

@[simp]
theorem isNegative_magnitude (x : Binary64) : x.magnitude.isNegative = false := by
  have small := Nat.mod_lt x.bits.toNat (show 0 < 2 ^ 63 by decide)
  rw [Bool.eq_false_iff, ne_eq, isNegative_iff, toNat_bits_magnitude]
  omega

theorem magnitude_of_not_isNegative (x : Binary64) (positive : x.isNegative = false) :
    x.magnitude = x := by
  rw [Bool.eq_false_iff, ne_eq, isNegative_iff] at positive
  have same : x.magnitude.bits = x.bits := by
    rw [← UInt64.toNat_inj, toNat_bits_magnitude]
    omega
  cases x
  exact congrArg mk same

@[simp]
theorem isFinite_magnitude (x : Binary64) : x.magnitude.isFinite = x.isFinite := by
  rw [isFinite, isFinite, exponentField_magnitude]

theorem neighbourhood_magnitude (x : Binary64) : x.magnitude.neighbourhood = x.neighbourhood := by
  have significand : x.magnitude.significand = x.significand := by
    rw [significand, significand, exponentField_magnitude, fractionField_magnitude]
  have scale : x.magnitude.scale = x.scale := by
    rw [scale, scale, exponentField_magnitude]
  rw [neighbourhood, neighbourhood, significand, scale, exponentField_magnitude,
    fractionField_magnitude]

/-- A negative number is written as a minus sign and the number without its sign. -/
theorem text_of_isNegative {x : Binary64} (negative : x.isNegative = true)
    (finite : x.isFinite = true) : x.text = "-" ++ x.magnitude.text := by
  have number : x.isNaN = false := by
    rw [isNaN, Bool.and_eq_false_iff]
    exact .inl (by simpa [isFinite] using finite)
  have same : x.magnitude.isNaN = x.isNaN ∧ x.magnitude.isZero = x.isZero ∧
      x.magnitude.shortest = x.shortest := by
    refine ⟨?_, ?_, ?_⟩
    · rw [isNaN, isNaN, exponentField_magnitude, fractionField_magnitude]
    · rw [isZero, isZero, exponentField_magnitude, fractionField_magnitude]
    · rw [shortest, shortest, neighbourhood_magnitude]
  obtain ⟨notNumber, zero, digits⟩ := same
  rw [text, text, negative, isNegative_magnitude, isFinite_magnitude, notNumber, zero, digits,
    number, finite]
  cases x.isZero <;> simp

end Number.Binary64

end SemanticLayer
