import Mathlib.Data.Nat.Cast.Order.Field
import SemanticLayer.Proofs.Nearest

/-!
# The digits of a floating-point number

A finite number is written with the fewest digits that lie in its neighbourhood, the interval up to
the midpoints on either side. What lies in the neighbourhood is rounded to the number, so the digits
read back, and seventeen of them always suffice.
-/

namespace SemanticLayer

namespace Number.Binary64

variable {x : Binary64}

/-- A power of a whole exponent as the quotient of two powers, one of which is one. -/
theorem zpow_eq_div {base : ℚ} (nonzero : base ≠ 0) (e : Int) :
    base ^ e = base ^ e.toNat / base ^ (-e).toNat := by
  rw [← zpow_natCast, ← zpow_natCast, ← zpow_sub₀ nonzero]
  congr 1
  omega

/-! ## The neighbourhood -/

/-- The power of two that a significand counts, in steps of the least positive number. -/
def shift (x : Binary64) : Nat :=
  max x.exponentField 1 - 1

theorem two_zpow_scale (x : Binary64) : (2 : ℚ) ^ x.scale * stepsPerUnit = 2 ^ x.shift := by
  rw [cast_stepsPerUnit, ← zpow_natCast, ← zpow_natCast, ← zpow_add₀ two_ne_zero, scale, shift]
  congr 1
  omega

/-- A quarter of a count of steps over the common denominator of a neighbourhood. -/
theorem quarters (x : Binary64) (count : Nat) :
    ((count <<< x.scale.toNat : Nat) : ℚ) / (4 <<< (-x.scale).toNat : Nat) =
      count / 4 * 2 ^ x.scale := by
  rw [zpow_eq_div two_ne_zero, Nat.shiftLeft_eq, Nat.shiftLeft_eq]
  push_cast
  field_simp

theorem halfSteps_quarters (x : Binary64) (count : Nat) :
    halfSteps (count / 4 * 2 ^ x.scale) = count / 2 * 2 ^ x.shift := by
  rw [halfSteps, mul_assoc _ _ (stepsPerUnit : ℚ), two_zpow_scale]
  ring

theorem centre_div_denominator (x : Binary64) :
    (x.neighbourhood.centre / x.neighbourhood.denominator : ℚ) = x.size := by
  refine (quarters x (4 * x.significand)).trans ?_
  rw [size]
  push_cast
  ring

/-- The upper end of a neighbourhood is the midpoint to the next number. -/
theorem midpoint_pattern (x : Binary64) :
    (midpoint x.pattern : ℚ) =
      halfSteps (x.neighbourhood.high / x.neighbourhood.denominator) := by
  have next : steps (x.pattern + 1) = (x.significand + 1) * 2 ^ x.shift := by
    rw [pattern_eq, Nat.add_assoc]
    refine steps_scaled ?_ x.significand_lt
    rcases Nat.eq_zero_or_pos x.exponentField with zero | positive
    · exact .inl (by omega)
    · exact .inr (Nat.le_succ_of_le (le_significand positive.ne'))
  have ends := quarters x (4 * x.significand + 2)
  rw [neighbourhood, ends, halfSteps_quarters, cast_midpoint, next, steps_pattern, ← shift]
  push_cast
  ring

theorem significand_of_power (power : x.fractionField = 0 ∧ x.exponentField > 1) :
    x.significand = 2 ^ 52 := by
  rw [significand, if_neg (Nat.ne_of_gt (Nat.zero_lt_of_lt power.2)), power.1]
  rfl

/-- The lower end of a neighbourhood is the midpoint to the number before. Below a power of two that
number is half as far away. -/
theorem midpoint_of_pattern_eq {below : Nat} (same : x.pattern = below + 1) :
    (midpoint below : ℚ) = halfSteps (x.neighbourhood.low / x.neighbourhood.denominator) := by
  have ends := quarters x
    (4 * x.significand - if x.fractionField = 0 ∧ x.exponentField > 1 then 1 else 2)
  rw [neighbourhood, ends, halfSteps_quarters, cast_midpoint, ← same, steps_pattern, ← shift]
  have place := x.pattern_eq
  rw [same, ← shift] at place
  split_ifs with power
  · have least := significand_of_power power
    obtain ⟨last, succ⟩ : ∃ last, x.shift = last + 1 := ⟨x.shift - 1, by rw [shift]; omega⟩
    have before : below = last * 2 ^ 52 + (2 ^ 53 - 1) := by
      rw [succ, least] at place
      omega
    rw [before, steps_scaled (.inr (by decide)) (by decide), least, succ, pow_succ, pow_succ]
    push_cast
    ring
  · have normal : x.shift = 0 ∨ 2 ^ 52 < x.significand := by
      rw [shift, significand]
      split_ifs <;> omega
    obtain ⟨less, succ⟩ : ∃ less, x.significand = less + 1 := ⟨x.significand - 1, by omega⟩
    have before : below = x.shift * 2 ^ 52 + less := by omega
    have bound := x.significand_lt
    rw [before, steps_scaled (by omega) (by omega), succ,
      show 4 * (less + 1) - 2 = 4 * less + 2 by omega]
    push_cast
    ring

theorem halfSteps_le_halfSteps {p q : ℚ} : halfSteps p ≤ halfSteps q ↔ p ≤ q := by
  rw [halfSteps, halfSteps, mul_le_mul_iff_right₀ two_pos, mul_le_mul_iff_left₀ stepsPerUnit_pos]

theorem halfSteps_lt_halfSteps {p q : ℚ} : halfSteps p < halfSteps q ↔ p < q :=
  lt_iff_lt_of_le_iff_le halfSteps_le_halfSteps

theorem Neighbourhood.holds_iff {n : Neighbourhood} {point divisor : Nat}
    (common : 0 < n.denominator) (positive : 0 < divisor) :
    n.holds point divisor = true ↔
      if n.closed then
        (n.low / n.denominator : ℚ) ≤ point / divisor ∧
          (point / divisor : ℚ) ≤ n.high / n.denominator
      else
        (n.low / n.denominator : ℚ) < point / divisor ∧
          (point / divisor : ℚ) < n.high / n.denominator := by
  have above : (0 : ℚ) < divisor := by exact_mod_cast positive
  have below : (0 : ℚ) < n.denominator := by exact_mod_cast common
  rw [div_le_div_iff₀ below above, div_le_div_iff₀ above below, div_lt_div_iff₀ below above,
    div_lt_div_iff₀ above below, holds]
  split_ifs with closed
  · rw [Bool.and_eq_true, decide_eq_true_eq, decide_eq_true_eq]
    exact_mod_cast Iff.rfl
  · rw [Bool.and_eq_true, decide_eq_true_eq, decide_eq_true_eq]
    exact_mod_cast Iff.rfl

theorem denominator_eq (x : Binary64) :
    x.neighbourhood.denominator = 4 * 2 ^ (-x.scale).toNat :=
  Nat.shiftLeft_eq _ _

theorem centre_eq (x : Binary64) :
    x.neighbourhood.centre = 4 * x.significand * 2 ^ x.scale.toNat :=
  Nat.shiftLeft_eq _ _

theorem denominator_pos (x : Binary64) : 0 < x.neighbourhood.denominator := by
  rw [denominator_eq]
  positivity

theorem closed_iff (x : Binary64) : x.neighbourhood.closed = true ↔ x.pattern % 2 = 0 := by
  rw [pattern_mod_two, neighbourhood, decide_eq_true_eq]

/-- What lies in the neighbourhood of a finite number is rounded to it. -/
theorem roundsTo_of_holds {point divisor : Nat} (positive : 0 < divisor)
    (finite : x.isFinite = true) (holds : x.neighbourhood.holds point divisor = true) :
    RoundsTo (point / divisor) x.pattern := by
  rw [Neighbourhood.holds_iff x.denominator_pos positive] at holds
  refine ⟨((isFinite_iff x).1 finite).le, fun below same => ?_, fun _ => ?_⟩
  · rw [midpoint_of_pattern_eq same, halfSteps_lt_halfSteps]
    split_ifs at holds with closed
    · rcases holds.1.lt_or_eq with strict | equal
      · exact .inl strict
      · exact .inr ⟨congrArg halfSteps equal, x.closed_iff.1 closed⟩
    · exact .inl holds.1
  · rw [midpoint_pattern, halfSteps_lt_halfSteps]
    split_ifs at holds with closed
    · rcases holds.2.lt_or_eq with strict | equal
      · exact .inl strict
      · exact .inr ⟨congrArg halfSteps equal, x.closed_iff.1 closed⟩
    · exact .inl holds.2

/-! ## The place of the first digit -/

theorem le_zerosAfterPoint {denominator : Nat} :
    ∀ {fuel numerator : Nat}, denominator ≤ 10 ^ fuel * numerator →
      denominator ≤ 10 ^ (zerosAfterPoint denominator fuel numerator + 1) * numerator
  | 0, numerator, reached => by
    rw [zerosAfterPoint]
    omega
  | fuel + 1, numerator, reached => by
    rw [zerosAfterPoint]
    split_ifs with near
    · simpa using near
    · rw [Nat.pow_succ, Nat.mul_assoc] at reached ⊢
      exact le_zerosAfterPoint reached

/-- A quotient is at least the power of ten that its first digit stands for. -/
theorem le_leadingPlace {numerator denominator : Nat} (positive : 0 < denominator)
    (reached : denominator ≤ 10 ^ 400 * numerator) :
    (10 : ℚ) ^ leadingPlace numerator denominator ≤ 10 * (numerator / denominator) := by
  have above : (0 : ℚ) < denominator := by exact_mod_cast positive
  rw [leadingPlace]
  split_ifs with whole
  · have some : numerator / denominator ≠ 0 := (Nat.div_pos whole positive).ne'
    have digits : ((10 ^ (Nat.toDigits 10 (numerator / denominator)).length : Nat) : ℚ) ≤
        (10 * (numerator / denominator) : Nat) := by
      exact_mod_cast Decimal.pow_length_le some
    have floor : ((numerator / denominator : Nat) : ℚ) ≤ numerator / denominator := Nat.cast_div_le
    rw [zpow_natCast]
    push_cast at digits
    linarith
  · have least : (denominator : ℚ) ≤
        10 ^ (zerosAfterPoint denominator 400 numerator + 1) * numerator := by
      exact_mod_cast le_zerosAfterPoint reached
    rw [zpow_neg, zpow_natCast, ← mul_div_assoc, le_div_iff₀ above, inv_mul_le_iff₀ (by positivity)]
    rw [pow_succ, mul_assoc] at least
    exact least

/-! ## The digits -/

/-- The digits that are found on a grid lie in the neighbourhood. -/
theorem holds_of_onGrid? {n : Neighbourhood} {e : Int} {digits : Nat}
    (found : onGrid? n e = some digits) :
    n.holds (digits * Nat.pow 10 e.toNat) (Nat.pow 10 (-e).toNat) = true := by
  unfold onGrid? at found
  dsimp only at found
  split at found
  · rename_i below above
    split_ifs at found <;> cases found <;> assumption
  · cases found
    assumption
  · cases found
    assumption
  · cases found

/-- A grid has digits in the neighbourhood if one of the two next to the value lies in it. -/
theorem onGrid?_isSome {n : Neighbourhood} {e : Int} {below : Nat}
    (floor : below = n.centre * Nat.pow 10 (-e).toNat / (n.denominator * Nat.pow 10 e.toNat))
    (near : n.holds (below * Nat.pow 10 e.toNat) (Nat.pow 10 (-e).toNat) = true ∨
      n.holds ((below + 1) * Nat.pow 10 e.toNat) (Nat.pow 10 (-e).toNat) = true) :
    (onGrid? n e).isSome = true := by
  subst floor
  unfold onGrid?
  dsimp only
  split
  · split_ifs <;> rfl
  · rfl
  · rfl
  · simp_all

theorem grid_point_eq (digits : Nat) (e : Int) :
    ((digits * Nat.pow 10 e.toNat : Nat) : ℚ) / (Nat.pow 10 (-e).toNat : Nat) =
      digits * 10 ^ e := by
  rw [zpow_eq_div (by norm_num) e, Nat.pow_eq, Nat.pow_eq]
  push_cast
  rw [mul_div_assoc]

/-- Digits whose value lies within the ends of a neighbourhood lie in it. -/
theorem holds_of_lt {n : Neighbourhood} (common : 0 < n.denominator) {digits : Nat} {e : Int}
    (low : (n.low / n.denominator : ℚ) < digits * 10 ^ e)
    (high : (digits * 10 ^ e : ℚ) < n.high / n.denominator) :
    n.holds (digits * Nat.pow 10 e.toNat) (Nat.pow 10 (-e).toNat) = true := by
  have positive : 0 < Nat.pow 10 (-e).toNat := Nat.pow_pos (by decide)
  rw [Neighbourhood.holds_iff common positive, grid_point_eq]
  split_ifs
  · exact ⟨low.le, high.le⟩
  · exact ⟨low, high⟩

theorem size_lt (x : Binary64) : x.size < 2 ^ 53 * 2 ^ x.scale :=
  mul_lt_mul_of_pos_right (by exact_mod_cast x.significand_lt) (by positivity)

theorem high_div_denominator (x : Binary64) :
    (x.neighbourhood.high / x.neighbourhood.denominator : ℚ) = x.size + 2 ^ x.scale / 2 := by
  refine (quarters x (4 * x.significand + 2)).trans ?_
  rw [size]
  push_cast
  ring

/-- The lower end of a neighbourhood is half a step away, or a quarter of one below a power of
two. -/
theorem low_div_denominator (positive : 0 < x.significand) :
    (x.neighbourhood.low / x.neighbourhood.denominator : ℚ) = x.size - 2 ^ x.scale / 2 ∨
      x.significand = 2 ^ 52 ∧
        (x.neighbourhood.low / x.neighbourhood.denominator : ℚ) = x.size - 2 ^ x.scale / 4 := by
  have ends := quarters x
    (4 * x.significand - if x.fractionField = 0 ∧ x.exponentField > 1 then 1 else 2)
  rw [size, neighbourhood, ends]
  split_ifs with power
  · refine .inr ⟨significand_of_power power, ?_⟩
    rw [Nat.cast_sub (by omega)]
    push_cast
    ring
  · left
    rw [Nat.cast_sub (by omega)]
    push_cast
    ring

theorem denominator_le (positive : 0 < x.significand) :
    x.neighbourhood.denominator ≤ 10 ^ 400 * x.neighbourhood.centre := by
  have some : 0 < 4 * x.significand * 2 ^ x.scale.toNat := by positivity
  have few : (-x.scale).toNat ≤ 1074 := by
    rw [scale]
    omega
  rw [denominator_eq, centre_eq]
  calc 4 * 2 ^ (-x.scale).toNat
      ≤ 4 * 2 ^ 1074 := Nat.mul_le_mul_left 4 (Nat.pow_le_pow_right (by decide) few)
    _ ≤ 10 ^ 400 := by decide +kernel
    _ ≤ 10 ^ 400 * (4 * x.significand * 2 ^ x.scale.toNat) := Nat.le_mul_of_pos_right _ some

/-- The digits on a grid next to the value of a number. -/
theorem exists_below (x : Binary64) (e : Int) :
    ∃ below, below = x.neighbourhood.centre * Nat.pow 10 (-e).toNat /
        (x.neighbourhood.denominator * Nat.pow 10 e.toNat) ∧
      (below * 10 ^ e : ℚ) ≤ x.size ∧ x.size < (below + 1 : Nat) * 10 ^ e := by
  refine ⟨_, rfl, ?_⟩
  have divisor : 0 < x.neighbourhood.denominator * Nat.pow 10 e.toNat :=
    Nat.mul_pos x.denominator_pos (Nat.pow_pos (by decide))
  have ratio : ((x.neighbourhood.centre * Nat.pow 10 (-e).toNat : Nat) : ℚ) /
      (x.neighbourhood.denominator * Nat.pow 10 e.toNat : Nat) = x.size / 10 ^ e := by
    rw [← centre_div_denominator, zpow_eq_div (by norm_num) e, Nat.pow_eq, Nat.pow_eq]
    push_cast
    rw [div_div_eq_mul_div, div_mul_eq_mul_div, div_div]
  have unit : (0 : ℚ) < 10 ^ e := by positivity
  have whole := whole_add_rest (x.neighbourhood.centre * Nat.pow 10 (-e).toNat) divisor
  have proper := Nat.mod_lt (x.neighbourhood.centre * Nat.pow 10 (-e).toNat) divisor
  rw [ratio] at whole
  generalize x.neighbourhood.centre * Nat.pow 10 (-e).toNat = point at whole proper ⊢
  generalize x.neighbourhood.denominator * Nat.pow 10 e.toNat = parts at divisor whole proper ⊢
  have above : (0 : ℚ) < parts := by exact_mod_cast divisor
  have rest : ((point % parts : Nat) : ℚ) / parts < 1 := by
    rw [div_lt_one above]
    exact_mod_cast proper
  have nonneg : (0 : ℚ) ≤ ((point % parts : Nat) : ℚ) / parts := by positivity
  rw [← le_div_iff₀ unit, ← div_lt_iff₀ unit]
  push_cast at whole ⊢
  constructor <;> linarith

/-- Seventeen digits always suffice: one of the two next to the value lies in the neighbourhood. -/
theorem onGrid?_seventeenth (positive : 0 < x.significand) :
    (onGrid? x.neighbourhood
      (leadingPlace x.neighbourhood.centre x.neighbourhood.denominator - 17)).isSome = true := by
  set n := x.neighbourhood with neighbourhood
  set e := leadingPlace n.centre n.denominator - 17 with place
  have unit : (0 : ℚ) < 10 ^ e := by positivity
  have step : (0 : ℚ) < 2 ^ x.scale := by positivity
  have leading : (10 : ℚ) ^ e * 10 ^ 16 ≤ x.size := by
    have first := le_leadingPlace x.denominator_pos (denominator_le positive)
    rw [centre_div_denominator, show leadingPlace n.centre n.denominator = e + (17 : Nat) by omega,
      zpow_add₀ (by norm_num), zpow_natCast] at first
    linarith
  obtain ⟨below, floor, lower, upper⟩ := exists_below x e
  have high := x.high_div_denominator
  have bound := x.size_lt
  refine onGrid?_isSome floor ?_
  rcases low_div_denominator positive with low | ⟨power, low⟩
  · by_cases near : x.size - below * 10 ^ e < 2 ^ x.scale / 2
    · exact .inl (holds_of_lt x.denominator_pos (by linarith) (by linarith))
    · refine .inr (holds_of_lt x.denominator_pos (by linarith) ?_)
      push_cast
      linarith
  · refine .inr (holds_of_lt x.denominator_pos (by linarith) ?_)
    have size : x.size = 2 ^ 52 * 2 ^ x.scale := by
      rw [size, power]
      push_cast
      rfl
    push_cast
    linarith

theorem stripZeros_value (fuel digits : Nat) (e : Int) :
    ((stripZeros fuel (digits, e)).1 * 10 ^ (stripZeros fuel (digits, e)).2 : ℚ) =
      digits * 10 ^ e := by
  induction fuel generalizing digits e with
  | zero => rfl
  | succ fuel ih =>
      rw [stripZeros]
      split_ifs with zero
      · rw [ih, zpow_add_one₀ (by norm_num), ← mul_assoc, mul_right_comm]
        congr 1
        exact_mod_cast Nat.div_mul_cancel (Nat.dvd_of_mod_eq_zero zero)
      · rfl

/-- The grids are searched from the coarsest, and the last of them is sure to hit. -/
theorem findSome?_grids {n : Neighbourhood} {place : Int}
    (last : (onGrid? n (place - 17)).isSome = true) :
    ∃ digits e, ((List.range 17).map fun count => place - (count + 1 : Nat)).findSome?
        (fun e => (onGrid? n e).map fun d => (d, e)) = some (digits, e) ∧
      onGrid? n e = some digits := by
  set grids := (List.range 17).map fun count => place - (count + 1 : Nat) with listed
  have member : place - 17 ∈ grids := by
    rw [listed, List.mem_map]
    exact ⟨16, List.mem_range.2 (by decide), by omega⟩
  have hits : (grids.findSome? fun e => (onGrid? n e).map fun d => (d, e)).isSome = true :=
    List.findSome?_isSome_iff.2 ⟨place - 17, member, Option.isSome_map.trans last⟩
  obtain ⟨⟨digits, e⟩, found⟩ := Option.isSome_iff_exists.1 hits
  refine ⟨digits, e, found, ?_⟩
  obtain ⟨grid, -, hit⟩ := List.exists_of_findSome?_eq_some found
  obtain ⟨best, onGrid, same⟩ := Option.map_eq_some_iff.1 hit
  cases same
  exact onGrid

/-- The digits that a finite number is written with are rounded to it. -/
theorem roundsTo_shortest (finite : x.isFinite = true) (positive : 0 < x.significand) :
    RoundsTo (x.shortest.1 * 10 ^ x.shortest.2) x.pattern := by
  obtain ⟨digits, e, found, grid⟩ := findSome?_grids (onGrid?_seventeenth positive)
  have rounded := roundsTo_of_holds (Nat.pow_pos (by decide)) finite (holds_of_onGrid? grid)
  rw [shortest, found, Option.getD_some, stripZeros_value, ← grid_point_eq]
  exact rounded

end Number.Binary64

end SemanticLayer
