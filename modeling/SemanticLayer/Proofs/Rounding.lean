import Mathlib.Algebra.Order.Field.Power
import Mathlib.Algebra.Order.Ring.Abs
import Mathlib.Data.Rat.Cast.Order
import Mathlib.Tactic.FieldSimp
import Mathlib.Tactic.Linarith
import Mathlib.Tactic.Positivity
import Mathlib.Tactic.Ring
import SemanticLayer.Proofs.Magnitudes

/-!
# Rounding

A number that is no floating-point number is read as the one nearest to it, and as the one with the
even pattern if two are equally near. Magnitudes are counted in the least positive number; the
patterns without a sign are those numbers in increasing order, so the pattern that a number is
rounded to is told by the midpoints on either side of it, and there is only one.
-/

namespace SemanticLayer

namespace Number.Binary64

/-! ## Steps -/

/-- How many of the least positive number make one. -/
def stepsPerUnit : Nat := 2 ^ 1074

theorem cast_stepsPerUnit : (stepsPerUnit : ℚ) = 2 ^ 1074 := by
  rw [stepsPerUnit, Nat.cast_pow, Nat.cast_ofNat]

theorem stepsPerUnit_pos : (0 : ℚ) < stepsPerUnit := by
  rw [cast_stepsPerUnit]
  positivity

/-- The magnitude of a pattern in steps of the least positive number. The infinite pattern goes on
where the finite ones end. -/
def steps (pattern : Nat) : Nat :=
  if pattern < 2 ^ 52 then pattern
  else (pattern % 2 ^ 52 + 2 ^ 52) * 2 ^ (pattern / 2 ^ 52 - 1)

/-- The steps of a pattern that is given by its exponent and its significand. A significand that is
too long by one place stands for the next exponent. -/
theorem steps_scaled {k w : Nat} (normal : k = 0 ∨ 2 ^ 52 ≤ w) (small : w ≤ 2 ^ 53) :
    steps (k * 2 ^ 52 + w) = w * 2 ^ k := by
  unfold steps
  rcases Nat.lt_or_ge w (2 ^ 52) with short | long
  · obtain rfl : k = 0 := normal.resolve_right (Nat.not_le.2 short)
    rw [if_pos (by omega)]
    omega
  · rw [if_neg (by omega)]
    rcases Nat.lt_or_eq_of_le small with fits | rfl
    · rw [show (k * 2 ^ 52 + w) % 2 ^ 52 + 2 ^ 52 = w by omega,
        show (k * 2 ^ 52 + w) / 2 ^ 52 - 1 = k by omega]
    · rw [show (k * 2 ^ 52 + 2 ^ 53) % 2 ^ 52 + 2 ^ 52 = 2 ^ 52 by omega,
        show (k * 2 ^ 52 + 2 ^ 53) / 2 ^ 52 - 1 = k + 1 by omega, ← Nat.pow_add, ← Nat.pow_add]
      congr 1
      omega

/-- Every pattern has an exponent and a significand. -/
theorem exists_scaled (pattern : Nat) :
    ∃ k w, pattern = k * 2 ^ 52 + w ∧ (k = 0 ∨ 2 ^ 52 ≤ w) ∧ w < 2 ^ 53 := by
  rcases Nat.lt_or_ge pattern (2 ^ 52) with short | long
  · exact ⟨0, pattern, by omega, .inl rfl, by omega⟩
  · exact ⟨pattern / 2 ^ 52 - 1, pattern % 2 ^ 52 + 2 ^ 52, by omega, .inr (by omega), by omega⟩

theorem steps_lt_steps_succ (pattern : Nat) : steps pattern < steps (pattern + 1) := by
  obtain ⟨k, w, rfl, normal, small⟩ := exists_scaled pattern
  rw [Nat.add_assoc, steps_scaled normal (by omega), steps_scaled (by omega) (by omega)]
  exact Nat.mul_lt_mul_of_pos_right (by omega) (by positivity)

theorem steps_strictMono : StrictMono steps :=
  strictMono_nat_of_lt_succ steps_lt_steps_succ

/-- Twice the magnitude half-way between a pattern and the next. -/
def midpoint (pattern : Nat) : Nat :=
  steps pattern + steps (pattern + 1)

theorem cast_midpoint (pattern : Nat) :
    (midpoint pattern : ℚ) = steps pattern + steps (pattern + 1) :=
  Nat.cast_add _ _

theorem midpoint_strictMono : StrictMono midpoint := fun _ _ less =>
  Nat.add_lt_add (steps_strictMono less) (steps_strictMono (Nat.succ_lt_succ less))

/-! ## The pattern of a magnitude -/

/-- A magnitude in halves of the least positive number. -/
def halfSteps (q : ℚ) : ℚ :=
  2 * (q * stepsPerUnit)

/-- Whether a magnitude is rounded to a pattern: it lies between the midpoints on either side, and
on a midpoint only if the pattern is even. All beyond the last midpoint is rounded to the infinite
pattern. -/
structure RoundsTo (q : ℚ) (pattern : Nat) : Prop where
  le : pattern ≤ infiniteMagnitude
  low : ∀ below, pattern = below + 1 →
    midpoint below < halfSteps q ∨ midpoint below = halfSteps q ∧ pattern % 2 = 0
  high : pattern < infiniteMagnitude →
    halfSteps q < midpoint pattern ∨ halfSteps q = midpoint pattern ∧ pattern % 2 = 0

namespace RoundsTo

variable {q : ℚ} {pattern other : Nat}

theorem low_le {below : Nat} (rounds : RoundsTo q pattern) (less : below < pattern) :
    midpoint below ≤ halfSteps q := by
  obtain ⟨last, rfl⟩ : ∃ last, pattern = last + 1 := ⟨pattern - 1, by omega⟩
  have beneath : (midpoint below : ℚ) ≤ midpoint last := by
    exact_mod_cast midpoint_strictMono.monotone (Nat.le_of_lt_succ less)
  rcases rounds.low last rfl with strict | ⟨same, -⟩
  · exact beneath.trans strict.le
  · exact beneath.trans same.le

theorem le_high (rounds : RoundsTo q pattern) (finite : pattern < infiniteMagnitude) :
    halfSteps q ≤ midpoint pattern := by
  rcases rounds.high finite with strict | ⟨same, -⟩
  · exact strict.le
  · exact same.le

/-- A magnitude is rounded to no pattern beyond another one that it is rounded to. -/
theorem not_lt (rounds : RoundsTo q pattern) (again : RoundsTo q other) : ¬ pattern < other := by
  intro less
  have finite : pattern < infiniteMagnitude := less.trans_le again.le
  have upper := rounds.le_high finite
  have lower := again.low_le less
  have met : halfSteps q = midpoint pattern := le_antisymm upper lower
  have even : pattern % 2 = 0 := by
    rcases rounds.high finite with strict | ⟨-, even⟩
    · exact absurd met strict.ne
    · exact even
  obtain ⟨last, rfl⟩ : ∃ last, other = last + 1 := ⟨other - 1, by omega⟩
  have same : midpoint last ≤ midpoint pattern := by
    rcases again.low last rfl with strict | ⟨same, -⟩
    · exact_mod_cast (strict.le.trans upper)
    · exact_mod_cast (same.le.trans upper)
  obtain rfl : last = pattern :=
    Nat.le_antisymm (midpoint_strictMono.le_iff_le.1 same) (Nat.le_of_lt_succ less)
  rcases again.low last rfl with strict | ⟨-, evenToo⟩
  · exact absurd met strict.ne'
  · omega

/-- A magnitude is rounded to one pattern only. -/
theorem unique (rounds : RoundsTo q pattern) (again : RoundsTo q other) : pattern = other :=
  Nat.le_antisymm (Nat.not_lt.1 (again.not_lt rounds)) (Nat.not_lt.1 (rounds.not_lt again))

/-- A pattern that is told by its midpoints, but may lie beyond the infinite one, is cut down to
that. -/
theorem of_midpoints
    (low : ∀ below, pattern = below + 1 →
      midpoint below < halfSteps q ∨ midpoint below = halfSteps q ∧ pattern % 2 = 0)
    (high : halfSteps q < midpoint pattern ∨ halfSteps q = midpoint pattern ∧ pattern % 2 = 0) :
    RoundsTo q (min pattern infiniteMagnitude) := by
  rcases Nat.lt_or_ge pattern infiniteMagnitude with finite | beyond
  · rw [Nat.min_eq_left finite.le]
    exact ⟨finite.le, low, fun _ => high⟩
  · rw [Nat.min_eq_right beyond]
    refine ⟨le_rfl, fun below same => ?_, fun less => absurd less (lt_irrefl _)⟩
    obtain ⟨last, rfl⟩ : ∃ last, pattern = last + 1 := ⟨pattern - 1, by omega⟩
    have beneath : (midpoint below : ℚ) ≤ midpoint last := by
      exact_mod_cast midpoint_strictMono.monotone (by omega)
    rcases low last rfl with strict | ⟨met, -⟩
    · exact .inl (beneath.trans_lt strict)
    · rcases beneath.lt_or_eq with less | level
      · exact .inl (less.trans_eq met)
      · exact .inr ⟨level.trans met, by decide⟩

end RoundsTo

/-- What is less than half of the least positive number is rounded to zero. -/
theorem roundsTo_zero_of_lt {q : ℚ} (less : halfSteps q < 1) : RoundsTo q 0 := by
  have one : midpoint 0 = 1 := by decide
  refine ⟨Nat.zero_le _, fun below same => by omega, fun _ => .inl ?_⟩
  rw [one]
  exact_mod_cast less

theorem roundsTo_zero : RoundsTo 0 0 := by
  refine roundsTo_zero_of_lt ?_
  rw [halfSteps, zero_mul, mul_zero]
  exact one_pos

/-! ## Quotients -/

/-- A magnitude of `w` whole steps of a power of two and a fraction of one is rounded to the pattern
of the nearer whole number of steps, and half-way to the even one. -/
theorem roundsTo_of_split {q f : ℚ} {k w : Nat} (normal : k = 0 ∨ 2 ^ 52 ≤ w) (small : w < 2 ^ 53)
    (split : q * stepsPerUnit = (w + f) * 2 ^ k) (low : 0 ≤ f) (high : f < 1) :
    RoundsTo q (min
      (k * 2 ^ 52 + if 1 < 2 * f ∨ 2 * f = 1 ∧ w % 2 = 1 then w + 1 else w) infiniteMagnitude) := by
  have unit : (0 : ℚ) < 2 ^ k := by positivity
  have half : halfSteps q = (2 * w + 2 * f) * 2 ^ k := by
    rw [halfSteps, split]
    ring
  have here : (steps (k * 2 ^ 52 + w) : ℚ) = w * 2 ^ k := by
    exact_mod_cast steps_scaled normal small.le
  have next : (steps (k * 2 ^ 52 + w + 1) : ℚ) = (w + 1) * 2 ^ k := by
    have scaled := steps_scaled (normal.imp_right Nat.le_succ_of_le) (Nat.succ_le_of_lt small)
    rw [Nat.add_assoc]
    exact_mod_cast scaled
  have middle : (midpoint (k * 2 ^ 52 + w) : ℚ) = (2 * w + 1) * 2 ^ k := by
    rw [cast_midpoint, here, next]
    ring
  split_ifs with up
  · refine RoundsTo.of_midpoints (fun below same => ?_) (.inl ?_)
    · obtain rfl : below = k * 2 ^ 52 + w := by omega
      rw [middle, half]
      rcases up with above | ⟨tie, odd⟩
      · exact .inl (mul_lt_mul_of_pos_right (by linarith) unit)
      · exact .inr ⟨by rw [tie], by omega⟩
    · have beyond : (steps (k * 2 ^ 52 + w + 1) : ℚ) < steps (k * 2 ^ 52 + w + 1 + 1) := by
        exact_mod_cast steps_lt_steps_succ _
      have under : (2 * w + 2 * f) * 2 ^ k < 2 * ((w + 1) * 2 ^ k) := by
        linarith [mul_lt_mul_of_pos_right high unit]
      rw [half, ← Nat.add_assoc, cast_midpoint]
      linarith
  · push Not at up
    refine RoundsTo.of_midpoints (fun below same => .inl ?_) ?_
    · have beneath : (steps below : ℚ) < steps (k * 2 ^ 52 + w) := by
        rw [same]
        exact_mod_cast steps_lt_steps_succ _
      have least : 2 * (w * 2 ^ k) ≤ (2 * w + 2 * f) * 2 ^ k := by
        linarith [mul_nonneg low unit.le]
      rw [half, cast_midpoint, ← same]
      linarith
    · rw [middle, half]
      rcases up.1.lt_or_eq with under | tie
      · exact .inl (mul_lt_mul_of_pos_right (by linarith) unit)
      · exact .inr ⟨by rw [tie], by have := up.2 tie; omega⟩

/-- The whole part, the rest and the divisor of `numerator / denominator` in units of a power of
two. -/
def quotientAt (numerator denominator : Nat) (scale : Int) : Nat × Nat × Nat :=
  if scale < 0 then
    let scaled := numerator <<< (-scale).toNat
    (scaled / denominator, scaled % denominator, denominator)
  else
    let divisor := denominator <<< scale.toNat
    (numerator / divisor, numerator % divisor, divisor)

theorem whole_add_rest (numerator : Nat) {divisor : Nat} (positive : 0 < divisor) :
    ((numerator / divisor : Nat) : ℚ) + (numerator % divisor : Nat) / divisor =
      numerator / divisor := by
  have nonzero : (divisor : ℚ) ≠ 0 := by positivity
  have whole : (numerator : ℚ) =
      divisor * (numerator / divisor : Nat) + (numerator % divisor : Nat) := by
    exact_mod_cast (Nat.div_add_mod numerator divisor).symm
  rw [eq_div_iff nonzero, add_mul, div_mul_cancel₀ _ nonzero, mul_comm, ← whole]

/-- The parts of a quotient make up its magnitude in steps. -/
theorem quotientAt_spec (numerator : Nat) {denominator : Nat} (positive : 0 < denominator)
    (k : Nat) :
    let parts := quotientAt numerator denominator (k - 1074)
    (numerator / denominator : ℚ) * stepsPerUnit =
        (parts.1 + parts.2.1 / parts.2.2) * 2 ^ k ∧
      parts.2.1 < parts.2.2 := by
  have nonzero : (denominator : ℚ) ≠ 0 := by positivity
  unfold quotientAt
  split_ifs with negative
  · have power : (stepsPerUnit : ℚ) = 2 ^ (1074 - k) * 2 ^ k := by
      rw [cast_stepsPerUnit, ← pow_add]
      congr 1
      omega
    refine ⟨?_, Nat.mod_lt _ positive⟩
    dsimp only
    rw [whole_add_rest _ positive, Nat.shiftLeft_eq,
      show (-((k : Int) - 1074)).toNat = 1074 - k by omega, power]
    push_cast
    ring
  · have power : (2 : ℚ) ^ k = 2 ^ (k - 1074) * stepsPerUnit := by
      rw [cast_stepsPerUnit, ← pow_add]
      congr 1
      omega
    have shifted : denominator <<< ((k : Int) - 1074).toNat = denominator * 2 ^ (k - 1074) := by
      rw [Nat.shiftLeft_eq, show ((k : Int) - 1074).toNat = k - 1074 by omega]
    have large : 0 < denominator <<< ((k : Int) - 1074).toNat := by
      rw [shifted]
      positivity
    refine ⟨?_, Nat.mod_lt _ large⟩
    dsimp only
    rw [whole_add_rest _ large, shifted, power]
    push_cast
    generalize (stepsPerUnit : ℚ) = units
    field_simp

theorem quotientAt_lt_iff (numerator : Nat) {denominator : Nat} (positive : 0 < denominator)
    (k bound : Nat) :
    (quotientAt numerator denominator (k - 1074)).1 < bound ↔
      (numerator / denominator : ℚ) * stepsPerUnit < bound * 2 ^ k := by
  obtain ⟨split, proper⟩ := quotientAt_spec numerator positive k
  set parts := quotientAt numerator denominator (k - 1074)
  have unit : (0 : ℚ) < 2 ^ k := by positivity
  have divisor : (0 : ℚ) < parts.2.2 := by exact_mod_cast (Nat.zero_le _).trans_lt proper
  have low : (0 : ℚ) ≤ parts.2.1 / parts.2.2 := by positivity
  have high : (parts.2.1 / parts.2.2 : ℚ) < 1 := by
    rw [div_lt_one divisor]
    exact_mod_cast proper
  rw [split, mul_lt_mul_iff_left₀ unit]
  constructor
  · intro less
    have step : (parts.1 : ℚ) + 1 ≤ bound := by exact_mod_cast less
    linarith
  · intro less
    exact_mod_cast (le_add_of_nonneg_right low).trans_lt less

/-- The power of two by which a magnitude is divided first: the quotient has at most one place too
many. -/
theorem quotient_bounds {numerator denominator : Nat} (some : numerator ≠ 0)
    (positive : denominator ≠ 0) {k : Nat}
    (first : max ((numerator.log2 : Int) - denominator.log2 - 53) (-1074) = (k : Int) - 1074) :
    (numerator / denominator : ℚ) * stepsPerUnit < 2 ^ 54 * 2 ^ k ∧
      (k = 0 ∨ 2 ^ 52 * 2 ^ k ≤ (numerator / denominator : ℚ) * stepsPerUnit) := by
  have above : (0 : ℚ) < denominator := by positivity
  have numeratorLow : (2 : ℚ) ^ numerator.log2 ≤ numerator := by
    exact_mod_cast Nat.log2_self_le some
  have numeratorHigh : (numerator : ℚ) < 2 ^ (numerator.log2 + 1) := by
    exact_mod_cast Nat.lt_log2_self
  have denominatorLow : (2 : ℚ) ^ denominator.log2 ≤ denominator := by
    exact_mod_cast Nat.log2_self_le positive
  have denominatorHigh : (denominator : ℚ) < 2 ^ (denominator.log2 + 1) := by
    exact_mod_cast Nat.lt_log2_self
  rw [cast_stepsPerUnit]
  constructor
  · rw [div_mul_eq_mul_div, div_lt_iff₀ above]
    calc (numerator : ℚ) * 2 ^ 1074
        < 2 ^ (numerator.log2 + 1) * 2 ^ 1074 := by gcongr
      _ ≤ 2 ^ 54 * 2 ^ k * 2 ^ denominator.log2 := by
        rw [← pow_add, ← pow_add, ← pow_add]
        exact pow_le_pow_right₀ (by norm_num) (by omega)
      _ ≤ 2 ^ 54 * 2 ^ k * denominator := by gcongr
  · refine or_iff_not_imp_left.2 fun later => ?_
    rw [div_mul_eq_mul_div, le_div_iff₀ above]
    calc (2 : ℚ) ^ 52 * 2 ^ k * denominator
        ≤ 2 ^ 52 * 2 ^ k * 2 ^ (denominator.log2 + 1) := by gcongr
      _ ≤ 2 ^ numerator.log2 * 2 ^ 1074 := by
        rw [← pow_add, ← pow_add, ← pow_add]
        exact pow_le_pow_right₀ (by norm_num) (by omega)
      _ ≤ numerator * 2 ^ 1074 := by gcongr

/-- The parts of a quotient that fits its significand give the pattern of its magnitude. -/
theorem roundsTo_quotientAt (numerator : Nat) {denominator : Nat} (positive : 0 < denominator)
    {k : Nat} {scale : Int} (same : scale = k - 1074)
    (normal : k = 0 ∨ 2 ^ 52 * 2 ^ k ≤ (numerator / denominator : ℚ) * stepsPerUnit)
    (small : (numerator / denominator : ℚ) * stepsPerUnit < 2 ^ 53 * 2 ^ k) :
    let parts := quotientAt numerator denominator scale
    RoundsTo (numerator / denominator) (min
      ((scale + 1074).toNat <<< 52 +
        if 2 * parts.2.1 > parts.2.2 ∨ (2 * parts.2.1 = parts.2.2 ∧ parts.1 % 2 = 1) then
          parts.1 + 1
        else parts.1)
      infiniteMagnitude) := by
  subst same
  have fits := (quotientAt_lt_iff numerator positive k (2 ^ 53)).2 (by exact_mod_cast small)
  have long : k = 0 ∨ 2 ^ 52 ≤ (quotientAt numerator denominator (k - 1074)).1 := by
    refine normal.imp_right fun least => Nat.not_lt.1 fun short => ?_
    have less := (quotientAt_lt_iff numerator positive k (2 ^ 52)).1 short
    exact absurd least (not_le.2 (by exact_mod_cast less))
  obtain ⟨split, proper⟩ := quotientAt_spec numerator positive k
  dsimp only
  set parts := quotientAt numerator denominator (k - 1074)
  have divisor : (0 : ℚ) < parts.2.2 := by exact_mod_cast (Nat.zero_le _).trans_lt proper
  have above : (1 : ℚ) < 2 * (parts.2.1 / parts.2.2) ↔ 2 * parts.2.1 > parts.2.2 := by
    rw [← mul_div_assoc, one_lt_div divisor]
    exact_mod_cast Iff.rfl
  have tie : (2 * (parts.2.1 / parts.2.2) : ℚ) = 1 ↔ 2 * parts.2.1 = parts.2.2 := by
    rw [← mul_div_assoc, div_eq_one_iff_eq divisor.ne']
    exact_mod_cast Iff.rfl
  have low : (0 : ℚ) ≤ parts.2.1 / parts.2.2 := by positivity
  have high : (parts.2.1 / parts.2.2 : ℚ) < 1 := by
    rw [div_lt_one divisor]
    exact_mod_cast proper
  have rounded := roundsTo_of_split long fits split low high
  simp only [above, tie] at rounded
  rw [Nat.shiftLeft_eq, show ((k : Int) - 1074 + 1074).toNat = k by omega]
  exact rounded

/-- The pattern of a quotient by its parts. -/
theorem nearestMagnitude_eq {numerator denominator : Nat} (some : numerator ≠ 0)
    (positive : denominator ≠ 0) :
    nearestMagnitude numerator denominator =
      let first := max ((numerator.log2 : Int) - denominator.log2 - 53) (-1074)
      let scale :=
        if (quotientAt numerator denominator first).1 < 0x20000000000000 then first else first + 1
      let parts := quotientAt numerator denominator scale
      min
        ((scale + 1074).toNat <<< 52 +
          if 2 * parts.2.1 > parts.2.2 ∨ (2 * parts.2.1 = parts.2.2 ∧ parts.1 % 2 = 1) then
            parts.1 + 1
          else parts.1)
        infiniteMagnitude := by
  rw [nearestMagnitude, if_neg (by simp [some, positive])]
  rfl

/-- A quotient is read as the pattern that it is rounded to. -/
theorem roundsTo_nearestMagnitude (numerator : Nat) {denominator : Nat}
    (positive : denominator ≠ 0) :
    RoundsTo (numerator / denominator) (nearestMagnitude numerator denominator) := by
  by_cases some : numerator = 0
  · subst some
    have zero : nearestMagnitude 0 denominator = 0 := by simp [nearestMagnitude]
    rw [zero, Nat.cast_zero, zero_div]
    exact roundsTo_zero
  · obtain ⟨k, first⟩ : ∃ k : Nat,
        max ((numerator.log2 : Int) - denominator.log2 - 53) (-1074) = (k : Int) - 1074 :=
      ⟨(max ((numerator.log2 : Int) - denominator.log2 - 53) (-1074) + 1074).toNat, by omega⟩
    have above : 0 < denominator := Nat.pos_of_ne_zero positive
    obtain ⟨high, low⟩ := quotient_bounds some positive first
    have fits := quotientAt_lt_iff numerator above k (2 ^ 53)
    push_cast at fits
    rw [nearestMagnitude_eq some positive, first]
    by_cases short : (quotientAt numerator denominator (k - 1074)).1 < 0x20000000000000
    · refine roundsTo_quotientAt (k := k) numerator above (if_pos short) low ?_
      exact_mod_cast fits.1 short
    · refine roundsTo_quotientAt (k := k + 1) numerator above ?_ (.inr ?_) ?_
      · rw [if_neg short]
        push_cast
        ring
      · have least := not_lt.1 (mt fits.2 short)
        rw [pow_succ (2 : ℚ) k]
        linarith
      · rw [pow_succ (2 : ℚ) k]
        linarith

end Number.Binary64

end SemanticLayer
