/-!
# Binary floating point of 64 bits

A number is its pattern of bits. What the semantic layer needs of such numbers is decided on the
patterns in whole arithmetic: the value as a whole number times a power of two, the comparisons, and
the nearest number to a decimal.
-/

namespace SemanticLayer.Number

/-- A floating-point number of 64 bits, given by its pattern. -/
structure Binary64 where
  bits : UInt64
  deriving DecidableEq, Repr, Inhabited

namespace Binary64

/-- Whether the sign bit is set. -/
def isNegative (x : Binary64) : Bool :=
  x.bits >>> 63 == 1

/-- The eleven bits of the exponent. -/
def exponentField (x : Binary64) : Nat :=
  ((x.bits >>> 52) &&& 0x7FF).toNat

/-- The fifty-two bits of the fraction. -/
def fractionField (x : Binary64) : Nat :=
  (x.bits &&& 0xFFFFFFFFFFFFF).toNat

/-- Neither infinite nor a pattern that is no number. -/
def isFinite (x : Binary64) : Bool :=
  x.exponentField != 0x7FF

/-- A pattern that is no number. -/
def isNaN (x : Binary64) : Bool :=
  x.exponentField == 0x7FF && x.fractionField != 0

/-- The magnitude of a finite number is `significand * 2 ^ scale`. -/
def significand (x : Binary64) : Nat :=
  if x.exponentField = 0 then x.fractionField else x.fractionField + 0x10000000000000

/-- The power of two that the significand counts. -/
def scale (x : Binary64) : Int :=
  (max x.exponentField 1 : Nat) - 1075

/-- Zero with either sign. -/
def isZero (x : Binary64) : Bool :=
  x.exponentField == 0 && x.fractionField == 0

/-- The number with the given sign and magnitude pattern. -/
def ofMagnitude (negative : Bool) (magnitude : Nat) : Binary64 :=
  ⟨UInt64.ofNat (magnitude + if negative then 0x8000000000000000 else 0)⟩

/-- The pattern of an infinite magnitude. -/
def infiniteMagnitude : Nat := 0x7FF <<< 52

/-- An infinite number of the given sign. -/
def infinite (negative : Bool) : Binary64 :=
  ofMagnitude negative infiniteMagnitude

/-- A pattern that is no number. -/
def notANumber : Binary64 :=
  ⟨0x7FF8000000000000⟩

/-- One, the cost of what has no cost of its own. -/
def one : Binary64 :=
  ⟨0x3FF0000000000000⟩

/-- Equality of numbers: the two zeros are equal and a pattern that is no number equals nothing. -/
def equal (x y : Binary64) : Bool :=
  !x.isNaN && !y.isNaN && (x.bits == y.bits || (x.isZero && y.isZero))

/-- The place of a number in the total order of patterns: negative numbers come first, by falling
magnitude, and negative zero comes before zero. -/
def orderKey (x : Binary64) : Int :=
  let magnitude := (x.bits.toNat % 0x8000000000000000 : Nat)
  if x.isNegative then -(magnitude : Int) - 1 else magnitude

/-- The pattern of the magnitude nearest to `numerator / denominator`; of two that are equally near
the one with the even pattern. -/
def nearestMagnitude (numerator denominator : Nat) : Nat :=
  if numerator = 0 ∨ denominator = 0 then 0
  else
    let width : Int := (numerator.log2 : Int) - (denominator.log2 : Int)
    let quotient (scale : Int) : Nat × Nat × Nat :=
      if scale < 0 then
        let scaled := numerator <<< (-scale).toNat
        (scaled / denominator, scaled % denominator, denominator)
      else
        let divisor := denominator <<< scale.toNat
        (numerator / divisor, numerator % divisor, divisor)
    let first := max (width - 53) (-1074)
    let scale := if (quotient first).1 < 0x20000000000000 then first else first + 1
    let (whole, rest, divisor) := quotient scale
    let rounded :=
      if 2 * rest > divisor ∨ (2 * rest = divisor ∧ whole % 2 = 1) then whole + 1 else whole
    min ((scale + 1074).toNat <<< 52 + rounded) infiniteMagnitude

/-- The nearest number to `digits * 10 ^ exponent` with a sign. What is far too small or too large is
told by the place of its first digit. -/
def ofDecimal (negative : Bool) (digits : Nat) (exponent : Int) : Binary64 :=
  let places := (Nat.toDigits 10 digits).length
  ofMagnitude negative <|
    if digits = 0 ∨ (places : Int) + exponent < -330 then 0
    else if (places : Int) + exponent > 310 then infiniteMagnitude
    else if exponent < 0 then nearestMagnitude digits (Nat.pow 10 (-exponent).toNat)
    else nearestMagnitude (digits * Nat.pow 10 exponent.toNat) 1

/-- The nearest number to a whole number. -/
def ofInt (value : Int) : Binary64 :=
  ofDecimal (value < 0) value.natAbs 0

end Binary64
end SemanticLayer.Number
