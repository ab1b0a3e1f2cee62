import SemanticLayer.Number.Binary64
import SemanticLayer.Number.Integer

/-!
# Decimal text of floating-point numbers

A text is read as the nearest number. A finite number is written with the fewest digits that read
back as the same number, and of those the nearest to it.
-/

namespace SemanticLayer.Number

/-- A decimal: `digits * 10 ^ exponent`, with its sign apart. -/
structure Decimal where
  negative : Bool
  digits : Nat
  exponent : Int
  deriving DecidableEq, Repr

namespace Decimal

/-- An optional sign in front of a text: whether it is a minus, and what follows. -/
def splitSign : List Char → Bool × List Char
  | '-' :: rest => (true, rest)
  | '+' :: rest => (false, rest)
  | rest => (false, rest)

/-- The exponent at the end of a decimal: nothing, or the letter `e` and a whole number. -/
def exponent? : List Char → Option Int
  | [] => some 0
  | c :: rest => if c = 'e' ∨ c = 'E' then integer? rest else none

/-- Digits with at most one point among them and at least one digit, and an optional exponent. -/
def unsigned? (negative : Bool) (chars : List Char) : Option Decimal :=
  let whole := chars.takeWhile Char.isDigit
  let afterWhole := chars.dropWhile Char.isDigit
  let (fraction, rest) :=
    match afterWhole with
    | '.' :: more => (more.takeWhile Char.isDigit, more.dropWhile Char.isDigit)
    | _ => ([], afterWhole)
  if whole = [] ∧ fraction = [] then none
  else
    (exponent? rest).map fun exponent =>
      ⟨negative, digitsValue (whole ++ fraction), exponent - fraction.length⟩

/-- A decimal with an optional sign. -/
def ofText? (chars : List Char) : Option Decimal :=
  let (negative, rest) := splitSign chars
  unsigned? negative rest

/-- The nearest floating-point number. -/
def toBinary64 (d : Decimal) : Binary64 :=
  Binary64.ofDecimal d.negative d.digits d.exponent

end Decimal

namespace Binary64

/-- A text as the nearest number; the infinities and the pattern that is no number have names, in
any case of letters. -/
def ofText? (chars : List Char) : Option Binary64 :=
  let (negative, rest) := Decimal.splitSign chars
  let word := String.ofList (rest.map Char.toLower)
  if word = "inf" ∨ word = "infinity" then some (infinite negative)
  else if word = "nan" then
    some (if negative then ⟨notANumber.bits ||| 0x8000000000000000⟩ else notANumber)
  else (Decimal.unsigned? negative rest).map Decimal.toBinary64

/-- Four times the value of a finite number, over a common denominator, with the ends of the
interval of values that round to it. -/
structure Neighbourhood where
  low : Nat
  centre : Nat
  high : Nat
  denominator : Nat
  closed : Bool

/-- The interval that rounds to a finite number other than zero. Below a power of two the numbers
lie twice as close. -/
def neighbourhood (x : Binary64) : Neighbourhood :=
  let m := x.significand
  let gap := if x.fractionField = 0 ∧ x.exponentField > 1 then 1 else 2
  let up := x.scale.toNat
  let down := (-x.scale).toNat
  ⟨(4 * m - gap) <<< up, (4 * m) <<< up, (4 * m + 2) <<< up, 4 <<< down, m % 2 = 0⟩

/-- Whether `point / divisor` lies in the interval. -/
def Neighbourhood.holds (n : Neighbourhood) (point divisor : Nat) : Bool :=
  let low := n.low * divisor
  let high := n.high * divisor
  let scaled := point * n.denominator
  if n.closed then low ≤ scaled && scaled ≤ high else low < scaled && scaled < high

/-- How many zeros follow the point of `numerator / denominator`, a quotient below one. -/
def zerosAfterPoint (denominator : Nat) : Nat → Nat → Nat
  | 0, _ => 0
  | fuel + 1, numerator =>
    if denominator ≤ 10 * numerator then 0
    else zerosAfterPoint denominator fuel (10 * numerator) + 1

/-- The place of the first digit of `numerator / denominator`: the number of digits before the
point, or the number of zeros after it, negated. -/
def leadingPlace (numerator denominator : Nat) : Int :=
  if denominator ≤ numerator then (Nat.toDigits 10 (numerator / denominator)).length
  else -(zerosAfterPoint denominator 400 numerator : Int)

/-- The best decimal whose last digit stands for `10 ^ exponent`, if one reads back: of the two
next to the value the nearer, and of two equally near the even one. -/
def onGrid? (n : Neighbourhood) (exponent : Int) : Option Nat :=
  let up := Nat.pow 10 exponent.toNat
  let down := Nat.pow 10 (-exponent).toNat
  let below := (n.centre * down) / (n.denominator * up)
  let distanceBelow := n.centre * down - below * up * n.denominator
  let distanceAbove := (below + 1) * up * n.denominator - n.centre * down
  let holds (digits : Nat) : Bool := n.holds (digits * up) down
  match holds below, holds (below + 1) with
  | true, true =>
    if distanceBelow < distanceAbove ∨ (distanceBelow = distanceAbove ∧ below % 2 = 0) then
      some below
    else some (below + 1)
  | true, false => some below
  | false, true => some (below + 1)
  | false, false => none

/-- A decimal without zeros at the end of its digits. -/
def stripZeros : Nat → Nat × Int → Nat × Int
  | 0, pair => pair
  | fuel + 1, (digits, exponent) =>
    if digits % 10 = 0 then stripZeros fuel (digits / 10, exponent + 1) else (digits, exponent)

/-- The fewest digits that read back as a finite number other than zero, with the power of ten that
the last of them stands for. -/
def shortest (x : Binary64) : Nat × Int :=
  let n := x.neighbourhood
  let place := leadingPlace n.centre n.denominator
  let grids : List Int := (List.range 17).map fun count => place - (count + 1 : Nat)
  let found := grids.findSome? fun exponent => (onGrid? n exponent).map fun d => (d, exponent)
  stripZeros 20 (found.getD (0, 0))

/-- The written form: plain digits with a point from a hundred-thousandth up to sixteen places, and
an exponent outside of that. A whole number ends in `.0`. -/
def text (x : Binary64) : String :=
  let sign := if x.isNegative then "-" else ""
  if x.isNaN then "NaN"
  else if !x.isFinite then sign ++ "inf"
  else if x.isZero then sign ++ "0.0"
  else
    let (digits, exponent) := x.shortest
    let chars := natText digits
    let place := exponent + chars.length
    let body : List Char :=
      if 0 ≤ exponent ∧ place ≤ 16 then
        chars ++ List.replicate exponent.toNat '0' ++ ['.', '0']
      else if 0 < place ∧ place ≤ 16 then
        chars.take place.toNat ++ '.' :: chars.drop place.toNat
      else if -5 < place ∧ place ≤ 0 then
        '0' :: '.' :: List.replicate (-place).toNat '0' ++ chars
      else
        let head := chars.take 1
        let tail := chars.drop 1
        head ++ (if tail = [] then [] else '.' :: tail) ++ 'e' :: (intText (place - 1)).toList
    sign ++ String.ofList body

end Binary64
end SemanticLayer.Number
