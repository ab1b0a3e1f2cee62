/-!
# Whole numbers as text

Reading and writing of whole numbers in decimal. A reader takes an optional sign and at least one
digit and nothing else, and refuses what its range does not hold.
-/

namespace SemanticLayer.Number

/-- The value of decimal digits, most significant first. -/
def digitsValue (digits : List Char) : Nat :=
  digits.foldl (fun value c => 10 * value + (c.toNat - '0'.toNat)) 0

/-- The value of a text of one or more digits. -/
def natural? (digits : List Char) : Option Nat :=
  if digits ≠ [] ∧ digits.all Char.isDigit then some (digitsValue digits) else none

/-- The value of a text of digits with an optional sign. -/
def integer? : List Char → Option Int
  | '-' :: digits => (natural? digits).map fun n => -(n : Int)
  | '+' :: digits => (natural? digits).map Int.ofNat
  | digits => (natural? digits).map Int.ofNat

/-- The smallest signed word. -/
def minSigned : Int := -9223372036854775808

/-- The greatest signed word. -/
def maxSigned : Int := 9223372036854775807

/-- The greatest unsigned word. -/
def maxUnsigned : Nat := 18446744073709551615

/-- A text as a signed word of 64 bits, if it names one. -/
def int64? (chars : List Char) : Option Int64 :=
  (integer? chars).bind fun n =>
    if minSigned ≤ n ∧ n ≤ maxSigned then some (Int64.ofInt n) else none

/-- A text as an unsigned word of 64 bits, if it names one; a plus sign may stand in front. -/
def uint64? (chars : List Char) : Option UInt64 :=
  let digits :=
    match chars with
    | '+' :: rest => rest
    | rest => rest
  (natural? digits).bind fun n =>
    if n ≤ maxUnsigned then some (UInt64.ofNat n) else none

/-- The decimal digits of a number, most significant first. -/
def natText (n : Nat) : List Char :=
  Nat.toDigits 10 n

/-- A number in decimal, with a minus sign in front if it is negative. -/
def intText : Int → String
  | .ofNat n => String.ofList (natText n)
  | .negSucc n => String.ofList ('-' :: natText (n + 1))

end SemanticLayer.Number
