import SemanticLayer.Text.CharTables

/-!
# Classes of characters

The classes that names, filters and blanks are read by. All of them cover the whole of Unicode; the
ASCII part is decided by a direct test.
-/

namespace SemanticLayer.Text

/-- Whether some range holds the code point. -/
def inRanges (ranges : List (Nat × Nat)) (code : Nat) : Bool :=
  ranges.any fun range => range.1 ≤ code && code ≤ range.2

/-- Letters and everything else with the property Alphabetic. -/
def isAlphabetic (c : Char) : Bool :=
  if c.toNat < 0x80 then c.isAlpha else inRanges alphabeticRanges c.toNat

/-- Digits and other numerals, of every numeric category. -/
def isNumeric (c : Char) : Bool :=
  if c.toNat < 0x80 then c.isDigit
  else inRanges decimalDigitRanges c.toNat || inRanges otherNumberRanges c.toNat

/-- Alphabetic characters and numerals. -/
def isAlphanumeric (c : Char) : Bool :=
  isAlphabetic c || isNumeric c

/-- The characters of words: letters, marks, decimal digits, connectors such as the underscore, and
the two joiners. -/
def isWordChar (c : Char) : Bool :=
  if c.toNat < 0x80 then c.isAlphanum || c == '_'
  else
    inRanges alphabeticRanges c.toNat || inRanges markRanges c.toNat ||
      inRanges decimalDigitRanges c.toNat || inRanges connectorRanges c.toNat ||
      c.toNat == 0x200C || c.toNat == 0x200D

/-- Blanks of every kind, line ends included. -/
def isBlank (c : Char) : Bool :=
  inRanges blankRanges c.toNat

/-- The text without the blanks at either end. -/
def trim (chars : List Char) : List Char :=
  ((chars.dropWhile isBlank).reverse.dropWhile isBlank).reverse

/-- The text with its ASCII letters in lower case. -/
def asciiLower (text : String) : String :=
  String.ofList (text.toList.map Char.toLower)

end SemanticLayer.Text
