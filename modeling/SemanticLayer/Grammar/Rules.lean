import SemanticLayer.Dialect

/-!
# Rules of reading

What the grammars of the dialects differ in when SQL is read. Without a dialect the generic grammar
is used; it takes most of what any dialect takes.
-/

namespace SemanticLayer.Grammar

/-- A grammar that SQL is read by. -/
inductive Rules where
  | generic
  | of (dialect : Dialect)
  deriving DecidableEq, Repr

namespace Rules

/-- The grammar for SQL of a dialect. Trino has no grammar of its own. -/
def ofDialect? : Option Dialect → Rules
  | none | some .trino => generic
  | some dialect => of dialect

/-- Whether the grammar is the generic one or that of one of the dialects. -/
def isGenericOr (rules : Rules) (dialects : List Dialect) : Bool :=
  match rules with
  | generic => true
  | of dialect => dialects.contains dialect

/-- Whether the grammar is that of one of the dialects. -/
def isOneOf (rules : Rules) (dialects : List Dialect) : Bool :=
  match rules with
  | generic => false
  | of dialect => dialects.contains dialect

/-! ## Characters -/

/-- Whether a character starts a word. -/
def startsWord (rules : Rules) (c : Char) : Bool :=
  let asciiLetter := c.isAlpha || c == '_'
  match rules with
  | of .duckDb => Text.isAlphabetic c || c == '_'
  | of .postgres => asciiLetter || c.toNat ≥ 0x80
  | of .mySql =>
    asciiLetter || c == '$' || c == '@' || (c.toNat ≥ 0x80 && c.toNat ≤ 0xFFFF)
  | of .snowflake => asciiLetter
  | of .bigQuery => asciiLetter
  | of .sqlite => asciiLetter || (c.toNat ≥ 0x7F && c.toNat ≤ 0xFFFF)
  | _ => Text.isAlphabetic c || c == '_' || c == '#' || c == '@'

/-- Whether a character continues a word. -/
def continuesWord (rules : Rules) (c : Char) : Bool :=
  match rules with
  | of .duckDb => Text.isAlphabetic c || c.isDigit || c == '$' || c == '_'
  | of .postgres => rules.startsWord c || c.isDigit || c == '$'
  | of .mySql | of .sqlite | of .bigQuery => rules.startsWord c || c.isDigit
  | of .snowflake => rules.startsWord c || c.isDigit || c == '$'
  | _ => Text.isAlphabetic c || c.isDigit || c == '@' || c == '$' || c == '#' || c == '_'

/-- The character that ends an identifier opened by a quotation mark, if it is one. -/
def identifierEnd? (rules : Rules) (c : Char) : Option Char :=
  let taken :=
    match rules with
    | of .postgres => c == '"'
    | of .mySql | of .bigQuery => c == '\x60'
    | of .tSql => c == '"' || c == '['
    | of .sqlite => c == '"' || c == '\x60' || c == '['
    | _ => c == '"' || c == '\x60'
  if taken then some (if c = '[' then ']' else c) else none

/-- Whether a backslash in a string escapes the character behind it. -/
def escapesByBackslash (rules : Rules) : Bool :=
  rules.isOneOf [.mySql, .bigQuery, .snowflake]

/-- Whether a double hyphen starts a comment only in front of a blank. -/
def commentNeedsBlank (rules : Rules) : Bool :=
  rules.isOneOf [.mySql]

/-- Whether a hash sign starts a comment. -/
def commentsByHash (rules : Rules) : Bool :=
  rules.isOneOf [.snowflake, .bigQuery, .mySql]

/-- Whether comments between slash and star may hold one another. -/
def nestsComments (rules : Rules) : Bool :=
  rules.isGenericOr [.postgres]

/-- Whether a word may start with digits. -/
def wordsStartWithDigits (rules : Rules) : Bool :=
  rules.isOneOf [.mySql]

/-- Whether a character may lengthen an operator. -/
def lengthensOperator (rules : Rules) (c : Char) : Bool :=
  rules.isOneOf [.postgres] &&
    "+-*/<>=~!@#%^&|\x60?".toList.contains c

/-! ## Clauses -/

/-- Whether a list may end in a comma. -/
def endsListsByComma (rules : Rules) : Bool :=
  rules.isOneOf [.duckDb]

/-- Whether a projection may end in a comma. -/
def endsProjectionsByComma (rules : Rules) : Bool :=
  rules.isOneOf [.duckDb, .bigQuery, .snowflake]

/-- Whether grouping takes GROUPING SETS, CUBE, ROLLUP and the empty group. -/
def groupsBySets (rules : Rules) : Bool :=
  rules.isGenericOr [.postgres, .duckDb]

/-- Whether a count of rows may be followed by a comma and a second one. -/
def limitsByComma (rules : Rules) : Bool :=
  rules.isGenericOr [.mySql, .sqlite]

/-- Whether an aggregate takes a FILTER. -/
def filtersAggregates (rules : Rules) : Bool :=
  rules.isOneOf [.postgres, .duckDb, .sqlite]

/-- Whether the arguments of a call may end in a treatment of missing values. -/
def treatsNullsInArguments (rules : Rules) : Bool :=
  rules.isGenericOr [.bigQuery, .snowflake]

/-- Whether an equals sign in a projection names its right side by its left. -/
def aliasesByEquals (rules : Rules) : Bool :=
  rules.isOneOf [.tSql]

/-- Whether a list of alternatives may be empty. -/
def takesEmptyLists (rules : Rules) : Bool :=
  rules.isOneOf [.sqlite]

/-- Whether maps are written in braces. -/
def writesMaps (rules : Rules) : Bool :=
  rules.isGenericOr [.duckDb]

/-- Whether an interval is an expression with a unit, and not one operand. -/
def intervalNeedsUnit (rules : Rules) : Bool :=
  rules.isOneOf [.mySql, .bigQuery]

/-- Whether two dots may stand between the first two parts of a name. -/
def skipsDefaultSchema (rules : Rules) : Bool :=
  rules.isOneOf [.snowflake, .tSql]

end Rules
end SemanticLayer.Grammar
