import SemanticLayer.Grammar.Keywords
import SemanticLayer.Grammar.Reader

/-!
# Data types

The types that casts and typed literals name. No query is compiled from them, so reading a type
tells only of which sort it is.
-/

namespace SemanticLayer.Grammar

/-- What may follow the first word of a type. -/
inductive TypeShape where
  | bare
  | sized
  | integral
  | text
  | character
  | exact
  | double
  | zoned
  | enumerated
  | interval
  | array
  deriving DecidableEq, Repr

namespace TypeShape

/-- The built-in types by the shape they are written in. -/
def table : List (TypeShape × List String) :=
  [(bare, ["BOOLEAN", "BOOL", "REAL", "FLOAT4", "FLOAT8", "FLOAT32", "FLOAT64", "DATE", "DATE32",
      "INT16", "INT32", "INT64", "INT128", "INT256", "UINT8", "UINT16", "UINT32", "UINT64",
      "UINT128", "UINT256", "JSON", "JSONB", "REGCLASS", "TEXT", "BYTEA", "UUID", "TINYBLOB",
      "MEDIUMBLOB", "LONGBLOB", "TINYTEXT", "MEDIUMTEXT", "LONGTEXT"]),
    (sized, ["FLOAT", "BINARY", "VARBINARY", "BLOB", "CLOB", "BYTES", "STRING", "DATETIME",
      "TIMESTAMPTZ", "TIMETZ", "BIT", "VARBIT"]),
    (integral, ["TINYINT", "INT2", "SMALLINT", "MEDIUMINT", "INT", "INT4", "INT8", "INTEGER",
      "BIGINT"]),
    (text, ["VARCHAR", "NVARCHAR"]),
    (character, ["CHAR", "CHARACTER"]),
    (exact, ["NUMERIC", "DECIMAL", "DEC", "BIGNUMERIC", "BIGDECIMAL"]),
    (double, ["DOUBLE"]),
    (zoned, ["TIMESTAMP", "TIME"]),
    (enumerated, ["ENUM", "SET"]),
    (interval, ["INTERVAL"]),
    (array, ["ARRAY"])]

/-- The shape of the built-in type that a keyword starts. -/
def ofKeyword? (keyword : String) : Option TypeShape :=
  (table.find? fun entry => entry.2.contains keyword).map Prod.fst

end TypeShape

namespace Reader

/-- Takes a number. -/
def number : Reader String := do
  match ← next with
  | .number text => pure text
  | _ => unexpected

/-- Takes a text: a string, or a word that is no keyword. -/
def literalText (rules : Rules) : Reader String := do
  match ← next with
  | .string text | .literal .doubleQuoted text => pure text
  | .literal .escaped text => if rules.isGenericOr [.postgres] then pure text else unexpected
  | .word word => if word.isPlain then pure word.value else unexpected
  | _ => unexpected

/-- Takes sizes in parentheses if they come next. -/
def sizes? (most : Nat) : Reader Unit := do
  if ← mark? "(" then
    let _ ← number
    if most > 1 then
      if ← mark? "," then
        let _ ← number
        pure ()
    expectMark ")"

/-- Takes the length of a text type if it comes next. -/
def textLength? : Reader Unit := do
  if ← mark? "(" then
    if ← keyword? "MAX" then pure ()
    else
      let _ ← number
      let _ ← oneOf? ["CHARACTERS", "OCTETS"]
      pure ()
    expectMark ")"

/-- Takes a time zone clause if it comes next. -/
def zone? : Reader Unit := do
  if ← keyword? "WITH" then expectKeywords ["TIME", "ZONE"]
  else if ← keyword? "WITHOUT" then expectKeywords ["TIME", "ZONE"]

/-- Takes what follows the first word of a type of some shape; `inner` reads an element type. -/
def shaped (rules : Rules) (inner : Reader Unit) : TypeShape → Reader Unit
  | .bare | .interval => pure ()
  | .sized => sizes? 1
  | .integral => do
    sizes? 1
    let _ ← keyword? "UNSIGNED"
    pure ()
  | .text => textLength?
  | .character => do
    if ← keyword? "VARYING" then pure ()
    else
      let _ ← keywords? ["LARGE", "OBJECT"]
      pure ()
    textLength?
  | .exact => sizes? 2
  | .double => do
    let _ ← keyword? "PRECISION"
    pure ()
  | .zoned => do
    sizes? 1
    zone?
  | .enumerated => do
    let _ ← parenthesized (commaSeparated rules (literalText rules))
    pure ()
  | .array => do
    if rules ≠ .of .snowflake then
      expectMark "<"
      inner
      expectMark ">"

/-- Takes a modifier of a type that is not built in. -/
def typeModifier : Reader Unit := do
  match ← next with
  | .number _ | .string _ | .word _ => pure ()
  | _ => unexpected

/-- Takes the brackets that make a type one of arrays. -/
def arrayMarks : Nat → Reader Unit
  | 0 => pure ()
  | fuel + 1 => do
    if ← mark? "[" then
      let _ ← attempt number
      expectMark "]"
      arrayMarks fuel

/-- Takes a type, and tells its shape if it is built in. -/
def dataTypeWithin (rules : Rules) : Nat → Reader (Option TypeShape)
  | 0 => unexpected
  | fuel + 1 => do
    let shape := TypeShape.ofKeyword? (frontKeyword (← get))
    match shape with
    | some found => do
      let _ ← next
      shaped rules (do let _ ← dataTypeWithin rules fuel; pure ()) found
    | none => do
      let _ ← objectName rules
      if ← mark? "(" then
        let _ ← separated (fun _ => false) typeModifier
        expectMark ")"
    arrayMarks fuel
    pure shape

/-- Takes a type, and tells its shape if it is built in. -/
def dataType (rules : Rules) : Reader (Option TypeShape) := do
  let lexemes ← get
  dataTypeWithin rules (lexemes.length + 1)

end Reader
end SemanticLayer.Grammar
