import SemanticLayer.Grammar.DataType
import SemanticLayer.Grammar.Operator

/-!
# Reading expressions

An expression is an operand and what binds to it from the right, as long as that binds tighter than
what stands in front of the operand. Expressions hold expressions and queries; a `Level` reads those
one level of nesting further down.
-/

namespace SemanticLayer.Grammar

open Sql (Name Path)

/-- How to read what is nested one level further down: an expression of what binds tighter than a
given strength, and a query. -/
structure Level where
  rules : Rules
  expr : Nat → Reader Expr
  query : Reader Query

namespace Level

open Reader

/-- Reads any expression. -/
def expression (level : Level) : Reader Expr :=
  level.expr 0

/-- Reads an operand of what binds with some strength. -/
def operandOf (level : Level) (binding : Binding) : Reader Expr :=
  level.expr (binding.strength level.rules)

/-- Reads expressions with commas between them. -/
def expressions (level : Level) : Reader (List Expr) :=
  commaSeparated level.rules level.expression

/-- Reads an entry of ORDER BY. -/
def ordering (level : Level) : Reader Ordering := do
  let expr ← level.expression
  let direction ← oneOf? ["ASC", "DESC"]
  let ascending := direction.map fun keyword => keyword == "ASC"
  let nullsFirst ←
    if ← keywords? ["NULLS", "FIRST"] then pure (some true)
    else do
      if ← keywords? ["NULLS", "LAST"] then pure (some false)
      else pure none
  pure { expr, ascending, nullsFirst }

/-- Reads entries of ORDER BY. -/
def orderings (level : Level) : Reader (List Ordering) :=
  commaSeparated level.rules level.ordering

/-- Reads an ORDER BY clause if it comes next. -/
def orderings? (level : Level) : Reader (List Ordering) := do
  if ← keywords? ["ORDER", "BY"] then level.orderings else pure []

/-! ## Values -/

/-- Reads a literal value. -/
def value (level : Level) : Reader Value := do
  match ← next with
  | .number text => pure (.number text)
  | .string text => pure (.string text)
  | .literal kind text =>
    if kind = .escaped ∧ ¬ level.rules.isGenericOr [.postgres] then unexpected
    else pure (.marked kind text)
  | .word word =>
    match word.keyword with
    | "TRUE" => pure (.boolean true)
    | "FALSE" => pure (.boolean false)
    | "NULL" => pure .null
    | _ => unexpected
  | .mark text =>
    if text = ":" ∨ text = "@" then
      match ← next with
      | .word word => pure (.marked .placeholder (text ++ word.value))
      | .number digits => pure (.marked .placeholder (text ++ digits))
      | _ => unexpected
    else unexpected

/-! ## Stars -/

/-- Reads the rest of a dotted name up to a star; a name without a star is none. -/
def starPath? : Nat → Path → Reader (Option Path)
  | 0, _ => pure none
  | fuel + 1, path => do
    if ← mark? "." then
      match ← next with
      | .word word => starPath? fuel (path ++ [⟨word.value, word.quote⟩])
      | .string text => starPath? fuel (path ++ [⟨text, some '\''⟩])
      | .mark "*" => pure (some path)
      | _ => unexpected
    else pure none

/-- The identifier that may start a dotted name with a star. -/
def starStart? : List Lexeme → Option Name
  | lexeme :: rest =>
    match lexeme with
    | .word _ | .string _ => if startsWithMark "." rest then lexeme.name? else none
    | _ => none
  | [] => none

/-- Reads an expression, a star, or a star behind a dotted name. -/
def starred (level : Level) : Reader Argument := do
  let lexemes ← get
  if startsWithMark "*" lexemes then do
    let _ ← next
    pure .wildcard
  else
    match starStart? lexemes with
    | some first => do
      let _ ← next
      match ← starPath? lexemes.length [first] with
      | some path => pure (.qualifiedWildcard path)
      | none =>
        set lexemes
        .expr <$> level.expression
    | none => .expr <$> level.expression

/-! ## Calls -/

/-- Takes the mark that stands between the name of an argument and the argument. -/
def argumentMark (level : Level) : Reader Unit := do
  let rules := level.rules
  match ← next with
  | .mark "=>" => if rules = .of .tSql then unexpected else pure ()
  | .mark ":=" => if rules.isGenericOr [.duckDb] then pure () else unexpected
  | .mark "=" => if rules.isOneOf [.duckDb] then pure () else unexpected
  | .mark ":" => if rules.isOneOf [.tSql] then pure () else unexpected
  | _ => unexpected

/-- Reads an argument, which may be named. -/
def argument (level : Level) : Reader Argument := do
  let named ← attempt do
    let name ← identifier
    level.argumentMark
    let value ← level.starred
    pure (Argument.named name value)
  match named with
  | some found => pure found
  | none => level.starred

/-- Reads how missing values are treated, if that comes next. -/
def nullTreatment? : Reader (Option NullTreatment) := do
  match ← oneOf? ["RESPECT", "IGNORE"] with
  | some keyword =>
    expectKeyword "NULLS"
    pure (some (if keyword = "IGNORE" then .ignore else .respect))
  | none => pure none

/-- Reads how missing values are written, if that comes next. -/
def nullClause? : Reader (List String) := do
  if ← keywords? ["ABSENT", "ON", "NULL"] then pure ["ABSENT ON NULL"]
  else if ← keywords? ["NULL", "ON", "NULL"] then pure ["NULL ON NULL"]
  else pure []

/-- Reads whether duplicates count, if that comes next. -/
def duplicates? : Reader (Option Duplicates) := do
  let all ← keyword? "ALL"
  let distinct ← keyword? "DISTINCT"
  if all && distinct then unexpected
  else pure (if all then some .all else if distinct then some .distinct else none)

/-- Reads what becomes of a list that grows too long, if that comes next. -/
def overflow? (level : Level) : Reader (List String) := do
  if ← keywords? ["ON", "OVERFLOW"] then
    match ← expectOneOf ["ERROR", "TRUNCATE"] with
    | "ERROR" => pure ["ON OVERFLOW ERROR"]
    | _ =>
      let filler ←
        if ← ahead fun lexemes => ["WITH", "WITHOUT"].contains (frontKeyword lexemes) then
          pure none
        else some <$> level.value
      let keyword ← expectOneOf ["WITH", "WITHOUT"]
      expectKeyword "COUNT"
      pure ["ON OVERFLOW TRUNCATE" ++ (if filler.isSome then " TEXT " else " ") ++ keyword]
  else pure []

/-- Reads the arguments of a call up to the closing parenthesis. -/
def arguments (level : Level) : Reader Arguments := do
  let rules := level.rules
  let opening ← nullClause?
  if ← mark? ")" then pure (.list none [] [] none none opening)
  else
    let duplicates ← duplicates?
    let items ← commaSeparated rules level.argument
    let treatment ← if rules.treatsNullsInArguments then nullTreatment? else pure none
    let orderBy ← level.orderings?
    let limit ← behind? ["LIMIT"] level.expression
    let bound ←
      if rules.isGenericOr [.bigQuery] then
        behind? ["HAVING"] do
          let _ ← expectOneOf ["MIN", "MAX"]
          level.expression
      else pure none
    let separator ←
      if rules.isGenericOr [.mySql] then behind? ["SEPARATOR"] level.value else pure none
    let overflow ← level.overflow?
    let closing ← nullClause?
    expectMark ")"
    let treated : List String :=
      match treatment with
      | some .ignore => ["IGNORE NULLS"]
      | some .respect => ["RESPECT NULLS"]
      | none => []
    let separated : List String := if separator.isSome then ["SEPARATOR"] else []
    pure <| .list duplicates items orderBy limit bound
      (opening ++ treated ++ separated ++ overflow ++ closing)

/-- Reads a bound of a window frame. -/
def frameBound (level : Level) : Reader (List Expr) := do
  if ← keywords? ["CURRENT", "ROW"] then pure []
  else
    let count ←
      if ← keyword? "UNBOUNDED" then pure [] else (fun expr => [expr]) <$> level.expression
    let _ ← expectOneOf ["PRECEDING", "FOLLOWING"]
    pure count

/-- Reads the description of a window up to the closing parenthesis. -/
def window (level : Level) : Reader Expr := do
  let _ ←
    if ← ahead fun
        | .word word :: _ => word.isPlain
        | _ => false then attempt identifier
    else pure none
  let partition ←
    if ← keywords? ["PARTITION", "BY"] then level.expressions else pure []
  let orderBy ← level.orderings?
  let bounds ←
    if ← mark? ")" then pure []
    else do
      let _ ← expectOneOf ["ROWS", "RANGE", "GROUPS"]
      let bounds ←
        if ← keyword? "BETWEEN" then do
          let first ← level.frameBound
          expectKeyword "AND"
          let last ← level.frameBound
          pure (first ++ last)
        else level.frameBound
      expectMark ")"
      pure bounds
  pure <| .special .windowSpec
    [.tuple (orderBy.map Ordering.expr), .tuple partition, .tuple bounds]

/-- Reads the window of a call, if there is one. -/
def window? (level : Level) : Reader (Option Expr) :=
  behind? ["OVER"] do
    if ← mark? "(" then level.window
    else
      let _ ← identifier
      pure (.special .namedWindow [])

/-- Reads which rows an aggregate sees, if that comes next. -/
def filter? (level : Level) : Reader (Option Expr) := do
  if level.rules.filtersAggregates then
    if ← keyword? "FILTER" then
      if ← mark? "(" then
        if ← keyword? "WHERE" then
          let condition ← level.expression
          expectMark ")"
          pure (some condition)
        else pure none
      else pure none
    else pure none
  else pure none

/-- Reads the call of a function from the opening parenthesis on. -/
def call (level : Level) (name : ObjectName) : Reader Expr := do
  expectMark "("
  if level.rules.isOneOf [.snowflake] && (← ahead startsQuery) then
    let query ← level.query
    expectMark ")"
    pure (.call { name, arguments := some (.query query) })
  else
    let first ← level.arguments
    let (parameters, arguments) ←
      if level.rules = .generic then
        if ← mark? "(" then
          let second ← level.arguments
          pure (some first, second)
        else pure (none, first)
      else pure (none, first)
    let withinGroup ←
      if ← keywords? ["WITHIN", "GROUP"] then
        parenthesized do
          expectKeywords ["ORDER", "BY"]
          level.orderings
      else pure []
    let filter ← level.filter?
    let treated :=
      arguments.clauses.any fun clause => ["IGNORE NULLS", "RESPECT NULLS"].contains clause
    let nullTreatment ← if treated then pure none else nullTreatment?
    let window ← level.window?
    pure <| .call
      { name, parameters, arguments := some arguments, withinGroup, filter, nullTreatment, window }

/-! ## Operands -/

/-- The units of time. -/
def timeUnits : List String :=
  ["YEAR", "YEARS", "QUARTER", "MONTH", "MONTHS", "WEEK", "WEEKS", "DAY", "DAYS", "DATE",
    "DATETIME", "HOUR", "HOURS", "MINUTE", "MINUTES", "SECOND", "SECONDS", "CENTURY", "DECADE",
    "DOW", "DOY", "EPOCH", "ISODOW", "ISOYEAR", "JULIAN", "MICROSECOND", "MICROSECONDS",
    "MILLENIUM", "MILLENNIUM", "MILLISECOND", "MILLISECONDS", "NANOSECOND", "NANOSECONDS",
    "TIMEZONE", "TIMEZONE_HOUR", "TIMEZONE_MINUTE"]

/-- A strength that nothing binds tighter than. -/
def tightest : Nat := 255

/-- Reads an interval behind its keyword. -/
def interval (level : Level) : Reader Expr := do
  let needsUnit := level.rules.intervalNeedsUnit
  let amount ← if needsUnit then level.expression else level.expr tightest
  match ← oneOf? timeUnits with
  | some _ =>
    sizes? 2
    if ← keyword? "TO" then
      let _ ← expectOneOf timeUnits
      sizes? 1
  | none => if needsUnit then unexpected
  pure (.special .interval [amount])

/-- Reads a literal that its type introduces, if that comes next. -/
def typedLiteral? (level : Level) : Reader (Option Expr) := do
  match TypeShape.ofKeyword? (frontKeyword (← get)) with
  | none => pure none
  | some .interval =>
    attempt do
      let _ ← next
      level.interval
  | some _ =>
    attempt do
      let _ ← dataType level.rules
      let _ ← literalText level.rules
      pure (.special .typedString [])

/-- Reads the branches of a CASE behind a WHEN. -/
def branches (level : Level) : Nat → Reader (List (Expr × Expr))
  | 0 => unexpected
  | fuel + 1 => do
    let condition ← level.expression
    expectKeyword "THEN"
    let result ← level.expression
    if ← keyword? "WHEN" then
      let rest ← branches level fuel
      pure ((condition, result) :: rest)
    else pure [(condition, result)]

/-- Reads a CASE behind its keyword. -/
def caseOf (level : Level) : Reader Expr := do
  let operand ←
    if ← keyword? "WHEN" then pure none
    else do
      let operand ← level.expression
      expectKeyword "WHEN"
      pure (some operand)
  let lexemes ← get
  let branches ← level.branches lexemes.length
  let otherwise ← behind? ["ELSE"] level.expression
  expectKeyword "END"
  pure (.case operand (branches.map Prod.fst) (branches.map Prod.snd) otherwise)

/-- Reads an EXISTS behind its keyword. -/
def existsOf (level : Level) (negated : Bool) : Reader Expr := do
  let query ← parenthesized level.query
  pure (.exists query negated)

/-- Reads a NOT behind its keyword. -/
def notOf (level : Level) : Reader Expr := do
  if ← keyword? "EXISTS" then level.existsOf true
  else .unary .not <$> level.operandOf .not

/-- Reads a CAST behind its keyword. -/
def castOf (level : Level) : Reader Expr :=
  parenthesized do
    let expr ← level.expression
    expectKeyword "AS"
    let _ ← dataType level.rules
    if ← keyword? "FORMAT" then
      let _ ← level.value
      if ← keywords? ["AT", "TIME", "ZONE"] then
        let _ ← level.value
    pure (.special .cast [expr])

/-- Reads a CONVERT behind its keyword. -/
def convertOf (level : Level) : Reader Expr :=
  parenthesized do
    if level.rules = .of .tSql then
      let _ ← dataType level.rules
      expectMark ","
      let expr ← level.expression
      let styles ← if ← mark? "," then level.expressions else pure []
      pure (.special (.convert true) [expr, .tuple styles])
    else
      let expr ← level.expression
      if ← keyword? "USING" then
        let _ ← objectName level.rules
      else
        expectMark ","
        let _ ← dataType level.rules
        if ← keywords? ["CHARACTER", "SET"] then
          let _ ← objectName level.rules
      pure (.special (.convert false) [expr])

/-- Reads an EXTRACT behind its keyword. -/
def extractOf (level : Level) : Reader Expr :=
  parenthesized do
    match ← next with
    | .word word =>
      if level.rules.isGenericOr [.snowflake] || timeUnits.contains word.keyword then pure ()
      else unexpected
    | .string _ => if level.rules.isGenericOr [.snowflake] then pure () else unexpected
    | _ => unexpected
    if ← keyword? "FROM" then pure ()
    else if level.rules.isGenericOr [.snowflake] then expectMark ","
    else unexpected
    let expr ← level.expression
    pure (.special .extract [expr])

/-- Reads a CEIL or FLOOR behind its keyword. -/
def roundingOf (level : Level) (construct : Construct) : Reader Expr :=
  parenthesized do
    let expr ← level.expression
    if ← keyword? "TO" then
      let _ ← expectOneOf timeUnits
    else if ← mark? "," then
      let _ ← number
    pure (.special construct [expr])

/-- Reads a POSITION behind its keyword: with IN, or else as a plain call. -/
def positionOf (level : Level) (name : Name) : Reader Expr := do
  let found ← attempt <| parenthesized do
    let part ← level.operandOf .between
    expectKeyword "IN"
    let whole ← level.expression
    pure (Expr.special .position [part, whole])
  match found with
  | some expr => pure expr
  | none => level.call ⟨[], name⟩

/-- Reads a SUBSTRING behind its keyword. -/
def substringOf (level : Level) : Reader Expr :=
  parenthesized do
    let expr ← level.expression
    let comma ← mark? ","
    let start ←
      if comma then some <$> level.expression else behind? ["FROM"] level.expression
    let count ←
      if ← keyword? "FOR" then some <$> level.expression
      else do
        if ← mark? "," then some <$> level.expression
        else pure none
    pure <| .special (.substring count.isSome start.isSome)
      (expr :: count.toList ++ start.toList)

/-- Reads an OVERLAY behind its keyword. -/
def overlayOf (level : Level) : Reader Expr :=
  parenthesized do
    let expr ← level.expression
    expectKeyword "PLACING"
    let replacement ← level.expression
    expectKeyword "FROM"
    let start ← level.expression
    let count ← behind? ["FOR"] level.expression
    pure (.special (.overlay count.isSome) (expr :: count.toList ++ [start, replacement]))

/-- Reads a TRIM behind its keyword. -/
def trimOf (level : Level) : Reader Expr :=
  parenthesized do
    let _ ← oneOf? ["BOTH", "LEADING", "TRAILING"]
    let expr ← level.expression
    if ← keyword? "FROM" then
      let whole ← level.expression
      pure (.special .trimWhat [whole, expr])
    else if level.rules.isGenericOr [.snowflake, .bigQuery] && (← mark? ",") then
      let characters ← level.expressions
      pure (.special .trimCharacters [expr, .tuple characters])
    else pure (.special .trim [expr])

/-- Reads a MATCH behind its keyword. -/
def matchOf (level : Level) : Reader Expr := do
  let _ ← identifiers level.rules
  expectKeyword "AGAINST"
  parenthesized do
    let _ ← level.value
    if ← keywords? ["IN", "NATURAL", "LANGUAGE", "MODE"] then
      let _ ← keywords? ["WITH", "QUERY", "EXPANSION"]
    else if ← keywords? ["IN", "BOOLEAN", "MODE"] then pure ()
    else
      let _ ← keywords? ["WITH", "QUERY", "EXPANSION"]
    pure (.special .matchAgainst [])

/-- Reads the items of an array up to the closing bracket. -/
def arrayOf (level : Level) : Reader Expr := do
  if ← mark? "]" then pure (.special .array [.tuple []])
  else
    let items ← level.expressions
    expectMark "]"
    pure (.special .array [.tuple items])

/-- Reads a field of a structure, which may have a name. -/
def structField (level : Level) : Reader Expr := do
  let expr ← level.expression
  if ← keyword? "AS" then
    let _ ← identifier
    pure (.special .named [expr])
  else pure expr

/-- Reads a STRUCT behind its keyword. -/
def structOf (level : Level) : Reader Expr := do
  let fields ← parenthesized (commaSeparated level.rules level.structField)
  pure (.special .struct [.tuple fields])

/-- Reads the entries of a map behind an opening brace, each a key, a colon and a value. -/
def entries (level : Level) (key : Reader Expr) : Reader (List Expr) := do
  if ← mark? "\x7d" then pure []
  else
    let entries ← commaSeparated level.rules do
      let key ← key
      expectMark ":"
      let value ← level.expression
      pure (Expr.tuple [key, value])
    expectMark "\x7d"
    pure entries

/-- Reads what an opening brace starts: a call, or entries with names for keys. -/
def inBraces (level : Level) : Reader Expr := do
  let called ← attempt do
    expectKeyword "FN"
    let name ← objectName level.rules
    level.call name
  match called with
  | some call =>
    expectMark "\x7d"
    pure call
  | none =>
    if level.rules.writesMaps then
      let entries ← level.entries (.identifier <$> identifier)
      pure (.special .dictionary [.tuple entries])
    else unexpected

/-- How the expression that a word starts is read, if the word has a meaning of its own in front of
the given lexemes. -/
def reserved? (level : Level) (word : Word) (rest : List Lexeme) : Option (Reader Expr) :=
  let rules := level.rules
  let name : Name := ⟨word.value, word.quote⟩
  match word.keyword with
  | "TRUE" => if rules = .of .tSql then none else some (pure (.value (.boolean true)))
  | "FALSE" => if rules = .of .tSql then none else some (pure (.value (.boolean false)))
  | "NULL" => some (pure (.value .null))
  | "CURRENT_CATALOG" | "CURRENT_USER" | "SESSION_USER" | "USER" =>
    if rules.isGenericOr [.postgres] then some (pure (.call { name := ⟨[], name⟩ })) else none
  | "CURRENT_TIMESTAMP" | "CURRENT_TIME" | "CURRENT_DATE" | "LOCALTIME" | "LOCALTIMESTAMP" =>
    some do
      if ← mark? "(" then
        let arguments ← level.arguments
        pure (.call { name := ⟨[], name⟩, arguments := some arguments })
      else pure (.call { name := ⟨[], name⟩ })
  | "CASE" => some level.caseOf
  | "CONVERT" => some level.convertOf
  | "CAST" | "TRY_CAST" | "SAFE_CAST" => some level.castOf
  | "EXISTS" => some (level.existsOf false)
  | "EXTRACT" => some level.extractOf
  | "CEIL" => some (level.roundingOf .ceil)
  | "FLOOR" => some (level.roundingOf .floor)
  | "POSITION" => if startsWithMark "(" rest then some (level.positionOf name) else none
  | "SUBSTRING" => some level.substringOf
  | "OVERLAY" => some level.overlayOf
  | "TRIM" => some level.trimOf
  | "INTERVAL" => some level.interval
  | "ARRAY" =>
    if startsWithMark "[" rest then
      some do
        let _ ← next
        level.arrayOf
    else if startsWithMark "(" rest then
      some do
        let query ← parenthesized level.query
        pure (.call { name := ⟨[], name⟩, arguments := some (.query query) })
    else none
  | "NOT" => some level.notOf
  | "MATCH" => if rules.isGenericOr [.mySql] then some level.matchOf else none
  | "STRUCT" => if rules.isGenericOr [.bigQuery] then some level.structOf else none
  | "MAP" =>
    if rules.writesMaps && startsWithMark "\x7b" rest then
      some do
        let _ ← next
        let entries ← level.entries level.expression
        pure (.special .map [.tuple entries])
    else none
  | _ => none

/-- Reads the further parts of a dotted name in an expression. -/
def nameParts : Nat → Reader Path
  | 0 => pure []
  | fuel + 1 => do
    if ← mark? "." then
      match ← next with
      | .word word =>
        let rest ← nameParts fuel
        pure (⟨word.value, word.quote⟩ :: rest)
      | .string text =>
        let rest ← nameParts fuel
        pure (⟨text, some '\''⟩ :: rest)
      | _ => unexpected
    else pure []

/-- Reads a column or a call that starts with a name. -/
def named (level : Level) (word : Word) : Reader Expr := do
  let name : Name := ⟨word.value, word.quote⟩
  let lexemes ← get
  let parts ← nameParts lexemes.length
  if ← ahead (startsWithMark "(") then level.call (objectNameOf false name parts)
  else
    match lexemes with
    | .string _ :: _ | .literal .doubleQuoted _ :: _ | .literal .hex _ :: _ =>
      if word.value.startsWith "_" then
        let _ ← level.value
        pure (.special .introducedString [])
      else pure (.identifier name)
    | _ =>
      match parts with
      | [] => pure (.identifier name)
      | next :: rest => pure (.compound name (objectNameOf false next rest))

/-- The words that are no names where what they start cannot be read. -/
def neverNames (rules : Rules) : List String :=
  if rules = .of .snowflake then ["EXISTS", "STRUCT", "TRIM"]
  else ["EXISTS", "INTERVAL", "STRUCT", "TRIM"]

/-- Reads what a word starts: what it has a meaning of its own for, or else a name. -/
def worded (level : Level) (word : Word) : Reader Expr := do
  match level.reserved? word (← get) with
  | none => level.named word
  | some special =>
    if (neverNames level.rules).contains word.keyword then special
    else orElse special (level.named word)

/-- Reads what an opening parenthesis starts. -/
def inParentheses (level : Level) : Reader Expr := do
  let inner ←
    if ← ahead startsQuery then .subquery <$> level.query
    else do
      match ← level.expressions with
      | [single] => pure (.nested single)
      | items => pure (.tuple items)
  expectMark ")"
  if ← mark? "." then
    match ← next with
    | .word _ => pure (.special .compositeAccess [inner])
    | _ => unexpected
  else pure inner

/-- The operators of one dialect that stand in front of an operand. -/
def leadingOperator? (mark : String) : Option String :=
  match mark with
  | "!!" => some "PGPrefixFactorial"
  | "|/" => some "PGSquareRoot"
  | "||/" => some "PGCubeRoot"
  | "@" => some "PGAbs"
  | "~" => some "PGBitwiseNot"
  | _ => none

/-- Reads an operand that no type introduces. -/
def plainOperand (level : Level) : Reader Expr := do
  let lexemes ← get
  match ← next with
  | .word word => level.worded word
  | .mark "-" => .unary .minus <$> level.operandOf .product
  | .mark "+" => .unary .plus <$> level.operandOf .product
  | .mark "(" => level.inParentheses
  | .mark "[" => level.arrayOf
  | .mark "\x7b" => level.inBraces
  | .mark text =>
    match leadingOperator? text with
    | some kind =>
      if level.rules = .of .postgres then .unary (.other kind) <$> level.operandOf .sum
      else do
        set lexemes
        .value <$> level.value
    | none =>
      set lexemes
      .value <$> level.value
  | _ =>
    set lexemes
    .value <$> level.value

/-- Reads an operand. -/
def operand (level : Level) : Reader Expr := do
  match ← level.typedLiteral? with
  | some expr => pure expr
  | none =>
    let expr ← level.plainOperand
    if ← keyword? "COLLATE" then
      let _ ← objectName level.rules
      pure (.special .collate [expr])
    else pure expr

/-! ## What follows an operand -/

/-- Reads what follows IS. -/
def isTest (level : Level) (subject : Expr) : Reader Expr := do
  if ← keyword? "NULL" then pure (.isNull subject)
  else if ← keywords? ["NOT", "NULL"] then pure (.isNotNull subject)
  else if ← keyword? "TRUE" then pure (.test .isTrue subject)
  else if ← keywords? ["NOT", "TRUE"] then pure (.test .isNotTrue subject)
  else if ← keyword? "FALSE" then pure (.test .isFalse subject)
  else if ← keywords? ["NOT", "FALSE"] then pure (.test .isNotFalse subject)
  else if ← keyword? "UNKNOWN" then pure (.test .isUnknown subject)
  else if ← keywords? ["NOT", "UNKNOWN"] then pure (.test .isNotUnknown subject)
  else if ← keywords? ["DISTINCT", "FROM"] then
    .comparison .isDistinctFrom subject <$> level.expression
  else if ← keywords? ["NOT", "DISTINCT", "FROM"] then
    .comparison .isNotDistinctFrom subject <$> level.expression
  else unexpected

/-- Reads what follows IN. -/
def inTest (level : Level) (subject : Expr) (negated : Bool) : Reader Expr := do
  if ← keyword? "UNNEST" then
    let items ← parenthesized level.expression
    pure (.special .inUnnest [items, subject])
  else
    expectMark "("
    if ← ahead startsQuery then
      let query ← level.query
      expectMark ")"
      pure (.inSubquery subject query negated)
    else if ← if level.rules.takesEmptyLists then mark? ")" else pure false then
      pure (.inList subject [] negated)
    else
      let items ← level.expressions
      expectMark ")"
      pure (.inList subject items negated)

/-- Reads what follows BETWEEN. -/
def betweenTest (level : Level) (subject : Expr) (negated : Bool) : Reader Expr := do
  let low ← level.operandOf .between
  expectKeyword "AND"
  let high ← level.operandOf .between
  pure (.between subject low high negated)

/-- Reads what follows an operator for patterns. -/
def patternTest (level : Level) (op : PatternOperator) (subject : Expr) (negated : Bool) :
    Reader Expr := do
  let any ← if op = .like ∨ op = .iLike then keyword? "ANY" else pure false
  let pattern ← level.operandOf .like
  let escape ←
    if op = .rLike then pure none else behind? ["ESCAPE"] (literalText level.rules)
  pure (.pattern op negated any subject pattern escape)

/-- Reads a test that NOT may negate. -/
def negatableTest (level : Level) (subject : Expr) : Reader Expr := do
  let negated ← keyword? "NOT"
  if ← keyword? "REGEXP" then level.patternTest .rLike subject negated
  else if ← keyword? "RLIKE" then level.patternTest .rLike subject negated
  else if ← keyword? "IN" then level.inTest subject negated
  else if ← keyword? "BETWEEN" then level.betweenTest subject negated
  else if ← keyword? "LIKE" then level.patternTest .like subject negated
  else if ← keyword? "ILIKE" then level.patternTest .iLike subject negated
  else if ← keywords? ["SIMILAR", "TO"] then level.patternTest .similarTo subject negated
  else unexpected

/-- Reads the right side of a comparison with any or all of several values. -/
def quantified (level : Level) (left : Expr) (op : Operator) (strength : Nat) (keyword : String) :
    Reader Expr := do
  let lexemes ← get
  expectMark "("
  let right ←
    if ← ahead startsQuery then do
      set lexemes
      level.expr strength
    else do
      let right ← level.expr strength
      expectMark ")"
      pure right
  if op.compares then
    pure (.special (if keyword = "ALL" then .allOp else .anyOp) [left, right])
  else unexpected

/-- Reads what stands between the brackets behind an array. -/
def subscript (level : Level) (array : Expr) : Reader Expr := do
  let first ← if ← mark? ":" then pure none else some <$> level.expression
  let last ←
    if ← mark? "]" then pure none
    else do
      if first.isSome then expectMark ":"
      if ← mark? "]" then pure none
      else
        let last ← level.expression
        expectMark "]"
        pure (some last)
  pure <| .special (.subscript first.isSome last.isSome)
    (array :: first.toList ++ last.toList)

/-- Reads what binds to an operand with some strength. -/
def extend (level : Level) (left : Expr) (strength : Nat) : Reader Expr := do
  let lexemes ← get
  let lexeme ← next
  match Operator.ofLexeme? level.rules lexeme with
  | some op =>
    match ← oneOf? ["ANY", "ALL", "SOME"] with
    | some keyword => level.quantified left op strength keyword
    | none => .binary left op <$> level.expr strength
  | none =>
    match lexeme with
    | .word word =>
      match word.keyword with
      | "IS" => level.isTest left
      | "AT" =>
        expectKeywords ["TIME", "ZONE"]
        let zone ← level.expr strength
        pure (.special .atTimeZone [zone, left])
      | _ =>
        set lexemes
        level.negatableTest left
    | .mark "::" =>
      let _ ← dataType level.rules
      pure (.special .cast [left])
    | .mark "!" => pure (.unary (.other "PGPostfixFactorial") left)
    | .mark "[" => level.subscript left
    | _ => unexpected

/-- Reads all that binds to an operand tighter than a strength. -/
def extended (level : Level) (strength : Nat) : Nat → Expr → Reader Expr
  | 0, left => pure left
  | fuel + 1, left => do
    let found := nextStrength level.rules (← get)
    if found ≤ strength then pure left
    else
      let longer ← level.extend left found
      extended level strength fuel longer

/-- Reads an expression of what binds tighter than a strength. -/
def subexpression (level : Level) (strength : Nat) : Reader Expr := do
  let first ← level.operand
  let lexemes ← get
  level.extended strength lexemes.length first

end Level
end SemanticLayer.Grammar
