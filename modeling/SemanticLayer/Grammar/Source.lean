import SemanticLayer.Grammar.Expression

/-!
# Reading tables and joins

What stands behind FROM: tables, queries in parentheses, and joins of them, which parentheses may
enclose.
-/

namespace SemanticLayer.Grammar

open Sql (Name Path)

namespace Level

open Reader

/-- Reads the names of columns behind an alias, with or without types. -/
def aliasColumns? (level : Level) : Reader (List Name) := do
  if ← mark? "(" then
    let columns ← commaSeparated level.rules do
      let name ← identifier
      let _ ← attempt (dataType level.rules)
      pure name
    expectMark ")"
    pure columns
  else pure []

/-- Reads the alias of a table, if there is one. -/
def tableAlias? (level : Level) : Reader (Option TableAlias) := do
  match ← alias? notTableAliases with
  | some name =>
    let columns ← level.aliasColumns?
    pure (some { name, columns })
  | none => pure none

/-- Reads one row of VALUES. -/
def row (level : Level) : Reader Expr := do
  let _ ← keyword? "ROW"
  expectMark "("
  if ← if level.rules.isOneOf [.mySql] then mark? ")" else pure false then pure (.tuple [])
  else
    let items ← level.expressions
    expectMark ")"
    pure (.tuple items)

/-- Reads the rows behind VALUES. -/
def rows (level : Level) : Reader (List Expr) :=
  commaSeparated level.rules level.row

/-- Reads a query up to the closing parenthesis, and its alias. -/
def derivedTable (level : Level) (lateral : Bool) : Reader TableFactor := do
  let query ← level.query
  expectMark ")"
  let label ← level.tableAlias?
  pure (.derived lateral query label)

/-- Reads a table function behind LATERAL. -/
def lateralFunction (level : Level) : Reader TableFactor := do
  let name ← objectName level.rules
  expectMark "("
  let items ←
    if ← mark? ")" then pure []
    else do
      let items ← commaSeparated level.rules level.argument
      expectMark ")"
      pure items
  let label ← level.tableAlias?
  pure (.function name items label)

/-- Reads the arrays of an UNNEST behind its keyword, and what may follow them. -/
def unnest (level : Level) : Reader TableFactor := do
  let arrays ← parenthesized level.expressions
  let _ ← keywords? ["WITH", "ORDINALITY"]
  let label ← level.tableAlias?
  if ← keywords? ["WITH", "OFFSET"] then
    let _ ← alias? notColumnAliases
  pure (.unnest arrays label)

/-- Reads the arguments of a table that is a call, if there are any. -/
def tableArguments? (level : Level) : Reader (Option (List Argument)) := do
  if ← mark? "(" then
    if ← mark? ")" then pure (some [])
    else
      let items ← commaSeparated level.rules level.argument
      expectMark ")"
      pure (some items)
  else pure none

/-- Reads the hints of a table, if there are any. -/
def hints? (level : Level) : Reader (List Expr) := do
  if ← ahead fun lexemes =>
      startsWithKeywords ["WITH"] lexemes && startsWithMark "(" (lexemes.drop 1) then
    let _ ← next
    parenthesized level.expressions
  else pure []

/-- Reads a table by its name. -/
def namedTable (level : Level) : Reader TableFactor := do
  let rules := level.rules
  let name ← objectName rules
  let partitions ←
    if rules.isGenericOr [.mySql] then
      if ← keyword? "PARTITION" then identifiers rules else pure []
    else pure []
  if rules.isOneOf [.bigQuery, .tSql] then
    if ← keywords? ["FOR", "SYSTEM_TIME", "AS", "OF"] then
      let _ ← level.expression
  let items ← level.tableArguments?
  let _ ← keywords? ["WITH", "ORDINALITY"]
  let label ← level.tableAlias?
  let hints ← level.hints?
  pure (.table name label items hints partitions)

/-- Reads what may stand for a table, parentheses apart. -/
def simpleFactor (level : Level) : Reader TableFactor := do
  let rules := level.rules
  if ← keyword? "LATERAL" then
    if ← mark? "(" then level.derivedTable true else level.lateralFunction
  else if ← keyword? "TABLE" then
    let expr ← parenthesized level.expression
    let label ← level.tableAlias?
    pure (.tableFunction expr label)
  else if rules.isGenericOr [.snowflake] && (← ahead fun lexemes =>
      startsWithKeywords ["VALUES"] lexemes && startsWithMark "(" (lexemes.drop 1)) then
    let _ ← next
    let rows ← level.rows
    let label ← level.tableAlias?
    pure (.derived false { body := .values rows } label)
  else if ← if rules.isGenericOr [.bigQuery, .postgres] then keyword? "UNNEST" else pure false then
    level.unnest
  else level.namedTable

/-- The operator that a join is written with, up to JOIN, if one comes next. -/
def joinOperator? (natural : Bool) : Reader (Option JoinOperator) := do
  let keyword := frontKeyword (← get)
  match keyword with
  | "INNER" | "JOIN" =>
    let _ ← keyword? "INNER"
    expectKeyword "JOIN"
    pure (some .inner)
  | "LEFT" | "RIGHT" =>
    let _ ← next
    let left := keyword == "LEFT"
    match ← expectOneOf ["OUTER", "SEMI", "ANTI", "JOIN"] with
    | "SEMI" =>
      expectKeyword "JOIN"
      pure (some (if left then .leftSemi else .rightSemi))
    | "ANTI" =>
      expectKeyword "JOIN"
      pure (some (if left then .leftAnti else .rightAnti))
    | "OUTER" =>
      expectKeyword "JOIN"
      pure (some (if left then .left else .right))
    | _ => pure (some (if left then .left else .right))
  | "SEMI" =>
    expectKeywords ["SEMI", "JOIN"]
    pure (some .semi)
  | "ANTI" =>
    expectKeywords ["ANTI", "JOIN"]
    pure (some .anti)
  | "FULL" =>
    let _ ← next
    let _ ← keyword? "OUTER"
    expectKeyword "JOIN"
    pure (some .full)
  | "OUTER" => unexpected
  | _ => if natural then unexpected else pure none

/-- Reads which rows a join matches, if that comes next. -/
def matching? (level : Level) (natural : Bool) : Reader (Option Matching) := do
  if natural then pure (some .natural)
  else if ← keyword? "ON" then (fun condition => some (.on condition)) <$> level.expression
  else if ← keyword? "USING" then (fun columns => some (.using columns)) <$> identifiers level.rules
  else pure none

/-- Reads a join, if one comes next; `factor` reads the table that is joined. -/
def join? (level : Level) (factor : Reader TableFactor) : Reader (Option Join) := do
  let _ ← keyword? "GLOBAL"
  if ← keyword? "CROSS" then
    match ← expectOneOf ["JOIN", "APPLY"] with
    | "JOIN" =>
      let relation ← factor
      pure (some { operator := .cross, relation })
    | _ =>
      let relation ← factor
      pure (some { operator := .crossApply, relation })
  else if ← keyword? "OUTER" then
    expectKeyword "APPLY"
    let relation ← factor
    pure (some { operator := .outerApply, relation })
  else if ← keyword? "ASOF" then
    expectKeyword "JOIN"
    let relation ← factor
    expectKeyword "MATCH_CONDITION"
    let nearest ← parenthesized level.expression
    let matching ← level.matching? false
    pure (some { operator := .asOf, relation, matching, nearest := some nearest })
  else
    let natural ← keyword? "NATURAL"
    match ← joinOperator? natural with
    | some operator =>
      let relation ← factor
      let matching ← level.matching? natural
      pure (some { operator, relation, matching })
    | none => pure none

/-- Reads joins as long as there are any. -/
def joins (level : Level) (factor : Reader TableFactor) : Nat → Reader (List Join)
  | 0 => pure []
  | fuel + 1 => do
    match ← level.join? factor with
    | some join =>
      let rest ← joins level factor fuel
      pure (join :: rest)
    | none => pure []

/-- Reads a table and the joins chained onto it. -/
def joined (level : Level) (factor : Reader TableFactor) : Reader TableWithJoins := do
  let relation ← factor
  let lexemes ← get
  let joins ← level.joins factor lexemes.length
  pure { relation, joins }

/-- The table under an alias, unless it has one. -/
def underAlias? (label : TableAlias) : TableFactor → Option TableFactor
  | .table name none items hints partitions =>
    some (.table name (some label) items hints partitions)
  | .derived lateral query none => some (.derived lateral query (some label))
  | .nestedJoin inner none => some (.nestedJoin inner (some label))
  | .function name items none => some (.function name items (some label))
  | .unnest arrays none => some (.unnest arrays (some label))
  | .tableFunction expr none => some (.tableFunction expr (some label))
  | _ => none

/-- Reads what stands in parentheses that hold no query: joins, or in some grammars a single
table, which an alias behind the parentheses may name. -/
def enclosed (level : Level) (factor : Reader TableFactor) : Reader TableFactor := do
  let inner ← level.joined factor
  match inner.relation, inner.joins with
  | .nestedJoin _ _, _ | _, _ :: _ =>
    expectMark ")"
    let label ← level.tableAlias?
    pure (.nestedJoin inner label)
  | relation, [] =>
    if level.rules.isGenericOr [.snowflake] then
      expectMark ")"
      match ← level.tableAlias? with
      | some label =>
        match underAlias? label relation with
        | some renamed => pure renamed
        | none => unexpected
      | none => pure relation
    else unexpected

/-- Reads what may stand for a table, in so many parentheses at most. -/
def factorWithin (level : Level) : Nat → Reader TableFactor
  | 0 => level.simpleFactor
  | fuel + 1 => do
    if ← mark? "(" then
      match ← attempt (level.derivedTable false) with
      | some table => pure table
      | none => level.enclosed (factorWithin level fuel)
    else level.simpleFactor

/-- Reads an entry of FROM. -/
def tableWithJoins (level : Level) : Reader TableWithJoins := do
  let lexemes ← get
  level.joined (level.factorWithin lexemes.length)

/-- Reads the entries of FROM. -/
def sources (level : Level) : Reader (List TableWithJoins) :=
  commaSeparated level.rules level.tableWithJoins

end Level
end SemanticLayer.Grammar
