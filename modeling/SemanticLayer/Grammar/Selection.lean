import SemanticLayer.Grammar.Source

/-!
# Reading queries

The clauses of SELECT in the order they are written in, row sets and how they are combined, and the
clauses of a query that apply to all its rows.
-/

namespace SemanticLayer.Grammar

open Sql (Name Path)

namespace Level

open Reader

/-! ## Projections -/

/-- Reads the names behind a keyword that changes what a star stands for: one, or several in
parentheses. -/
def starNames (level : Level) : Reader (List Name) := do
  if ← ahead (startsWithMark "(") then identifiers level.rules
  else (fun name => [name]) <$> identifier

/-- Reads a change of a name. -/
def rename : Reader (Name × Name) := do
  let name ← identifier
  expectKeyword "AS"
  let label ← identifier
  pure (name, label)

/-- Reads what changes the meaning of a star. -/
def wildcardOptions (level : Level) : Reader WildcardOptions := do
  let rules := level.rules
  let ilike ←
    if rules.isGenericOr [.snowflake] then
      behind? ["ILIKE"] do
        match ← next with
        | .string text => pure text
        | _ => unexpected
    else pure none
  let exclude ←
    if ilike.isNone && rules.isGenericOr [.duckDb, .snowflake] then
      if ← keyword? "EXCLUDE" then level.starNames else pure []
    else pure []
  let except ←
    if rules.isGenericOr [.bigQuery] then
      if ← keyword? "EXCEPT" then level.starNames else pure []
    else pure []
  let rename ←
    if rules.isGenericOr [.snowflake] then
      if ← keyword? "RENAME" then
        if ← ahead (startsWithMark "(") then parenthesized (commaSeparated rules Level.rename)
        else (fun pair => [pair]) <$> Level.rename
      else pure []
    else pure []
  pure { ilike, exclude, except, rename }

/-- The entry of a projection that an expression and the alias behind it make. -/
def itemOf (expr : Expr) : Option Name → SelectItem
  | some label => .aliased expr label
  | none => .unnamed expr

/-- Whether an expression is the word FROM, read as a name. -/
def isFrom : Expr → Bool
  | .identifier name => name.quote.isNone && Text.upper name.value == "FROM"
  | _ => false

/-- Reads an entry of a projection. -/
def selectItem (level : Level) : Reader SelectItem := do
  match ← level.starred with
  | .wildcard => .wildcard <$> level.wildcardOptions
  | .qualifiedWildcard path => .qualifiedWildcard path <$> level.wildcardOptions
  | .expr expr =>
    if isFrom expr then unexpected
    else
      match expr with
      | .binary (.identifier label) .eq right =>
        if level.rules.aliasesByEquals then pure (.aliased right label)
        else itemOf expr <$> alias? notColumnAliases
      | _ => itemOf expr <$> alias? notColumnAliases
  | _ => unexpected

/-- Reads a projection. -/
def projection (level : Level) : Reader (List SelectItem) :=
  separated (fun lexemes => level.rules.endsProjectionsByComma && endsList lexemes)
    level.selectItem

/-! ## Clauses -/

/-- Reads whether and by what rows are kept apart. -/
def distinct (level : Level) : Reader Distinct := do
  let all ← keyword? "ALL"
  if ← keyword? "DISTINCT" then
    if all then unexpected
    else if ← keyword? "ON" then
      expectMark "("
      if ← mark? ")" then pure (.on [])
      else
        let exprs ← level.expressions
        expectMark ")"
        pure (.on exprs)
    else pure .distinct
  else pure .all

/-- Reads how many of the first rows are kept, if that comes next. -/
def top? (level : Level) : Reader (Option Expr × List String) := do
  if ← keyword? "TOP" then
    let count ←
      if ← ahead (startsWithMark "(") then parenthesized level.expression
      else do
        let text ← number
        if (Number.uint64? text.toList).isSome then pure (Expr.value (.number text)) else unexpected
    let percent ← keyword? "PERCENT"
    let ties ← keywords? ["WITH", "TIES"]
    pure (some count,
      (if percent then ["PERCENT"] else []) ++ if ties then ["WITH TIES"] else [])
  else pure (none, [])

/-- Reads a group of expressions: several in parentheses, or where `single` one without. -/
def group (level : Level) (single : Bool) : Reader Expr := do
  if ← mark? "(" then
    if ← mark? ")" then pure (.tuple [])
    else
      let items ← level.expressions
      expectMark ")"
      pure (.tuple items)
  else if single then (fun expr => .tuple [expr]) <$> level.expression
  else unexpected

/-- Reads an entry of GROUP BY. -/
def groupEntry (level : Level) : Reader Expr := do
  let rules := level.rules
  let sets (kind : GroupingKind) (single : Bool) : Reader Expr :=
    .grouping kind <$> parenthesized (commaSeparated rules (level.group single))
  if rules.groupsBySets then
    if ← keywords? ["GROUPING", "SETS"] then sets .groupingSets false
    else if ← keyword? "CUBE" then sets .cube true
    else if ← keyword? "ROLLUP" then sets .rollup true
    else if ← ahead fun lexemes =>
        startsWithMark "(" lexemes && startsWithMark ")" (lexemes.drop 1) then
      let _ ← next
      let _ ← next
      pure (.tuple [])
    else level.expression
  else level.expression

/-- Reads what modifies a GROUP BY. -/
def groupModifiers : Nat → Reader (List String)
  | 0 => pure []
  | fuel + 1 => do
    if ← keyword? "WITH" then
      let keyword ← expectOneOf ["ROLLUP", "CUBE", "TOTALS"]
      let rest ← groupModifiers fuel
      pure (keyword :: rest)
    else pure []

/-- Reads a GROUP BY clause if it comes next: the entries, unless it names all columns, and what
modifies them. -/
def grouping? (level : Level) : Reader (Option (List Expr) × List String) := do
  if ← keywords? ["GROUP", "BY"] then
    let entries ←
      if ← keyword? "ALL" then pure none
      else some <$> commaSeparated level.rules level.groupEntry
    let lexemes ← get
    let modifiers ←
      if level.rules = .generic then groupModifiers lexemes.length else pure []
    pure (entries, modifiers)
  else pure (some [], [])

/-- Reads where the rows of a SELECT go, if that comes next. -/
def into? (level : Level) : Reader (Option ObjectName) :=
  behind? ["INTO"] do
    let _ ← oneOf? ["TEMP", "TEMPORARY"]
    let _ ← keyword? "UNLOGGED"
    let _ ← keyword? "TABLE"
    objectName level.rules

/-- Reads a window that gets a name. -/
def namedWindow (level : Level) : Reader Expr := do
  let _ ← identifier
  expectKeyword "AS"
  if ← mark? "(" then level.window
  else if level.rules.isGenericOr [.bigQuery] then
    let _ ← identifier
    pure (.special .namedWindow [])
  else unexpected

/-- Reads a WINDOW clause if it comes next. -/
def windows? (level : Level) : Reader (List Expr) := do
  if ← keyword? "WINDOW" then commaSeparated level.rules level.namedWindow else pure []

/-- Reads a list of expressions behind keywords, if these come next. -/
def listBehind (level : Level) (keywords : List String) : Reader (List Expr) := do
  if ← keywords? keywords then level.expressions else pure []

/-- Reads a SELECT behind its keyword. -/
def select (level : Level) : Reader Select := do
  let rules := level.rules
  if rules.isOneOf [.bigQuery] then
    if ← keyword? "AS" then
      let _ ← expectOneOf ["VALUE", "STRUCT"]
  let kept ← level.distinct
  let (top, topMarks) ← level.top?
  let projection ← level.projection
  let into ← level.into?
  let sources ← if ← keyword? "FROM" then level.sources else pure []
  let prewhere ←
    if rules = .generic then behind? ["PREWHERE"] level.expression else pure none
  let filter ← behind? ["WHERE"] level.expression
  let (groupBy, groupModifiers) ← level.grouping?
  let clusterBy ← level.listBehind ["CLUSTER", "BY"]
  let distributeBy ← level.listBehind ["DISTRIBUTE", "BY"]
  let sortBy ← level.listBehind ["SORT", "BY"]
  let having ← behind? ["HAVING"] level.expression
  let windows ← level.windows?
  let qualify ← behind? ["QUALIFY"] level.expression
  let moreWindows ← if windows.isEmpty then level.windows? else pure []
  pure
    { distinct := kept, top, topMarks, projection, into, sources, prewhere, filter, groupBy
      groupModifiers, clusterBy, distributeBy, sortBy, having, windows := windows ++ moreWindows, qualify }

/-! ## Row sets -/

/-- Takes a word as a name. -/
def wordName : Lexeme → Reader Name
  | .word word => pure ⟨word.value, word.quote⟩
  | _ => unexpected

/-- Reads the name behind TABLE: three lexemes, whether or not the second is a dot. -/
def wholeTable : Reader Body := do
  let first ← next
  let lexemes ← get
  set (lexemes.drop 2)
  if startsWithMark "." lexemes then
    match lexemes.drop 1 with
    | last :: _ =>
      let scope ← wordName first
      let name ← wordName last
      pure (.table ⟨[scope], name⟩)
    | [] => unexpected
  else (fun name => .table ⟨[], name⟩) <$> wordName first

/-- Reads a row set that combines no others. -/
def simpleBody (level : Level) : Reader Body := do
  if ← keyword? "SELECT" then .select <$> level.select
  else if ← mark? "(" then
    let query ← level.query
    expectMark ")"
    pure (.query query)
  else if ← keyword? "VALUES" then .values <$> level.rows
  else if ← keyword? "TABLE" then wholeTable
  else unexpected

/-- The operator that combines row sets and comes next, if there is one. -/
def setOperator? : List Lexeme → Option SetOperator
  | lexeme :: _ =>
    if lexeme.isKeyword "UNION" then some .union
    else if lexeme.isKeyword "EXCEPT" then some .except
    else if lexeme.isKeyword "INTERSECT" then some .intersect
    else none
  | [] => none

/-- Reads which rows of two combined sets count. -/
def setQuantifier : Reader String := do
  if ← keywords? ["DISTINCT", "BY", "NAME"] then pure "DistinctByName"
  else if ← keywords? ["BY", "NAME"] then pure "ByName"
  else if ← keyword? "ALL" then
    if ← keywords? ["BY", "NAME"] then pure "AllByName" else pure "All"
  else if ← keyword? "DISTINCT" then pure "Distinct"
  else pure "None"

/-- Reads the row sets that are combined with one already read; `right` reads the right side of an
operator, or tells that the operator binds too loosely. -/
def combinedWith (right : SetOperator → Option (Reader Body)) : Nat → Body → Reader Body
  | 0, left => pure left
  | fuel + 1, left => do
    let found := (setOperator? (← get)).bind fun op => (right op).map fun reader => (op, reader)
    match found with
    | some (op, reader) =>
      let _ ← next
      let quantifier ← setQuantifier
      let body ← reader
      combinedWith right fuel (.combined left op quantifier body)
    | none => pure left

/-- Reads row sets that an INTERSECT combines. -/
def intersected (level : Level) : Reader Body := do
  let first ← level.simpleBody
  let lexemes ← get
  combinedWith
    (fun
      | .intersect => some level.simpleBody
      | _ => none)
    lexemes.length first

/-- Reads row sets that set operators combine. INTERSECT binds tighter than the others. -/
def body (level : Level) : Reader Body := do
  let first ← level.simpleBody
  let lexemes ← get
  combinedWith
    (fun
      | .intersect => some level.simpleBody
      | _ => some level.intersected)
    lexemes.length first

/-! ## Changes of tables -/

/-- Reads an assignment. -/
def assignment (level : Level) : Reader Expr := do
  if ← ahead (startsWithMark "(") then
    let _ ← parenthesized (commaSeparated level.rules (objectName level.rules))
  else
    let _ ← objectName level.rules
  expectMark "="
  level.expression

/-- Reads a RETURNING clause if it comes next. -/
def returning? (level : Level) : Reader (List SelectItem) := do
  if ← keyword? "RETURNING" then commaSeparated level.rules level.selectItem else pure []

/-- Reads an INSERT behind its keyword. -/
def insert (level : Level) : Reader Body := do
  let rules := level.rules
  if ← keyword? "OR" then
    let _ ← expectOneOf ["REPLACE", "ROLLBACK", "ABORT", "FAIL", "IGNORE"]
  let _ ← keyword? "IGNORE"
  let _ ← oneOf? ["INTO", "OVERWRITE"]
  let _ ← keyword? "TABLE"
  let target ← objectName rules
  if ← keywords? ["DEFAULT", "VALUES"] then
    let returned ← level.returning?
    pure (.change .insert (some target) [] [] returned)
  else
    let _ ← attempt (identifiers rules)
    let source ← level.query
    let returned ← level.returning?
    pure (.change .insert (some target) [] [.subquery source] returned)

/-- Reads an UPDATE behind its keyword. -/
def update (level : Level) : Reader Body := do
  let table ← level.tableWithJoins
  expectKeyword "SET"
  let values ← commaSeparated level.rules level.assignment
  let sources ← if ← keyword? "FROM" then level.sources else pure []
  let filter ← behind? ["WHERE"] level.expression
  let returned ← level.returning?
  pure (.change .update none (table :: sources) (values ++ filter.toList) returned)

/-- Reads a DELETE behind its keyword. -/
def delete (level : Level) : Reader Body := do
  if ← keyword? "FROM" then pure ()
  else if level.rules.isGenericOr [.bigQuery] then pure ()
  else unexpected
  let sources ← level.sources
  let others ← if ← keyword? "USING" then level.sources else pure []
  let filter ← behind? ["WHERE"] level.expression
  let returned ← level.returning?
  let orderBy ← level.orderings?
  let limit ← behind? ["LIMIT"] level.expression
  pure <|
    .change .delete none (sources ++ others)
      (filter.toList ++ orderBy.map Ordering.expr ++ limit.toList) returned

/-! ## Queries -/

/-- Reads a named query of a WITH clause. -/
def cte (level : Level) : Reader Cte := do
  let name ← identifier
  let columns ← level.aliasColumns?
  expectKeyword "AS"
  if level.rules.isOneOf [.postgres] then
    if ← keyword? "MATERIALIZED" then pure ()
    else
      let _ ← keywords? ["NOT", "MATERIALIZED"]
      pure ()
  let query ← parenthesized level.query
  let source ← behind? ["FROM"] identifier
  pure { label := { name, columns }, query, source }

/-- Which rows a query keeps, as far as it is read. -/
structure Page where
  limit : Option Expr := none
  offset : Option Expr := none

/-- Reads how many rows are skipped, behind the keyword. -/
def offset (level : Level) : Reader Expr := do
  let count ← level.expression
  let _ ← oneOf? ["ROW", "ROWS"]
  pure count

/-- Reads LIMIT and OFFSET, each where it is not read yet. -/
def page (level : Level) (before : Page) : Reader Page := do
  let limit ←
    if before.limit.isNone then
      if ← keyword? "LIMIT" then
        if ← keyword? "ALL" then pure none else some <$> level.expression
      else pure none
    else pure before.limit
  let offset ←
    if before.offset.isNone then behind? ["OFFSET"] level.offset else pure before.offset
  let skips := level.rules.limitsByComma && limit.isSome && offset.isNone
  if ← if skips then mark? "," else pure false then
    let count ← level.expression
    pure { limit := some count, offset := limit }
  else pure { limit, offset }

/-- Reads a FETCH behind its keyword. -/
def fetch (level : Level) : Reader Fetch := do
  let _ ← expectOneOf ["FIRST", "NEXT"]
  let (quantity, percent) ←
    match ← oneOf? ["ROW", "ROWS"] with
    | some _ => pure (none, false)
    | none => do
      let quantity ← level.value
      let percent ← keyword? "PERCENT"
      let _ ← expectOneOf ["ROW", "ROWS"]
      pure (some quantity, percent)
  if ← keyword? "ONLY" then pure { quantity, percent }
  else
    expectKeywords ["WITH", "TIES"]
    pure { quantity, percent, withTies := true }

/-- Reads how the rows of a query are locked. -/
def locks (level : Level) : Nat → Reader (List String)
  | 0 => pure []
  | fuel + 1 => do
    if ← keyword? "FOR" then
      let keyword ← expectOneOf ["UPDATE", "SHARE"]
      let _ ← behind? ["OF"] (objectName level.rules)
      if ← keyword? "NOWAIT" then pure ()
      else
        let _ ← keywords? ["SKIP", "LOCKED"]
        pure ()
      let rest ← locks level fuel
      pure (keyword :: rest)
    else pure []

/-- Reads the format of the output of a query, if that comes next. -/
def format? (level : Level) : Reader (Option Name) := do
  if level.rules = .generic then
    if ← keyword? "FORMAT" then
      if ← keyword? "NULL" then pure none else some <$> identifier
    else pure none
  else pure none

/-- Reads settings of a query and drops them. -/
def settings? (level : Level) : Reader Unit := do
  if level.rules = .generic then
    if ← keyword? "SETTINGS" then
      let _ ← commaSeparated level.rules do
        let _ ← identifier
        expectMark "="
        level.value

/-- Reads a query. -/
def wholeQuery (level : Level) : Reader Query := do
  let rules := level.rules
  let withClause ← keyword? "WITH"
  let recursive ← if withClause then keyword? "RECURSIVE" else pure false
  let ctes ← if withClause then commaSeparated rules level.cte else pure []
  if ← keyword? "INSERT" then
    let body ← level.insert
    pure { recursive, ctes, body }
  else if ← keyword? "UPDATE" then
    let body ← level.update
    pure { recursive, ctes, body }
  else
    let body ← level.body
    let orderBy ← level.orderings?
    let first ← level.page {}
    let page ← level.page first
    let limitBy ← if rules = .generic then level.listBehind ["BY"] else pure []
    level.settings?
    let fetch ← behind? ["FETCH"] level.fetch
    let lexemes ← get
    let locks ← level.locks lexemes.length
    let format ← level.format?
    pure
      { recursive, ctes, body, orderBy, limit := page.limit, limitBy, offset := page.offset
        fetch, locks, format }

end Level
end SemanticLayer.Grammar
