import SemanticLayer.Grammar.Selection

/-!
# Reading statements

A text is a list of statements with semicolons between them. Statements, queries and expressions may
be nested fifty deep; `Level.ofDepth` ties the readers of expressions and queries together, each
nesting using up one of the levels that are left.
-/

namespace SemanticLayer.Grammar

open Sql (Name Path)

namespace Level

/-- The readers where so many levels of nesting are left. -/
def ofDepth (rules : Rules) : Nat → Level
  | 0 =>
    { rules, expr := fun _ _ => .error .tooDeep, query := fun _ => .error .tooDeep }
  | depth + 1 =>
    let inner := ofDepth rules depth
    { rules, expr := inner.subexpression, query := inner.wholeQuery }

open Reader

/-! ## Statements that are no queries -/

/-- Takes the rest of a statement. -/
def restOfStatement : Reader Unit :=
  fun lexemes => .ok ((), lexemes.dropWhile fun lexeme => !lexeme.isMark ";")

/-- Goes on only if the statement does. -/
def goesOn : Reader Unit := do
  if ← ahead fun lexemes => lexemes.isEmpty || startsWithMark ";" lexemes then unexpected
  else pure ()

/-- Takes a DROP behind its keyword. -/
def dropStatement (level : Level) : Reader Unit := do
  let _ ← oneOf? ["TEMPORARY", "PERSISTENT"]
  let kind ← expectOneOf
    ["TABLE", "VIEW", "INDEX", "ROLE", "SCHEMA", "DATABASE", "SEQUENCE", "STAGE", "TYPE",
      "FUNCTION", "POLICY", "PROCEDURE", "SECRET", "TRIGGER"]
  let _ ← keywords? ["IF", "EXISTS"]
  let _ ← commaSeparated level.rules (objectName level.rules)
  if ["FUNCTION", "PROCEDURE"].contains kind then restOfStatement
  else
    let cascade ← keyword? "CASCADE"
    let restrict ← keyword? "RESTRICT"
    let _ ← keyword? "PURGE"
    if cascade && restrict then unexpected
    else
      let _ ← behind? ["ON"] (objectName level.rules)
      pure ()

/-- The lexemes behind a group in parentheses at the front, `depth` parentheses deep in it. -/
def afterGroup : Nat → List Lexeme → List Lexeme
  | _, [] => []
  | depth, lexeme :: rest =>
    if lexeme.isMark "(" then afterGroup (depth + 1) rest
    else if depth = 0 then lexeme :: rest
    else if lexeme.isMark ")" then if depth = 1 then rest else afterGroup (depth - 1) rest
    else afterGroup depth rest

/-- Reads the query that something is made from, if there is one behind a list of columns. -/
def sourceQuery? (level : Level) : Reader (Option Body) := do
  modify (afterGroup 0)
  if ← keyword? "AS" then
    if ← ahead fun lexemes => startsQuery lexemes || startsWithMark "(" lexemes then
      (fun query => some (.query query)) <$> level.query
    else pure none
  else pure none

/-- What CREATE makes. -/
def createdKinds : List String :=
  ["TABLE", "VIEW", "INDEX", "SCHEMA", "DATABASE", "FUNCTION", "PROCEDURE", "SEQUENCE", "TYPE",
    "ROLE", "TRIGGER", "EXTENSION", "MACRO", "STAGE", "POLICY", "SECRET"]

/-- Reads a CREATE behind its keyword: words up to the kind of thing made, its name, and for a table
or a view the query it is made from. -/
def createStatement (level : Level) : Nat → Reader (Option Body)
  | 0 => unexpected
  | fuel + 1 => do
    match ← oneOf? createdKinds with
    | some kind =>
      let _ ← keywords? ["IF", "NOT", "EXISTS"]
      let _ ← objectName level.rules
      let source ← if ["TABLE", "VIEW"].contains kind then level.sourceQuery? else pure none
      restOfStatement
      pure source
    | none =>
      match ← next with
      | .word _ => createStatement level fuel
      | _ => unexpected

/-- The keywords of statements whose content is of no interest and may be missing. -/
def bareKeywords : List String :=
  ["COMMIT", "ROLLBACK", "BEGIN", "END", "DISCARD"]

/-- The keywords of statements whose content is of no interest. -/
def otherKeywords : List String :=
  ["ALTER", "ANALYZE", "ASSERT", "ATTACH", "CACHE", "CALL", "CLOSE", "COMMENT", "COPY",
    "DEALLOCATE", "DECLARE", "DETACH", "EXECUTE", "FETCH", "FLUSH", "GRANT", "INSTALL", "KILL",
    "LISTEN", "LOAD", "MERGE", "MSCK", "NOTIFY", "OPTIMIZE", "PRAGMA", "PREPARE", "RELEASE",
    "RENAME", "REVOKE", "SAVEPOINT", "SET", "SHOW", "START", "TRUNCATE", "UNCACHE", "UNLISTEN",
    "UNLOAD", "USE"]

/-- Reads a statement. -/
def statement (level : Level) : Reader Statement := do
  let lexemes ← get
  if startsQuery lexemes || startsWithKeywords ["VALUES"] lexemes || startsWithMark "(" lexemes then
    .query <$> level.query
  else
    let keyword := frontKeyword lexemes
    let _ ← next
    match keyword with
    | "INSERT" =>
      let change ← level.insert
      pure (.other keyword (some change))
    | "REPLACE" =>
      if level.rules.isGenericOr [.mySql] then
        let change ← level.insert
        pure (.other keyword (some change))
      else unexpected
    | "UPDATE" =>
      let change ← level.update
      pure (.other keyword (some change))
    | "DELETE" =>
      let change ← level.delete
      pure (.other keyword (some change))
    | "DROP" =>
      level.dropStatement
      pure (.other keyword none)
    | "CREATE" =>
      let source ← level.createStatement lexemes.length
      pure (.other keyword source)
    | "EXPLAIN" | "DESCRIBE" | "DESC" =>
      let _ ← keyword? "ANALYZE"
      goesOn
      if ← ahead startsQuery then
        let query ← level.query
        pure (.other keyword (some (.query query)))
      else
        restOfStatement
        pure (.other keyword none)
    | "EXEC" =>
      goesOn
      restOfStatement
      pure (.other "EXECUTE" none)
    | _ =>
      if bareKeywords.contains keyword then
        restOfStatement
        pure (.other keyword none)
      else if otherKeywords.contains keyword then
        goesOn
        restOfStatement
        pure (.other keyword none)
      else unexpected

/-- The lexemes behind the semicolons at the front. -/
def afterSemicolons (lexemes : List Lexeme) : List Lexeme :=
  lexemes.dropWhile fun lexeme => lexeme.isMark ";"

/-- Reads statements. Behind a statement comes a semicolon, the end of the text, or the word END,
behind which nothing is read. -/
def statements (level : Level) : Nat → Reader (List Statement)
  | 0 => pure []
  | fuel + 1 => do
    modify afterSemicolons
    if ← ahead List.isEmpty then pure []
    else
      let first ← level.statement
      if ← ahead (startsWithKeywords ["END"]) then pure [first]
      else if ← ahead fun lexemes => lexemes.isEmpty || startsWithMark ";" lexemes then
        let rest ← statements level fuel
        pure (first :: rest)
      else unexpected

end Level

/-- How deep statements, queries and expressions may be nested. -/
def depthLimit : Nat := 50

/-- The statements of a text, if it can be read. -/
def statements? (rules : Rules) (text : String) : Option (List Statement) :=
  (Lexeme.ofText? rules text).bind fun lexemes =>
    match (Level.ofDepth rules (depthLimit - 1)).statements (lexemes.length + 1) lexemes with
    | .ok (found, _) => some found
    | .error _ => none

end SemanticLayer.Grammar
