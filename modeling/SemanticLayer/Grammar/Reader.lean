import SemanticLayer.Grammar.Tree

/-!
# Readers

A reader takes what it understands from the front of a list of lexemes and leaves the rest. It
fails on a lexeme it does not expect; a reader that tries an alternative gives back what it took.
Text that is nested too deeply fails for good: no alternative is tried for it.
-/

namespace SemanticLayer.Grammar

open Sql (Name Path)

/-- Why a text is not read. -/
inductive Failure where
  | unexpected
  | tooDeep
  deriving DecidableEq, Repr

/-- A step that reads from the front of a list of lexemes. -/
abbrev Reader (α : Type) := StateT (List Lexeme) (Except Failure) α

namespace Lexeme

/-- Whether the lexeme is a keyword, in whatever case it is written. -/
def isKeyword (keyword : String) : Lexeme → Bool
  | .word found => found.keyword == keyword
  | _ => false

/-- Whether the lexeme is a mark. -/
def isMark (text : String) : Lexeme → Bool
  | .mark found => found == text
  | _ => false

end Lexeme

/-- Whether a list of lexemes starts with the keywords in order. -/
def startsWithKeywords : List String → List Lexeme → Bool
  | [], _ => true
  | keyword :: keywords, lexeme :: rest =>
    lexeme.isKeyword keyword && startsWithKeywords keywords rest
  | _ :: _, [] => false

/-- Whether a list of lexemes starts with a mark. -/
def startsWithMark (text : String) : List Lexeme → Bool
  | lexeme :: _ => lexeme.isMark text
  | [] => false

/-- Whether a list of lexemes starts with a query: SELECT or WITH. -/
def startsQuery (lexemes : List Lexeme) : Bool :=
  startsWithKeywords ["SELECT"] lexemes || startsWithKeywords ["WITH"] lexemes

/-- The keyword at the front of a list of lexemes, empty if there is none. -/
def frontKeyword : List Lexeme → String
  | .word word :: _ => word.keyword
  | _ => ""

/-- The identifier that a lexeme is: a word, or a quoted text. -/
def Lexeme.name? : Lexeme → Option Name
  | .word found => some ⟨found.value, found.quote⟩
  | .string text => some ⟨text, some '\''⟩
  | .literal .doubleQuoted text => some ⟨text, some '"'⟩
  | _ => none

namespace Reader

/-- Fails on the next lexeme. -/
def unexpected {α : Type} : Reader α :=
  fun _ => .error .unexpected

/-- Takes the next lexeme. -/
def next : Reader Lexeme := fun
  | lexeme :: rest => .ok (lexeme, rest)
  | [] => .error .unexpected

/-- Whether something holds of the lexemes ahead. -/
def ahead (test : List Lexeme → Bool) : Reader Bool :=
  fun lexemes => .ok (test lexemes, lexemes)

/-- Takes as many lexemes as a test asks for, if it holds of those ahead. -/
def takeIf (count : Nat) (test : List Lexeme → Bool) : Reader Bool :=
  fun lexemes => .ok (if test lexemes then (true, lexemes.drop count) else (false, lexemes))

/-- Takes keywords that stand in order, all of them or none. -/
def keywords? (keywords : List String) : Reader Bool :=
  takeIf keywords.length (startsWithKeywords keywords)

/-- Takes a keyword if it comes next. -/
def keyword? (keyword : String) : Reader Bool :=
  keywords? [keyword]

/-- Takes a mark if it comes next. -/
def mark? (text : String) : Reader Bool :=
  takeIf 1 (startsWithMark text)

/-- Goes on only if something was found. -/
def require (found : Reader Bool) : Reader Unit := do
  if ← found then pure () else unexpected

/-- Takes keywords that have to come next. -/
def expectKeywords (keywords : List String) : Reader Unit :=
  require (keywords? keywords)

/-- Takes a keyword that has to come next. -/
def expectKeyword (keyword : String) : Reader Unit :=
  require (keyword? keyword)

/-- Takes a mark that has to come next. -/
def expectMark (text : String) : Reader Unit :=
  require (mark? text)

/-- Takes one of several keywords. -/
def oneOf? (keywords : List String) : Reader (Option String) :=
  fun lexemes =>
    .ok <|
      match keywords.find? fun keyword => startsWithKeywords [keyword] lexemes with
      | some keyword => (some keyword, lexemes.drop 1)
      | none => (none, lexemes)

/-- Takes one of several keywords, one of which has to come next. -/
def expectOneOf (keywords : List String) : Reader String := do
  match ← oneOf? keywords with
  | some keyword => pure keyword
  | none => unexpected

/-- Takes an identifier. -/
def identifier : Reader Name := do
  match (← next).name? with
  | some name => pure name
  | none => unexpected

/-- Tries a reader. Where it does not expect what it meets, nothing is taken. -/
def attempt {α : Type} (reader : Reader α) : Reader (Option α) :=
  fun lexemes =>
    match reader lexemes with
    | .ok (value, rest) => .ok (some value, rest)
    | .error .unexpected => .ok (none, lexemes)
    | .error .tooDeep => .error .tooDeep

/-- Tries a second reader where the first fails. If both fail, the first failure stands. -/
def orElse {α : Type} (first second : Reader α) : Reader α :=
  fun lexemes =>
    match first lexemes with
    | .ok result => .ok result
    | .error failure =>
      match second lexemes with
      | .ok result => .ok result
      | .error _ => .error failure

/-- Reads something in parentheses. -/
def parenthesized {α : Type} (reader : Reader α) : Reader α := do
  expectMark "("
  let value ← reader
  expectMark ")"
  pure value

/-- Reads something behind a keyword, if the keyword comes next. -/
def behind? {α : Type} (keywords : List String) (reader : Reader α) : Reader (Option α) := do
  if ← keywords? keywords then some <$> reader else pure none

/-- Reads the further items of a list, each behind a comma; `ends` tells where a comma ends it. -/
def moreItems {α : Type} (ends : List Lexeme → Bool) (item : Reader α) : Nat → Reader (List α)
  | 0 => pure []
  | fuel + 1 => do
    if ← mark? "," then
      if ← ahead ends then pure []
      else
        let first ← item
        let rest ← moreItems ends item fuel
        pure (first :: rest)
    else pure []

/-- Reads one item or more with commas between them. -/
def separated {α : Type} (ends : List Lexeme → Bool) (item : Reader α) : Reader (List α) := do
  let first ← item
  let lexemes ← get
  let rest ← moreItems ends item lexemes.length
  pure (first :: rest)

end Reader

/-- The keywords that are no alias of an expression unless AS introduces them. -/
def notColumnAliases : List String :=
  ["WITH", "EXPLAIN", "ANALYZE", "SELECT", "WHERE", "GROUP", "SORT", "HAVING", "ORDER", "TOP",
    "LATERAL", "VIEW", "LIMIT", "OFFSET", "FETCH", "UNION", "EXCEPT", "EXCLUDE", "INTERSECT",
    "CLUSTER", "DISTRIBUTE", "RETURNING", "FROM", "INTO", "END"]

/-- The keywords that are no alias of a table unless AS introduces them. -/
def notTableAliases : List String :=
  ["WITH", "EXPLAIN", "ANALYZE", "SELECT", "WHERE", "GROUP", "SORT", "HAVING", "ORDER", "PIVOT",
    "UNPIVOT", "TOP", "LATERAL", "VIEW", "LIMIT", "OFFSET", "FETCH", "UNION", "EXCEPT",
    "INTERSECT", "ON", "JOIN", "INNER", "CROSS", "FULL", "LEFT", "RIGHT", "NATURAL", "USING",
    "CLUSTER", "DISTRIBUTE", "GLOBAL", "ANTI", "SEMI", "RETURNING", "ASOF", "MATCH_CONDITION",
    "OUTER", "SET", "QUALIFY", "WINDOW", "END", "FOR", "PARTITION", "PREWHERE", "SETTINGS",
    "FORMAT", "START", "CONNECT", "MATCH_RECOGNIZE"]

/-- Whether a comma in front of the given lexemes ends a list, where lists may end in one. -/
def endsList (lexemes : List Lexeme) : Bool :=
  match lexemes with
  | [] => true
  | .word word :: _ => notColumnAliases.contains word.keyword
  | .mark text :: _ => [")", ";", "]", "\x7d"].contains text
  | _ => false

namespace Reader

/-- Reads a list with commas by the rules of a grammar. -/
def commaSeparated {α : Type} (rules : Rules) (item : Reader α) : Reader (List α) :=
  separated (fun lexemes => rules.endsListsByComma && endsList lexemes) item

/-- Reads an alias, which AS may introduce and some keywords are not without it. -/
def alias? (excluded : List String) : Reader (Option Name) := do
  if ← keyword? "AS" then some <$> identifier
  else
    fun lexemes =>
      .ok <|
        match lexemes with
        | .word word :: rest =>
          if excluded.contains word.keyword then (none, lexemes)
          else (some ⟨word.value, word.quote⟩, rest)
        | lexeme :: rest =>
          match lexeme.name? with
          | some name => (some name, rest)
          | none => (none, lexemes)
        | [] => (none, lexemes)

/-- Reads the further parts of a dotted name. -/
def moreParts (rules : Rules) : Nat → Reader Path
  | 0 => pure []
  | fuel + 1 => do
    if ← mark? "." then
      let part ← identifier
      let rest ← moreParts rules fuel
      pure (part :: rest)
    else pure []

/-- The dotted name of some parts; where quoted parts may be dotted they are taken apart. -/
def objectNameOf (splits : Bool) (first : Name) (rest : Path) : ObjectName :=
  let parts :=
    if splits then
      (first :: rest).flatMap fun part => (part.value.splitOn ".").map fun piece =>
        { part with value := piece }
    else first :: rest
  match parts.getLast? with
  | some last => ⟨parts.dropLast, last⟩
  | none => ⟨[], first⟩

/-- Reads a dotted name. -/
def objectName (rules : Rules) : Reader ObjectName := do
  let first ← identifier
  let lexemes ← get
  let rest ←
    if rules.skipsDefaultSchema && startsWithMark "." lexemes &&
        startsWithMark "." (lexemes.drop 1) then do
      let _ ← mark? "."
      (⟨"", none⟩ :: ·) <$> moreParts rules lexemes.length
    else moreParts rules lexemes.length
  pure (objectNameOf (rules.isOneOf [.bigQuery]) first rest)

/-- Reads identifiers in parentheses. -/
def identifiers (rules : Rules) : Reader (List Name) :=
  parenthesized (commaSeparated rules identifier)

end Reader
end SemanticLayer.Grammar
