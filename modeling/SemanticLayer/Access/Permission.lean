import SemanticLayer.Access.Qualify
import SemanticLayer.Grammar.View
import SemanticLayer.Sql.Reading

/-!
# Permissions

A permission is SQL: each of its statements is an alternative that lists tables which may be read.
A text is allowed if every permission has, for each of its statements, an alternative that covers
all tables the statement reads.
-/

namespace SemanticLayer.Access

/-- An alternative of a permission: the names of tables, whole or in part, that may be read. -/
structure Pattern where
  tables : List (List String)
  deriving DecidableEq, Repr

/-- Whether a name, whole or in part, covers the full name of a table: it is the start of it, where
the placeholder stands for any part. -/
def tableMatches (placeholder : String) : List String → List String → Bool
  | [], _ => true
  | part :: allowed, name :: table =>
    (part == placeholder || part == name) && tableMatches placeholder allowed table
  | _ :: _, [] => false

/-- Whether an alternative covers all of some tables. -/
def Pattern.allows (pattern : Pattern) (placeholder : String) (tables : List (List String)) :
    Bool :=
  tables.all fun table => pattern.tables.any fun allowed => tableMatches placeholder allowed table

/-- The first statement that is no query, by its keyword. -/
def firstOther? (statements : List Grammar.Statement) : Option String :=
  statements.findSome? fun
    | .query _ => none
    | .other keyword _ => some keyword

/-- Reads statements all of which have to be queries, each as a document. -/
def queriesOf (text : String) : Result (List Document) := do
  let statements ← Sql.statementsOf text none
  match firstOther? statements with
  | some keyword => .error (.notImplemented (keyword ++ " statement"))
  | none => .ok (statements.map Grammar.View.statement)

/-- The alternatives of a permission. -/
def patternsOf (permission : String) : Result (List Pattern) := do
  let statements ← queriesOf permission
  match stripAliases (.array statements) with
  | .array items => .ok (items.map fun statement => ⟨tableNames statement⟩)
  | document => .ok [⟨tableNames document⟩]

/-- The tables that each statement of a text reads. -/
def tablesRead (inspector : Inspector) (context : Context) (placeholder text : String) :
    Result (List (List (List String))) := do
  let statements ← queriesOf text
  match ← prepare inspector context placeholder (.array statements) with
  | .array items => .ok (items.map tableNames)
  | document => .ok [tableNames document]

/-- Whether the permissions allow a text. Without permissions nothing is allowed. -/
def verify (inspector : Inspector) (context : Context) (placeholder text : String)
    (permissions : List String) : Result Bool := do
  if permissions.isEmpty then pure false
  else
    let statements ← tablesRead inspector context placeholder text
    let patterns ← permissions.mapM patternsOf
    pure <| statements.all fun tables =>
      patterns.all fun alternatives =>
        alternatives.any fun pattern => pattern.allows placeholder tables

end SemanticLayer.Access
