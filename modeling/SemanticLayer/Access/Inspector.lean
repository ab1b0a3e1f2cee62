import SemanticLayer.Error
import SemanticLayer.Text.CharClass

/-!
# Columns of physical tables

An inspector knows the columns of physical tables, either because they are declared or because they
are stored in a database.
-/

namespace SemanticLayer.Access

/-- A table that is declared with its columns. -/
structure SchemaTable where
  schema : Option String := none
  table : String
  columns : List String
  deriving DecidableEq, Repr

/-- Whoever knows the columns of tables. A later declaration takes the place of an earlier one; a
stored table lies in the one schema `main`. -/
inductive Inspector where
  | declared (tables : List SchemaTable)
  | stored (tables : List SchemaTable)
  | unreadable

namespace Inspector

/-- The columns last declared for a table in a schema, or in none. -/
def declaredColumns? (tables : List SchemaTable) (schema : Option String) (table : String) :
    Option (List String) :=
  (tables.reverse.find? fun entry => entry.schema == schema && entry.table == table).map
    SchemaTable.columns

/-- Whether two names are the same but for the case of Latin letters. -/
def sameName (a b : String) : Bool :=
  Text.asciiLower a == Text.asciiLower b

/-- The columns of a stored table. -/
def storedColumns (tables : List SchemaTable) (schema : Option String) (table : String) :
    Result (List String) :=
  let schema := schema.getD "main"
  if sameName schema "main" then
    match tables.find? fun entry => sameName entry.table table with
    | some found =>
      if found.columns.isEmpty then .error (.introspection (.noTable table)) else .ok found.columns
    | none => .error (.introspection (.noTable table))
  else if sameName schema "temp" then .error (.introspection (.noTable table))
  else .error .unreadableDatabase

/-- The columns of a table. One declared without a schema is found in every schema. -/
def columns (inspector : Inspector) (schema : Option String) (table : String) :
    Result (List String) :=
  match inspector with
  | declared tables =>
    match declaredColumns? tables schema table <|> declaredColumns? tables none table with
    | some found => .ok found
    | none => .error (.introspection (.noColumns schema table))
  | stored tables => storedColumns tables schema table
  | unreadable => .error .unreadableDatabase

end Inspector
end SemanticLayer.Access
