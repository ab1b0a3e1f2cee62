import SemanticLayer.Sql.Token

/-!
# Names, tables and columns

An identifier keeps the quotes it was written in, but two identifiers with the same value are the
same name. A column may carry the table or the path that owns it; either qualifies it.
-/

namespace SemanticLayer.Sql

/-- An identifier with the quotation mark it was written in. -/
structure Name where
  value : String
  quote : Option Char := none
  deriving DecidableEq, Repr, Inhabited

/-- The text is the name; quotation does not count. -/
instance : BEq Name := ⟨fun a b => a.value == b.value⟩

/-- The token of an identifier. -/
def Name.token (name : Name) : Token :=
  .name name.value name.quote.isSome

/-- An ordered path of identifiers, such as a catalog and a schema. -/
abbrev Path := List Name

/-- The values of a path with dots between them. -/
def Path.dotted (path : Path) : String :=
  Text.dotted (path.map Name.value)

/-- The tokens of a path, each identifier followed by a dot. -/
def Path.tokens (path : Path) : Tokens :=
  path.flatMap fun name => [name.token, .symbol .dot]

/-- A table as it stands in FROM: a name in a path, possibly under an alias. -/
structure Table where
  name : Name
  path : Option Path := none
  aliasName : Option Name := none
  deriving DecidableEq, Repr

namespace Table

/-- Names are compared by value, and a missing path differs from an empty one. -/
instance : BEq Table :=
  ⟨fun a b => a.name == b.name && a.path == b.path && a.aliasName == b.aliasName⟩

/-- The table in a path; an empty path is none. -/
def inPath (table : Table) (path : Path) : Table :=
  { table with path := if path = [] then none else some path }

/-- The dotted name without the alias. -/
def fullName (table : Table) : String :=
  match table.path with
  | some path => path.dotted ++ "." ++ table.name.value
  | none => table.name.value

/-- The path by which columns refer to the table. -/
def reference (table : Table) : Path :=
  match table.aliasName with
  | some aliasName => [aliasName]
  | none => table.path.getD [] ++ [table.name]

/-- The tokens of a table in FROM. -/
def tokens (table : Table) : Tokens :=
  (table.path.getD []).tokens ++ table.name.token ::
    match table.aliasName with
    | some aliasName => [space, .keyword .as, space, aliasName.token]
    | none => []

end Table

/-- A reference to a column. The first owner it gets stays. -/
structure Column where
  name : Name
  table : Option Table := none
  path : Option Path := none
  deriving DecidableEq, Repr

namespace Column

/-- Whether the column has an owner. -/
def isQualified (column : Column) : Bool :=
  column.table.isSome || column.path.isSome

/-- The column owned by a table, unless it has an owner. -/
def addTable (column : Column) (table : Table) : Column :=
  if column.isQualified then column else { column with table := some table }

/-- The column in a path, unless it has an owner or the path is empty. -/
def addPath (column : Column) (path : Path) : Column :=
  if column.isQualified || path.isEmpty then column else { column with path := some path }

/-- The path that qualifies the column. -/
def qualifier (column : Column) : Path :=
  match column.table, column.path with
  | some table, _ => table.reference
  | none, some path => path
  | none, none => []

/-- The dotted qualifier, if there is one. -/
def qualifierName? (column : Column) : Option String :=
  if column.qualifier.isEmpty then none else some column.qualifier.dotted

/-- The dotted name with its qualifier. -/
def fullName (column : Column) : String :=
  match column.qualifierName? with
  | some qualifier => qualifier ++ "." ++ column.name.value
  | none => column.name.value

/-- The tokens of a column. -/
def tokens (column : Column) : Tokens :=
  column.qualifier.tokens ++ [column.name.token]

/-- Two columns are the same if they are called the same and qualified the same, by whatever
owner. -/
instance : BEq Column := ⟨fun a b => a.name == b.name && a.qualifier == b.qualifier⟩

end Column
end SemanticLayer.Sql
