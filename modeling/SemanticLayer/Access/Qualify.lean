import SemanticLayer.Access.Inspector
import SemanticLayer.Document.Pointer

/-!
# Fully qualified statements

Before permissions are checked, every table and column of a statement is written with all parts of
its name: database, catalog, schema and table, and for a column its own name. The work is done on
the document of the parse tree, one SELECT after the other.
-/

namespace SemanticLayer.Access

/-- The number of parts of the full name of a table. -/
def tableParts : Nat := 4

/-- What stands for a part that is not given. -/
def defaultPlaceholder : String := "null"

/-- Where tables lie that are named in part. -/
structure Context where
  database : String
  catalog : Option String := none
  schema : Option String := none
  deriving DecidableEq, Repr

/-- The parts that may be put in front of a name. -/
def Context.start (context : Context) (placeholder : String) : List String :=
  [context.database, context.catalog.getD placeholder, context.schema.getD placeholder]

/-! ## Identifiers in documents -/

/-- The value of an identifier, empty if it has none. -/
def identValue (ident : Document) : String :=
  ((ident.field? "value").bind Document.text?).getD ""

/-- The values of a list of identifiers. -/
def identValues (idents : Document) : List String :=
  (idents.items?.getD []).map identValue

/-- An identifier without quotes. -/
def makeIdent (value : String) : Document :=
  .object [("quote_style", .null), ("value", .string value)]

/-- The identifiers of a column: those of its table, and its own. -/
def chain (table : List String) (column : String) : Document :=
  .array ((table ++ [column]).map makeIdent)

/-- The names of the tables of a document, in its order. -/
def tableNames (document : Document) : List (List String) :=
  ((document.find "Table" none).filterMap fun pointer =>
    ((document.at? pointer).bind (Document.field? "name")).map identValues).filter
      fun name => !name.isEmpty

/-! ## Aliases -/

/-- The document with an aliased entry of a projection written without its alias. -/
def stripAlias (document : Document) (pointer : Document.Pointer) : Document :=
  match (document.at? pointer).bind (Document.field? "expr") with
  | some expr =>
    document.changeAt (fun _ => Document.single "UnnamedExpr" expr) pointer.dropLast
  | none => document

/-- The document with every projection written without aliases. -/
def stripAliases (document : Document) : Document :=
  (document.find "ExprWithAlias" none).foldl stripAlias document

/-! ## Tables -/

/-- A table with its name padded in front to all of its parts. -/
def padTable (start : List String) : Document → Document
  | .object fields =>
    match Document.Fields.get? fields "name" with
    | some (.array parts) =>
      let missing := if parts.isEmpty then 0 else tableParts - parts.length
      .object <| Document.changeField "name"
        (fun _ => .array ((start.take missing).map makeIdent ++ parts)) fields
    | _ => .object fields
  | document => document

/-- The document with the names of all tables padded. -/
def padTables (start : List String) (document : Document) : Document :=
  (document.find "Table" none).foldl (fun found pointer => found.changeAt (padTable start) pointer)
    document

/-- What a SELECT reads from: the full names of its tables, and those that aliases stand for, the
latest first. -/
structure Scope where
  tables : List (List String) := []
  aliases : List (String × List String) := []
  deriving DecidableEq, Repr

/-- The scope with one more table. -/
def Scope.add (scope : Scope) (name : List String) (aliasName : Option String) : Scope where
  tables := scope.tables ++ [name]
  aliases :=
    match aliasName with
    | some aliasName => (aliasName, name) :: scope.aliases
    | none => scope.aliases

/-- Takes a table into the scope and its alias out of the document. -/
def collectTable (state : Document × Scope) (pointer : Document.Pointer) : Document × Scope :=
  let (document, scope) := state
  match document.at? pointer with
  | some (.object fields) =>
    let name := ((Document.Fields.get? fields "name").map identValues).getD []
    if name.isEmpty then state
    else
      let aliasName := (Document.Fields.get? fields "alias").bind (Document.field? "name")
      let plain : Document := .object (Document.changeField "alias" (fun _ => .null) fields)
      (document.changeAt (fun _ => plain) pointer, scope.add name (aliasName.map identValue))
  | _ => state

/-- Takes the tables of a SELECT into a scope and their aliases out of the document. -/
def collectTables (document : Document) (select : Document.Pointer) : Document × Scope :=
  (document.findBelow "Table" (select ++ ["from"]) (some "Select")).foldl collectTable
    (document, {})

/-! ## Columns -/

/-- The full name of the table that a qualifier names: an alias or the last part of a table, or else
a name to be padded. -/
def qualifierTable (scope : Scope) (start : List String) (qualifier : List String) :
    List String :=
  let padded := start.take (min (tableParts - qualifier.length) 3) ++ qualifier
  match qualifier with
  | [name] =>
    match scope.aliases.find? fun entry => entry.1 == name with
    | some (_, table) => table
    | none => (scope.tables.find? fun table => table.getLast? == some name).getD padded
  | _ => padded

/-- The document with a column that has a qualifier written in full. -/
def qualifyCompound (scope : Scope) (start : List String) (document : Document)
    (pointer : Document.Pointer) : Document :=
  let parts := ((document.at? pointer).map identValues).getD []
  match parts.getLast? with
  | some column =>
    let table := qualifierTable scope start parts.dropLast
    document.changeAt (fun _ => chain table column) pointer
  | none => document

/-- The columns of a table by its full name. A schema that is not given is not looked for. -/
def tableColumns (inspector : Inspector) (placeholder : String) (table : List String) :
    Result (List String) :=
  match table.reverse with
  | [] => .ok []
  | [name] => inspector.columns none name
  | name :: schema :: _ =>
    inspector.columns (if schema = placeholder then none else some schema) name

/-- The tables that have a column of the given name. -/
def owners (inspector : Inspector) (placeholder : String) (column : String) :
    List (List String) → Result (List (List String))
  | [] => .ok []
  | table :: rest => do
    let columns ← tableColumns inspector placeholder table
    let others ← owners inspector placeholder column rest
    pure (if columns.contains column then table :: others else others)

/-- The one table that has a column of the given name. -/
def owner (inspector : Inspector) (placeholder : String) (tables : List (List String))
    (column : String) : Result (List String) := do
  match ← owners inspector placeholder column tables with
  | [] => .error (.columnNotInAnyTable column)
  | [table] => .ok table
  | _ => .error (.ambiguousTableColumn column)

/-- The document with a bare column written in full. -/
def qualifyBare (inspector : Inspector) (placeholder : String) (scope : Scope)
    (document : Document) (pointer : Document.Pointer) : Result Document := do
  let column := ((document.at? pointer).map identValue).getD ""
  let table ← owner inspector placeholder scope.tables column
  pure <|
    document.changeAt (fun _ => Document.single "CompoundIdentifier" (chain table column))
      pointer.dropLast

/-- The document with the columns of one SELECT written in full. -/
def qualifySelect (inspector : Inspector) (start : List String) (placeholder : String)
    (document : Document) (select : Document.Pointer) : Result Document :=
  let (document, scope) := collectTables document select
  let document :=
    (document.findBelow "CompoundIdentifier" select (some "Select")).foldl
      (qualifyCompound scope start) document
  (document.findBelow "Identifier" select (some "Select")).foldlM
    (qualifyBare inspector placeholder scope) document

/-- The document with every table and column written in full and every alias taken away. -/
def prepare (inspector : Inspector) (context : Context) (placeholder : String)
    (document : Document) : Result Document := do
  let start := context.start placeholder
  let padded := padTables start document
  let qualified ←
    (padded.find "Select" none).foldlM (qualifySelect inspector start placeholder) padded
  pure (stripAliases qualified)

end SemanticLayer.Access
