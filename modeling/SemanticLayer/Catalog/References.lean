import SemanticLayer.Access.Qualify
import SemanticLayer.Catalog.Reach
import SemanticLayer.Grammar.View
import SemanticLayer.Sql.Reading

/-!
# Referenced columns

The columns that an expression takes from each of the parents of its node. A column with a qualifier
belongs to the parent that the qualifier names, directly or by an alias; one without belongs to the
only parent that has it.
-/

namespace SemanticLayer.Catalog

open Access (identValue identValues)

/-- The columns referenced of each node, both in order and without repetitions. -/
abbrev References := List (String × List String)

namespace References

/-- The columns referenced of a node. -/
def of (references : References) (node : String) : List String :=
  ((references.find? fun entry => entry.1 == node).map Prod.snd).getD []

/-- One more column referenced of a node. -/
def add (node column : String) : References → References
  | [] => [(node, [column])]
  | (other, columns) :: rest =>
    if node = other then (other, insertSorted column columns) :: rest
    else if node < other then (node, [column]) :: (other, columns) :: rest
    else (other, columns) :: add node column rest

/-- The columns referenced of each node in either of two places. -/
def merge (references others : References) : References :=
  others.foldl (fun all entry => entry.2.foldl (fun all column => add entry.1 column all) all)
    references

end References

/-- What the names of relations stand for: a table, or a query whose columns are not looked at. The
latest meaning of a name comes first. -/
abbrev RelationNames := List (String × Option String)

namespace RelationNames

/-- The alias of a relation. -/
def alias? (relation : Document) : Option String :=
  ((relation.field? "alias").bind (Document.field? "name")).map identValue

/-- What a name stands for. -/
def meaning? (names : RelationNames) (name : String) : Option (Option String) :=
  (names.find? fun entry => entry.1 == name).map Prod.snd

/-- The names with the aliases of some relations that are queries. -/
def addQueries (names : RelationNames) (relations : List Document) : RelationNames :=
  (relations.filterMap alias?).foldl (fun all name => (name, none) :: all) names

/-- The names with the alias of a table. A table that is called like a query is that query. -/
def addTable (names : RelationNames) (table : Document) : RelationNames :=
  let name := Text.dotted (((table.field? "name").map identValues).getD [])
  let target :=
    match names.meaning? name with
    | some none => none
    | _ => some name
  match alias? table with
  | some aliasName => (aliasName, target) :: names
  | none => names

/-- The aliases of a document: of named queries, of derived tables and of tables. -/
def ofDocument (document : Document) : RelationNames :=
  let found (key : String) : List Document := (document.find key none).filterMap document.at?
  let ctes := (found "cte_tables").flatMap fun list => list.items?.getD []
  (found "Table").foldl addTable (addQueries (addQueries [] ctes) (found "Derived"))

end RelationNames

/-- Adds a column with a qualifier. -/
def addQualified (names : RelationNames) (parents : List Node) (references : References)
    (parts : List String) : Result References :=
  match parts.getLast? with
  | none => .ok references
  | some column =>
    let qualifier := Text.dotted parts.dropLast
    let owner? : Option String :=
      match names.meaning? qualifier with
      | some (some table) => some table
      | some none => none
      | none => some qualifier
    match owner? with
    | none => .ok references
    | some owner =>
      if parents.any fun parent => parent.name == owner then .ok (references.add owner column)
      else .error (.invalidIdentifier qualifier)

/-- Adds a column without a qualifier. -/
def addBare (parents : List Node) (references : References) (column : String) :
    Result References :=
  match parents.filter fun parent => parent.hasColumn column with
  | [] => .error (.columnNotFound column)
  | [owner] => .ok (references.add owner.name column)
  | _ => .error (.ambiguousColumn column)

/-- The columns that a document takes from each of some parents. -/
def documentReferences (document : Document) (parents : List Node) : Result References := do
  let found (key : String) : List Document := (document.find key none).filterMap document.at?
  let names := RelationNames.ofDocument document
  let qualified ←
    ((found "CompoundIdentifier").map identValues).foldlM (addQualified names parents) []
  ((found "Identifier").map identValue).foldlM (addBare parents) qualified

/-- The columns that a text takes from each of some parents. -/
def textReferences (text : String) (parents : List Node) : Result References := do
  let statements ← Sql.statementsOf text none
  documentReferences (Grammar.View.statements statements) parents

/-- The columns that the expression of a node takes from each of its parents. -/
def nodeReferences (catalog : Catalog) (node : Node) : Result References :=
  match node.expression with
  | some expression => textReferences expression (catalog.parents node)
  | none => .ok []

/-! ## Databases -/

/-- Where the columns of a node can be computed: where the node is materialized with them, or where
all parents can be computed as far as its expression needs them. -/
def computableWithin (catalog : Catalog) : Nat → Node → List String → Result (List Int)
  | 0, _, _ => .ok []
  | fuel + 1, node, columns => do
    let stored := (node.tables.filter fun table => table.holds columns).map
      Materialization.database
    match catalog.parents node with
    | [] => pure stored
    | first :: rest => do
      let references ← catalog.nodeReferences node
      let start ← computableWithin catalog fuel first (references.of first.name)
      let common ← rest.foldlM (fun (ids : List Int) parent => do
        let found ← computableWithin catalog fuel parent (references.of parent.name)
        pure (ids.filter found.contains)) start
      pure (stored ++ common)

/-- The ids of the databases that some columns of a node can be computed in. No chain of parents is
longer than the catalog. -/
def computableIds (catalog : Catalog) (node : Node) (columns : List String) :
    Result (List Int) :=
  computableWithin catalog (catalog.nodes.length + 1) node columns

/-- The databases that some columns of a node can be computed in. -/
def computableDatabases (catalog : Catalog) (node : Node) (columns : List String) :
    Result (List Database) := do
  let ids ← catalog.computableIds node columns
  pure (catalog.databases.filter fun database => ids.contains database.id)

/-- The databases that every one of some nodes can be computed in as far as it is referenced. -/
def candidates (catalog : Catalog) (nodes : List Node) (references : References) :
    Result (List Database) :=
  nodes.foldlM (fun databases node => do
    let ids ← catalog.computableIds node (references.of node.name)
    pure (databases.filter fun database => ids.contains database.id)) catalog.databases

/-- The database to compute some nodes in: the one asked for, or else the cheapest, the first of
several that cost the same. -/
def databaseFor (catalog : Catalog) (nodes : List Node) (references : References)
    (requested : Option Int) : Result Database := do
  let found ← catalog.candidates nodes references
  if found.isEmpty then .error .noValidDatabase
  else
    let allowed :=
      match requested with
      | some id => found.filter fun database => database.id == id
      | none => found
    match firstLeast? (fun database => database.cost.orderKey) allowed, requested with
    | some database, _ => pure database
    | none, some id => .error (.invalidDatabaseId id)
    | none, none => .error .noValidDatabase

end SemanticLayer.Catalog
