import SemanticLayer.Catalog.Node
import SemanticLayer.Catalog.Order
import SemanticLayer.Error

/-!
# Catalogs

A catalog holds databases and nodes. `Catalog.build` accepts them if names and ids are unique, if
every parent, dimension and database that is named exists, and if no node is its own ancestor.
-/

namespace SemanticLayer

/-- Databases and nodes, both in the order they are declared. -/
structure Catalog where
  databases : List Catalog.Database := []
  nodes : List Catalog.Node := []
  deriving DecidableEq, Repr

namespace Catalog

/-- The node of a name. -/
def node? (catalog : Catalog) (name : String) : Option Node :=
  catalog.nodes.find? fun node => node.name == name

/-- The node of a name, which has to exist. -/
def node (catalog : Catalog) (name : String) : Result Node :=
  match catalog.node? name with
  | some found => .ok found
  | none => .error (.unknownNode name)

/-- Whether there is a node of a name. -/
def contains (catalog : Catalog) (name : String) : Bool :=
  (catalog.node? name).isSome

/-- The database of an id, which has to exist. -/
def database (catalog : Catalog) (id : Int) : Result Database :=
  match catalog.databases.find? fun database => database.id == id with
  | some found => .ok found
  | none => .error (.invalidDatabaseId id)

/-- The parents of a node, in the order they are declared. -/
def parents (catalog : Catalog) (node : Node) : List Node :=
  node.parents.filterMap catalog.node?

/-- The edges from parents to children. -/
def edges (catalog : Catalog) : Order.Edges :=
  catalog.nodes.flatMap fun node => node.parents.map fun parent => (parent, node.name)

/-- The nodes in an order in which parents come before their children. -/
def topologicalOrder (catalog : Catalog) : List String :=
  match Order.topological (catalog.nodes.map Node.name) catalog.edges with
  | .ok order => order
  | .error _ => []

/-- A text put into a sorted list without repetitions. -/
def insertSorted (text : String) : List String → List String
  | [] => [text]
  | first :: rest =>
    if text = first then first :: rest
    else if text < first then text :: first :: rest
    else first :: insertSorted text rest

/-- Texts in order and without repetitions. -/
def sortedSet (texts : List String) : List String :=
  texts.foldl (fun sorted text => insertSorted text sorted) []

/-- The nodes that edges lead to from a node, sorted by name and each one once. -/
def children (catalog : Catalog) (name : String) : Result (List Node) := do
  let node ← catalog.node name
  pure ((sortedSet (Order.successors catalog.edges node.name)).filterMap catalog.node?)

/-! ## Building -/

/-- The first item that equals an earlier one. -/
def firstRepeated? {α : Type} [BEq α] (seen : List α) : List α → Option α
  | [] => none
  | item :: rest =>
    if seen.contains item then some item else firstRepeated? (item :: seen) rest

/-- Goes on unless a fault is found. -/
def refuse (fault : Option CatalogFault) : Result Unit :=
  match fault with
  | some found => .error (.invalidCatalog found)
  | none => .ok ()

/-- What a node names that does not exist: a parent, else a dimension, else a database. -/
def unknownReference? (catalog : Catalog) (node : Node) : Option CatalogFault :=
  let parent := node.parents.find? fun parent => !catalog.contains parent
  let link := node.columns.findSome? fun column =>
    column.dimension.bind fun dimension =>
      if catalog.contains dimension then none else some (column.name, dimension)
  let table := node.tables.find? fun table =>
    !catalog.databases.any fun database => database.id == table.database
  match parent, link, table with
  | some parent, _, _ => some (.unknownParent node.name parent)
  | none, some (column, dimension), _ => some (.unknownDimension node.name column dimension)
  | none, none, some table => some (.unknownDatabase node.name table.database)
  | none, none, none => none

/-- A node on a cycle of parents. -/
def cycle? (catalog : Catalog) : Option CatalogFault :=
  match Order.topological (catalog.nodes.map Node.name) catalog.edges with
  | .ok _ => none
  | .error node => some (.cycle node)

/-- The catalog of databases and nodes. -/
def build (databases : List Database) (nodes : List Node) : Result Catalog := do
  let catalog : Catalog := { databases, nodes }
  refuse ((firstRepeated? [] (databases.map Database.id)).map .duplicateDatabase)
  refuse ((firstRepeated? [] (nodes.map Node.name)).map .duplicateNode)
  refuse (nodes.findSome? catalog.unknownReference?)
  refuse catalog.cycle?
  pure catalog

end Catalog
end SemanticLayer
