import SemanticLayer.Catalog.Basic

/-!
# Dimension links

Columns link nodes to dimensions. What can be reached by links from the parents of a node, or from a
node without parents, is what the node can be grouped and filtered by; links may lead in circles.
-/

namespace SemanticLayer.Catalog

/-! ## Reachable nodes -/

/-- The dimensions that the columns of a node link to. -/
def Node.links (node : Node) : List String :=
  node.columns.filterMap NodeColumn.dimension

/-- The number of links in a catalog. -/
def linkCount (catalog : Catalog) : Nat :=
  (catalog.nodes.flatMap Node.links).length

/-- Follows links from the nodes on a stack, those on top first, past the nodes found. -/
def follow (catalog : Catalog) : Nat → List Node → List Node → Result (List Node)
  | 0, _, found => .ok found
  | _ + 1, [], found => .ok found
  | fuel + 1, node :: stack, found =>
    if found.any fun other => other.name == node.name then follow catalog fuel stack found
    else do
      let linked ← node.links.mapM catalog.node
      follow catalog fuel (linked.reverse ++ stack) (node :: found)

/-- The nodes that links lead to from some nodes, and those nodes. -/
def reachable (catalog : Catalog) (roots : List Node) : Result (List Node) :=
  follow catalog (roots.length + catalog.linkCount + 1) roots.reverse []

/-- The nodes that links are followed from for a node: its parents, or itself. -/
def roots (catalog : Catalog) (node : Node) : List Node :=
  if node.parents.isEmpty then [node] else catalog.parents node

/-! ## Dimensions -/

/-- The columns of a node by their full names. -/
def Node.dimensionNames (node : Node) : List String :=
  node.columns.map fun column => Text.dotted [node.name, column.name]

/-- The full names of the columns that a node can be grouped and filtered by, sorted. -/
def dimensions (catalog : Catalog) (node : Node) : Result (List String) := do
  let nodes ← catalog.reachable (catalog.roots node)
  pure (sortedSet (nodes.flatMap Node.dimensionNames))

/-- Whether a full name is that of a dimension, or of a column of it. -/
def namesDimension (dimension name : String) : Bool :=
  name == dimension ||
    match Text.splitLastDot? name with
    | some (node, _) => node == dimension
    | none => false

/-- The nodes, apart from a dimension itself, that can be grouped by it or by a column of it, sorted
by name. -/
def nodesWithDimension (catalog : Catalog) (dimension : String) : Result (List Node) := do
  let found ← catalog.nodes.filterM fun node => do
    if node.name == dimension then pure false
    else
      let names ← catalog.dimensions node
      pure (names.any (namesDimension dimension))
  pure (found.mergeSort fun a b => a.name ≤ b.name)

/-- The nodes that can be grouped by every one of some dimensions, sorted by name. Without
dimensions there are none. -/
def nodesWithCommonDimensions (catalog : Catalog) : List String → Result (List Node)
  | [] => .ok []
  | first :: rest => do
    let start ← catalog.nodesWithDimension first
    rest.foldlM (fun common dimension => do
      let nodes ← catalog.nodesWithDimension dimension
      pure (common.filter fun node => nodes.any fun other => other.name == node.name)) start

/-! ## Paths -/

/-- A step along a link: from a column of a node to a column of a dimension. -/
structure Hop where
  source : String
  column : String
  dimension : String
  dimensionColumn : String
  deriving DecidableEq, Repr

/-- What a search in breadth has found: the nodes seen, and those whose links are still to be
followed, with the way to each. -/
structure Frontier where
  seen : List String
  queue : List (Node × List Hop)
  deriving DecidableEq, Repr

/-- Follows the links of some columns of a node, reached by `path`. It gives the way to the
dimension that is looked for once a link leads there. -/
def expand (catalog : Catalog) (dimension : String) (node : Node) (path : List Hop) :
    List NodeColumn → Frontier → List Hop ⊕ Frontier
  | [], frontier => .inr frontier
  | column :: columns, frontier =>
    let target? := column.dimension.bind fun name =>
      if frontier.seen.contains name then none else catalog.node? name
    match target? with
    | none => expand catalog dimension node path columns frontier
    | some target =>
      let way := path ++
        [{ source := node.name, column := column.name, dimension := target.name
           dimensionColumn := column.joinColumn }]
      if target.name = dimension then .inl way
      else
        expand catalog dimension node path columns
          { seen := target.name :: frontier.seen, queue := frontier.queue ++ [(target, way)] }

/-- Searches for a dimension in breadth. -/
def searchPath (catalog : Catalog) (dimension : String) : Nat → Frontier → Option (List Hop)
  | 0, _ => none
  | fuel + 1, frontier =>
    match frontier.queue with
    | [] => none
    | (node, path) :: queue =>
      match expand catalog dimension node path node.columns { frontier with queue } with
      | .inl way => some way
      | .inr next => searchPath catalog dimension fuel next

/-- The shortest chain of links from one of some nodes to a dimension. Nodes are tried in the given
order and columns in the order they are declared. -/
def dimensionPath (catalog : Catalog) (start : List Node) (dimension : String) :
    Option (List Hop) :=
  searchPath catalog dimension (start.length + catalog.nodes.length + 1)
    { seen := start.map Node.name, queue := start.map fun node => (node, []) }

end SemanticLayer.Catalog
