import SemanticLayer.Catalog.References

/-!
# What a query demands

The nodes that take part in a query, and the columns it takes from each node. The database has to
provide all of them.
-/

namespace SemanticLayer.Planner

open SemanticLayer.Catalog (Node Hop References)

/-- The nodes that take part, in the order they were met, and the columns taken from nodes. -/
structure Demand where
  nodes : List Node
  references : References := []

namespace Demand

/-- One more column of a node. -/
def addColumn (node column : String) (demand : Demand) : Demand :=
  { demand with references := demand.references.add node column }

/-- The nodes with one more of them, unless it takes part. -/
def addNode (node : Node) (demand : Demand) : Demand :=
  if demand.nodes.any fun other => other.name == node.name then demand
  else { demand with nodes := demand.nodes ++ [node] }

/-- The demand of a hop: both columns, and the dimension. -/
def addHop (catalog : Catalog) (demand : Demand) (hop : Hop) : Result Demand := do
  let dimension ← catalog.node hop.dimension
  pure (((demand.addColumn hop.source hop.column).addColumn hop.dimension
    hop.dimensionColumn).addNode dimension)

/-- The demand of a path. -/
def addPath (catalog : Catalog) (demand : Demand) (path : List Hop) : Result Demand :=
  path.foldlM (addHop catalog) demand

/-- The database to provide what is demanded. -/
def database (catalog : Catalog) (demand : Demand) (requested : Option Int) :
    Result Catalog.Database :=
  catalog.databaseFor demand.nodes demand.references requested

end Demand
end SemanticLayer.Planner
