/-!
# Topological order

An order of the nodes of a directed graph in which every edge leads forward, or a node on a cycle.
Nodes are searched in depth, from each one in the given order, edges that were added last first.
-/

namespace SemanticLayer.Catalog.Order

/-- Edges, each from one node to another, in the order they were added. -/
abbrev Edges := List (String × String)

/-- The nodes that edges lead to from a node, the one added last in front. -/
def successors (edges : Edges) (node : String) : List String :=
  (edges.reverse.filter fun edge => edge.1 == node).map Prod.snd

/-- The nodes that edges lead from to a node, the one added last in front. -/
def predecessors (edges : Edges) (node : String) : List String :=
  (edges.reverse.filter fun edge => edge.2 == node).map Prod.fst

/-- Some nodes put on a stack one after the other, those that were seen left out. -/
def push (nodes seen stack : List String) : List String :=
  (nodes.filter fun node => !seen.contains node).reverse ++ stack

/-- A search in depth: the nodes to look at, those seen, and those all of whose successors were
finished before, the latest in front. -/
structure Search where
  stack : List String := []
  seen : List String := []
  finished : List String := []
  deriving DecidableEq, Repr

/-- Searches until no node is left to look at. It fails with a node that leads to itself. -/
def search (edges : Edges) : Nat → Search → Except String Search
  | 0, state => .ok state
  | fuel + 1, state =>
    match state.stack with
    | [] => .ok state
    | node :: rest =>
      if state.seen.contains node then
        let finished :=
          if state.finished.contains node then state.finished else node :: state.finished
        search edges fuel { state with stack := rest, finished }
      else
        let next := successors edges node
        if next.contains node then .error node
        else
          let seen := node :: state.seen
          search edges fuel { state with seen, stack := push next seen state.stack }

/-- The steps that a search from one node takes at most. -/
def searchBound (nodes : List String) (edges : Edges) : Nat :=
  nodes.length + edges.length + 1

/-- The nodes in reverse order of being finished, each searched from in turn. -/
def finishing (nodes : List String) (edges : Edges) : Except String (List String) := do
  let last ← nodes.foldlM (fun (state : Search) node =>
    if state.seen.contains node then .ok state
    else search edges (searchBound nodes edges) { state with stack := [node] }) {}
  pure last.finished

/-- Looks for nodes that lead to those on the stack, among those not seen yet. The first one is
expected; it fails with a second one. -/
def trace (edges : Edges) : Nat → Bool → List String → List String → Except String (List String)
  | 0, _, _, seen => .ok seen
  | _ + 1, _, [], seen => .ok seen
  | fuel + 1, met, node :: stack, seen =>
    if seen.contains node then trace edges fuel met stack seen
    else if met then .error node
    else
      let seen := node :: seen
      trace edges fuel true (push (predecessors edges node) seen stack) seen

/-- The nodes in topological order. It fails with a node on a cycle, if there is one. -/
def topological (nodes : List String) (edges : Edges) : Except String (List String) := do
  let order ← finishing nodes edges
  let _ ← order.foldlM (fun seen node =>
    trace edges (searchBound nodes edges) false [node] seen) []
  pure order

end SemanticLayer.Catalog.Order
