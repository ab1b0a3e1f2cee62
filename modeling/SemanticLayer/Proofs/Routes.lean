import SemanticLayer.Catalog.Reach

/-!
# Paths are routes

Every hop of a path leaves a node to start from or a dimension that an earlier hop leads to, over
nodes of the catalog, and a hop leads to the dimension that was looked for.
-/

namespace SemanticLayer.Catalog

variable {catalog : Catalog} {dimension : String} {start : List String} {hop : Hop}
  {path : List Hop}

/-- Every hop leaves a node that is known by then: from the start, or from an earlier hop. -/
def Linked (known : List String) : List Hop → Prop
  | [] => True
  | hop :: rest => hop.source ∈ known ∧ Linked (hop.dimension :: known) rest

theorem Linked.concat (linked : Linked start path)
    (leaves : hop.source ∈ start ∨ ∃ other ∈ path, other.dimension = hop.source) :
    Linked start (path ++ [hop]) := by
  induction path generalizing start with
  | nil =>
      refine ⟨leaves.resolve_right ?_, trivial⟩
      rintro ⟨_, none, _⟩
      cases none
  | cons first rest ih =>
      obtain ⟨known, others⟩ := linked
      refine ⟨known, ih others ?_⟩
      rcases leaves with there | ⟨other, member, same⟩
      · exact .inl (List.mem_cons_of_mem _ there)
      · rcases List.mem_cons.1 member with rfl | later
        · exact .inl (same ▸ List.mem_cons_self)
        · exact .inr ⟨other, later, same⟩

/-- A route over nodes of a catalog. -/
structure Route (catalog : Catalog) (start : List String) (way : List Hop) : Prop where
  linked : Linked start way
  known : ∀ hop ∈ way, ∃ node ∈ catalog.nodes, node.name = hop.dimension

/-- A way to a node: a route that leads there, if the node is not one to start from. -/
structure Reaches (catalog : Catalog) (start : List String) (name : String) (way : List Hop) :
    Prop extends Route catalog start way where
  arrives : name ∈ start ∨ ∃ hop ∈ way, hop.dimension = name

theorem reaches_expand (catalog : Catalog) (dimension : String) (node : Node)
    (reaches : Reaches catalog start node.name path) (columns : List NodeColumn)
    {frontier : Frontier}
    (ways : ∀ entry ∈ frontier.queue, Reaches catalog start entry.1.name entry.2) :
    (expand catalog dimension node path columns frontier).elim
      (fun way => Route catalog start way ∧ ∃ hop ∈ way, hop.dimension = dimension)
      (fun next => ∀ entry ∈ next.queue, Reaches catalog start entry.1.name entry.2) := by
  induction columns generalizing frontier with
  | nil => exact ways
  | cons column columns ih =>
      rw [expand]
      split
      next => exact ih ways
      next target found =>
        obtain ⟨name, _, unseen⟩ := Option.bind_eq_some_iff.1 found
        have member : target ∈ catalog.nodes := by
          split at unseen
          · cases unseen
          · exact List.mem_of_find?_eq_some unseen
        have route : Route catalog start (path ++
            [{ source := node.name, column := column.name, dimension := target.name
               dimensionColumn := column.joinColumn }]) := by
          refine ⟨reaches.linked.concat reaches.arrives, fun hop onWay => ?_⟩
          rcases List.mem_append.1 onWay with before | last
          · exact reaches.known hop before
          · cases List.mem_singleton.1 last
            exact ⟨target, member, rfl⟩
        dsimp only
        split
        next found => exact ⟨route, _, List.mem_append_right _ List.mem_cons_self, found⟩
        next =>
          apply ih
          intro entry member
          rcases List.mem_append.1 member with before | last
          · exact ways entry before
          · cases List.mem_singleton.1 last
            exact ⟨route, .inr ⟨_, List.mem_append_right _ List.mem_cons_self, rfl⟩⟩

theorem route_searchPath {fuel : Nat} {frontier : Frontier}
    (ways : ∀ entry ∈ frontier.queue, Reaches catalog start entry.1.name entry.2)
    (found : searchPath catalog dimension fuel frontier = some path) :
    Route catalog start path ∧ ∃ hop ∈ path, hop.dimension = dimension := by
  induction fuel generalizing frontier with
  | zero => cases found
  | succ fuel ih =>
      rw [searchPath] at found
      split at found
      next => cases found
      next node way queue entries =>
        rw [entries, List.forall_mem_cons] at ways
        have others : ∀ entry ∈ ({ frontier with queue } : Frontier).queue,
            Reaches catalog start entry.1.name entry.2 := ways.2
        have next := reaches_expand catalog dimension node ways.1 node.columns others
        split at found
        next ending step =>
          rw [step] at next
          cases found
          exact next
        next after step =>
          rw [step] at next
          exact ih next found

/-- A path is a route from the nodes to start from, and it leads to the dimension. -/
theorem route_dimensionPath {nodes : List Node}
    (found : catalog.dimensionPath nodes dimension = some path) :
    Route catalog (nodes.map Node.name) path ∧ ∃ hop ∈ path, hop.dimension = dimension := by
  apply route_searchPath _ found
  intro entry member
  obtain ⟨node, there, rfl⟩ := List.mem_map.1 member
  exact ⟨⟨trivial, nofun⟩, .inl (List.mem_map_of_mem there)⟩

end SemanticLayer.Catalog
