import SemanticLayer.Proofs.Acceptance
import SemanticLayer.Proofs.Charges
import SemanticLayer.Proofs.Requests
import SemanticLayer.Proofs.Trimming

/-!
# Parents that are declared again

A node may declare a parent more than once. What is found by the name of a parent, by following
links or by leaving out databases is the same where each parent is declared once. Only a column
without a qualifier tells the difference: its owner is found by counting the parents that have it.
-/

namespace SemanticLayer

namespace Catalog

/-! ## Parents once -/

/-- The node, with each parent declared once if it is the one of a name. -/
def Node.unrepeated (name : String) (node : Node) : Node :=
  { node with parents := if node.name = name then node.parents.eraseDups else node.parents }

/-- The catalog in which the node of a name declares each parent once. -/
def unrepeated (name : String) (catalog : Catalog) : Catalog :=
  { catalog with nodes := catalog.nodes.map (Node.unrepeated name) }

variable {catalog : Catalog} {name column : String} {node : Node} {nodes others : List Node}
  {references : References}

namespace Node

variable (name : String) (node : Node)

@[simp] theorem name_unrepeated : (node.unrepeated name).name = node.name := rfl

@[simp] theorem isMetric_unrepeated : (node.unrepeated name).isMetric = node.isMetric := rfl

@[simp] theorem expression_unrepeated : (node.unrepeated name).expression = node.expression := rfl

end Node

theorem trimmed_parents (name : String) (node : Node) :
    Trimmed [] node.parents (node.unrepeated name).parents := by
  rw [Node.unrepeated]
  dsimp only
  split
  · exact trimmed_eraseDups node.parents
  · exact .refl [] node.parents

theorem map_name_unrepeated (nodes : List Node) :
    (nodes.map (Node.unrepeated name)).map Node.name = nodes.map Node.name := by
  rw [List.map_map]
  rfl

theorem node?_unrepeated (other : String) :
    (catalog.unrepeated name).node? other = (catalog.node? other).map (Node.unrepeated name) :=
  List.find?_map

theorem contains_unrepeated (other : String) :
    (catalog.unrepeated name).contains other = catalog.contains other := by
  rw [contains, contains, node?_unrepeated, Option.isSome_map]

theorem node_unrepeated (other : String) :
    (catalog.unrepeated name).node other = (catalog.node other).map (Node.unrepeated name) := by
  rw [Catalog.node, Catalog.node, node?_unrepeated]
  cases catalog.node? other <;> rfl

theorem node_unrepeated_of_ok {other : String} (found : catalog.node other = .ok node) :
    (catalog.unrepeated name).node other = .ok (node.unrepeated name) := by
  rw [node_unrepeated, found]
  rfl

theorem node_unrepeated_of_error {other : String} {failure : Error}
    (failed : catalog.node other = .error failure) :
    (catalog.unrepeated name).node other = .error failure := by
  rw [node_unrepeated, failed]
  rfl

theorem parents_unrepeated (node : Node) :
    (catalog.unrepeated name).parents node = (catalog.parents node).map (Node.unrepeated name) := by
  rw [parents, parents, List.map_filterMap]
  exact List.filterMap_congr fun other _ => node?_unrepeated other

theorem isParent_unrepeated :
    IsParent (nodes.map (Node.unrepeated name)) = IsParent nodes := by
  funext parent child
  simp only [IsParent, List.mem_map, exists_exists_and_eq_and, ← (trimmed_parents name _).mem_iff]
  rfl

/-- Which catalogs are accepted does not depend on how often a parent is declared. -/
theorem Accepted.unrepeated (accepted : catalog.Accepted) (name : String) :
    (catalog.unrepeated name).Accepted := by
  obtain ⟨databases, nodes⟩ := catalog
  have formed := accepted_iff.1 accepted
  refine accepted_iff.2 ⟨formed.ids, ?_, ?_, ?_, ?_, ?_⟩
  · rw [map_name_unrepeated]
    exact formed.names
  · simp only [List.forall_mem_map, map_name_unrepeated, ← (trimmed_parents name _).mem_iff]
    exact formed.parents
  · simp only [List.forall_mem_map, map_name_unrepeated]
    exact formed.dimensions
  · simp only [List.forall_mem_map]
    exact formed.tables
  · rw [isParent_unrepeated]
    exact formed.acyclic

/-- Some nodes, and the same ones with each parent declared once, some of them left out where they
are repeated. -/
def Thinned (name : String) (nodes others : List Node) : Prop :=
  ∃ kept, Trimmed [] nodes kept ∧ others = kept.map (Node.unrepeated name)

theorem thinned_map (nodes : List Node) : Thinned name nodes (nodes.map (Node.unrepeated name)) :=
  ⟨nodes, .refl [] nodes, rfl⟩

theorem thinned_parents (catalog : Catalog) (node : Node) :
    Thinned name (catalog.parents node)
      ((catalog.unrepeated name).parents (node.unrepeated name)) :=
  ⟨_, (trimmed_parents name node).filterMap catalog.node?, parents_unrepeated _⟩

/-- The nodes that links are followed from for a node. -/
theorem thinned_roots (catalog : Catalog) (node : Node) :
    Thinned name (catalog.roots node) ((catalog.unrepeated name).roots (node.unrepeated name)) := by
  have empty : (node.unrepeated name).parents.isEmpty = node.parents.isEmpty := by
    rw [Bool.eq_iff_iff, List.isEmpty_iff, List.isEmpty_iff, List.eq_nil_iff_forall_not_mem,
      List.eq_nil_iff_forall_not_mem]
    simp only [(trimmed_parents name node).mem_iff]
  rw [roots, roots, empty]
  split
  · exact thinned_map [node]
  · exact thinned_parents catalog node

namespace Thinned

theorem mem_iff (thinned : Thinned name nodes others) {other : Node} :
    other ∈ others ↔ ∃ node ∈ nodes, node.unrepeated name = other := by
  obtain ⟨kept, trimmed, rfl⟩ := thinned
  simp only [List.mem_map, trimmed.mem_iff]

theorem find?_eq (thinned : Thinned name nodes others) (called : String) :
    (others.find? fun node => node.name == called) =
      (nodes.find? fun node => node.name == called).map (Node.unrepeated name) := by
  obtain ⟨kept, trimmed, rfl⟩ := thinned
  rw [trimmed.find?_eq nofun, List.find?_map]
  rfl

theorem any_eq (thinned : Thinned name nodes others) (called : String) :
    (others.any fun node => node.name == called) = nodes.any fun node => node.name == called := by
  rw [Bool.eq_iff_iff, List.any_eq_true, List.any_eq_true, ← List.find?_isSome,
    ← List.find?_isSome, thinned.find?_eq, Option.isSome_map]

theorem concat (thinned : Thinned name nodes others) (node : Node) :
    Thinned name (nodes ++ [node]) (others ++ [node.unrepeated name]) := by
  obtain ⟨kept, trimmed, rfl⟩ := thinned
  exact ⟨kept ++ [node], trimmed.append [node], by rw [List.map_append, List.map_singleton]⟩

end Thinned

/-! ## Columns -/

/-- The expression of a node writes a column without a qualifier, and a parent has it that the node
declares more than once. -/
structure CountedAgain (catalog : Catalog) (node : Node) (column : String) : Prop where
  bare : ∃ text ∈ node.expression, WritesBare text column
  owner : ∃ parent ∈ catalog.nodes, parent.hasColumn column = true ∧
    1 < node.parents.count parent.name

/-- Every parent is counted once for the columns that the expressions of nodes of a name write
without a qualifier. -/
def CountedOnce (catalog : Catalog) (name : String) : Prop :=
  ∀ node ∈ catalog.nodes, node.name = name → ∀ column, ¬ catalog.CountedAgain node column

/-- The nodes that have a column, where none of them is repeated. -/
theorem filter_parents_unrepeated
    (rare : ∀ parent ∈ catalog.nodes, parent.hasColumn column = true →
      node.parents.count parent.name ≤ 1) :
    (((catalog.unrepeated name).parents (node.unrepeated name)).filter
        fun parent => parent.hasColumn column) =
      ((catalog.parents node).filter fun parent => parent.hasColumn column).map
        (Node.unrepeated name) := by
  rw [parents_unrepeated, List.filter_map]
  refine congrArg (List.map (Node.unrepeated name)) ?_
  show (catalog.parents (node.unrepeated name)).filter (fun parent => parent.hasColumn column) = _
  rw [parents, parents, List.filter_filterMap, List.filter_filterMap]
  refine ((trimmed_parents name node).filterMap_eq fun other some => ?_).symm
  obtain ⟨parent, found⟩ := Option.isSome_iff_exists.1 some
  obtain ⟨known, has⟩ := Option.filter_eq_some_iff.1 found
  obtain ⟨member, rfl⟩ := mem_of_node? known
  exact rare parent member has

theorem Node.unrepeated_of_ne (differs : node.name ≠ name) : node.unrepeated name = node := by
  rw [Node.unrepeated, if_neg differs]

/-- The parents that have a column which is written bare are the same ones, as often. -/
theorem CountedOnce.filter_parents (once : catalog.CountedOnce name) (member : node ∈ catalog.nodes)
    (bare : ∃ text ∈ node.expression, WritesBare text column) :
    (((catalog.unrepeated name).parents (node.unrepeated name)).filter
        fun parent => parent.hasColumn column) =
      ((catalog.parents node).filter fun parent => parent.hasColumn column).map
        (Node.unrepeated name) := by
  by_cases same : node.name = name
  · refine filter_parents_unrepeated fun parent known has => ?_
    by_contra repeated
    exact once node member same column ⟨bare, parent, known, has, Nat.lt_of_not_le repeated⟩
  · rw [Node.unrepeated_of_ne same, parents_unrepeated, List.filter_map]
    rfl

theorem Thinned.addQualified_eq (thinned : Thinned name nodes others) (names : RelationNames) :
    addQualified names others = addQualified names nodes := by
  funext references parts
  simp only [addQualified, thinned.any_eq]

theorem addBare_eq
    (same : (others.filter fun parent => parent.hasColumn column) =
      (nodes.filter fun parent => parent.hasColumn column).map (Node.unrepeated name))
    (references : References) :
    addBare others references column = addBare nodes references column := by
  rw [addBare, addBare, same]
  generalize (nodes.filter fun parent => parent.hasColumn column) = owners
  rcases owners with _ | ⟨owner, _ | ⟨other, rest⟩⟩ <;> rfl

/-- A column that a repeated parent has belongs to two of the parents. -/
theorem Accepted.addBare_of_countedAgain (accepted : catalog.Accepted)
    (again : catalog.CountedAgain node column) (references : References) :
    addBare (catalog.parents node) references column = .error (.ambiguousColumn column) := by
  obtain ⟨-, parent, member, has, twice⟩ := again
  have declared := List.replicate_sublist_iff.2 twice
  have owners := (declared.filterMap catalog.node?).filter fun parent => parent.hasColumn column
  simp only [List.replicate_succ, List.replicate_zero, List.filterMap_cons,
    accepted.node?_name member, List.filterMap_nil, List.filter_cons, has, if_true,
    List.filter_nil] at owners
  rw [addBare]
  change [parent, parent].Sublist
    ((catalog.parents node).filter fun parent => parent.hasColumn column) at owners
  generalize ((catalog.parents node).filter fun parent => parent.hasColumn column) = found at owners ⊢
  have two := owners.length_le
  rcases found with _ | ⟨first, _ | ⟨second, rest⟩⟩
  · cases two
  · exact absurd two (by simp)
  · rfl

/-- The columns of a document are taken from the same of some nodes, or one that it writes bare is
refused. -/
theorem Thinned.documentReferences_cases (thinned : Thinned name nodes others) {document : Document}
    (refused : String → Prop)
    (each : ∀ column ∈ bareNames document,
      (∀ references, addBare others references column = addBare nodes references column) ∨
        refused column ∧
          ∀ references, addBare nodes references column = .error (.ambiguousColumn column)) :
    documentReferences document others = documentReferences document nodes ∨
      ∃ column, refused column ∧
        documentReferences document nodes = .error (.ambiguousColumn column) := by
  have bare (start : References) :
      (bareNames document).foldlM (addBare others) start =
          (bareNames document).foldlM (addBare nodes) start ∨
        ∃ column, refused column ∧
          (bareNames document).foldlM (addBare nodes) start = .error (.ambiguousColumn column) := by
    generalize bareNames document = columns at each ⊢
    induction columns generalizing start with
    | nil => exact .inl rfl
    | cons column columns ih =>
        rw [List.forall_mem_cons] at each
        rw [List.foldlM_cons, List.foldlM_cons]
        rcases each.1 with same | ⟨known, ambiguous⟩
        · rw [same]
          cases addBare nodes start column with
          | error failure => exact .inl rfl
          | ok next => exact ih next each.2
        · rw [ambiguous]
          exact .inr ⟨column, known, rfl⟩
  rw [documentReferences, documentReferences, thinned.addQualified_eq]
  dsimp only
  generalize List.foldlM (addQualified _ nodes) [] _ = qualified
  cases qualified with
  | error failure => exact .inl rfl
  | ok qualified => exact bare qualified

theorem nodeReferences_cases (catalog : Catalog) (node : Node) (refused : String → Prop)
    (each : ∀ column, (∃ text ∈ node.expression, WritesBare text column) →
      (((catalog.unrepeated name).parents (node.unrepeated name)).filter
          fun parent => parent.hasColumn column) =
        ((catalog.parents node).filter fun parent => parent.hasColumn column).map
          (Node.unrepeated name) ∨
      refused column ∧ ∀ references,
        addBare (catalog.parents node) references column = .error (.ambiguousColumn column)) :
    (catalog.unrepeated name).nodeReferences (node.unrepeated name) = catalog.nodeReferences node ∨
      ∃ column, refused column ∧
        catalog.nodeReferences node = .error (.ambiguousColumn column) := by
  rw [nodeReferences, nodeReferences, Node.expression_unrepeated]
  cases written : node.expression with
  | none => exact .inl rfl
  | some text =>
      dsimp only [textReferences]
      cases parsed : Sql.statementsOf text none with
      | error failure => exact .inl rfl
      | ok statements =>
          refine (thinned_parents catalog node).documentReferences_cases refused fun column bare => ?_
          exact (each column ⟨text, written, statements, parsed, bare⟩).imp_left addBare_eq

namespace CountedOnce

/-- Where every parent is counted once, the columns that a node takes from its parents are the
same. -/
theorem nodeReferences_eq (once : catalog.CountedOnce name) (member : node ∈ catalog.nodes) :
    (catalog.unrepeated name).nodeReferences (node.unrepeated name) =
      catalog.nodeReferences node := by
  rcases nodeReferences_cases catalog node (fun _ => False) fun column bare =>
    .inl (once.filter_parents member bare) with same | ⟨_, never, _⟩
  · exact same
  · exact never.elim

end CountedOnce

/-- The columns that a node takes from its parents are the same, or one of them is ambiguous since a
parent is declared again. -/
theorem Accepted.nodeReferences_cases (accepted : catalog.Accepted) (name : String) (node : Node) :
    (catalog.unrepeated name).nodeReferences (node.unrepeated name) = catalog.nodeReferences node ∨
      ∃ column, catalog.CountedAgain node column ∧
        catalog.nodeReferences node = .error (.ambiguousColumn column) := by
  refine Catalog.nodeReferences_cases catalog node (catalog.CountedAgain node) fun column bare => ?_
  by_cases again : catalog.CountedAgain node column
  · exact .inr ⟨again, accepted.addBare_of_countedAgain again⟩
  · refine .inl (filter_parents_unrepeated fun parent known has => ?_)
    by_contra repeated
    exact again ⟨bare, parent, known, has, Nat.lt_of_not_le repeated⟩

/-- A column that a repeated parent has keeps the columns of its node from being found. -/
theorem Accepted.nodeReferences_ne_ok (accepted : catalog.Accepted)
    (again : catalog.CountedAgain node column) (references : References) :
    catalog.nodeReferences node ≠ .ok references := by
  intro found
  obtain ⟨text, written, statements, parsed, bare⟩ := again.bare
  rw [nodeReferences, Option.mem_def.1 written] at found
  obtain ⟨_, known, done⟩ := Result.bind_eq_ok.1 found
  cases parsed.symm.trans known
  obtain ⟨_, _, later⟩ := Result.bind_eq_ok.1 done
  obtain ⟨before, after, step⟩ := Result.exists_step_of_foldlM later bare
  rw [accepted.addBare_of_countedAgain again] at step
  cases step

/-! ## Databases -/

namespace CountedOnce

theorem computableWithin_eq (once : catalog.CountedOnce name) (fuel : Nat)
    (member : node ∈ catalog.nodes) (columns : List String) :
    computableWithin (catalog.unrepeated name) fuel (node.unrepeated name) columns =
      computableWithin catalog fuel node columns := by
  induction fuel generalizing node columns with
  | zero => rfl
  | succ fuel ih =>
      rw [computableWithin, computableWithin, once.nodeReferences_eq member]
      obtain ⟨kept, trimmed, thinned⟩ :
          Thinned name (catalog.parents node)
            ((catalog.unrepeated name).parents (node.unrepeated name)) :=
        thinned_parents catalog node
      have inside : ∀ parent ∈ catalog.parents node, parent ∈ catalog.nodes :=
        fun parent isParent => (mem_of_mem_parents isParent).1
      rw [thinned]
      generalize catalog.parents node = parents at trimmed inside
      cases trimmed with
      | nil => rfl
      | drop again => cases again
      | @keep _ items kept first later =>
          rw [List.forall_mem_cons] at inside
          dsimp only [List.map_cons]
          refine congrArg (catalog.nodeReferences node >>= ·) (funext fun references => ?_)
          rw [ih inside.1]
          change (computableWithin catalog fuel first (references.of first.name) >>= _) = _
          cases computed : computableWithin catalog fuel first (references.of first.name) with
          | error failure => rfl
          | ok start =>
              have idle : ∀ parent ∈ [first], ∃ found,
                  computableWithin catalog fuel parent (references.of parent.name) = .ok found ∧
                    start.filter found.contains = start := by
                intro parent isFirst
                cases List.mem_singleton.1 isFirst
                exact ⟨start, computed, List.filter_eq_self.2 fun id there => by simpa using there⟩
              have narrowed := later.foldlM_filter idle
              rw [Result.bind_of_ok rfl, Result.bind_of_ok rfl, List.foldlM_map, narrowed]
              refine congrArg (· >>= _) (Result.foldlM_congr (fun parent member ids => ?_) start)
              rw [ih (inside.2 parent (later.sublist.subset member))]
              rfl

theorem computableIds_eq (once : catalog.CountedOnce name) (member : node ∈ catalog.nodes)
    (columns : List String) :
    (catalog.unrepeated name).computableIds (node.unrepeated name) columns =
      catalog.computableIds node columns := by
  rw [computableIds, computableIds, unrepeated, List.length_map]
  exact once.computableWithin_eq _ member columns

theorem candidates_eq (once : catalog.CountedOnce name) (thinned : Thinned name nodes others)
    (inside : nodes ⊆ catalog.nodes) (references : References) :
    (catalog.unrepeated name).candidates others references =
      catalog.candidates nodes references := by
  obtain ⟨kept, trimmed, rfl⟩ := thinned
  have idle : ∀ node ∈ [], ∃ ids : List Int,
      catalog.computableIds node (references.of node.name) = .ok ids ∧
        catalog.databases.filter (fun database => ids.contains database.id) =
          catalog.databases := nofun
  rw [candidates, candidates, trimmed.foldlM_filter idle, List.foldlM_map]
  refine Result.foldlM_congr (fun node member databases => ?_) catalog.databases
  rw [← once.computableIds_eq (inside (trimmed.sublist.subset member))]
  rfl

theorem databaseFor_eq (once : catalog.CountedOnce name) (thinned : Thinned name nodes others)
    (inside : nodes ⊆ catalog.nodes) (references : References) (requested : Option Int) :
    (catalog.unrepeated name).databaseFor others references requested =
      catalog.databaseFor nodes references requested := by
  rw [databaseFor, databaseFor, once.candidates_eq thinned inside]

end CountedOnce

/-! ## Dimensions -/

variable {roots : List Node} {target : Node}

theorem leads_unrepeated :
    (catalog.unrepeated name).Leads (node.unrepeated name) target ↔
      ∃ other, catalog.Leads node other ∧ other.unrepeated name = target := by
  simp only [Leads, node?_unrepeated, Option.map_eq_some_iff]
  exact ⟨fun ⟨link, links, other, known, same⟩ => ⟨other, ⟨link, links, known⟩, same⟩,
    fun ⟨other, ⟨link, links, known⟩, same⟩ => ⟨link, links, other, known, same⟩⟩

/-- Links lead to the same nodes. -/
theorem Thinned.reached_iff (thinned : Thinned name roots others) :
    (catalog.unrepeated name).Reached others target ↔
      ∃ node, catalog.Reached roots node ∧ node.unrepeated name = target := by
  constructor
  · intro reached
    induction reached with
    | root member =>
        obtain ⟨node, isRoot, same⟩ := thinned.mem_iff.1 member
        exact ⟨node, .root isRoot, same⟩
    | link _ leads ih =>
        obtain ⟨node, there, rfl⟩ := ih
        obtain ⟨next, leads, same⟩ := leads_unrepeated.1 leads
        exact ⟨next, there.link leads, same⟩
  · rintro ⟨node, reached, rfl⟩
    induction reached with
    | root isRoot => exact .root (thinned.mem_iff.2 ⟨_, isRoot, rfl⟩)
    | link _ leads ih => exact ih.link (leads_unrepeated.2 ⟨_, leads, rfl⟩)

theorem mem_nodes_unrepeated (member : node ∈ catalog.nodes) :
    node.unrepeated name ∈ (catalog.unrepeated name).nodes :=
  List.mem_map_of_mem member

/-- What a node can be grouped and filtered by does not depend on how often parents are
declared. -/
theorem Accepted.dimensions_eq (accepted : catalog.Accepted) (member : node ∈ catalog.nodes)
    (name : String) :
    (catalog.unrepeated name).dimensions (node.unrepeated name) = catalog.dimensions node := by
  have memberToo : node.unrepeated name ∈ (catalog.unrepeated name).nodes :=
    mem_nodes_unrepeated member
  obtain ⟨nodes, found, reached⟩ := accepted.reachable (roots_subset member)
  obtain ⟨others, foundToo, reachedToo⟩ := (accepted.unrepeated name).reachable (roots_subset memberToo)
  rw [dimensions, dimensions, Result.bind_of_ok found, Result.bind_of_ok foundToo]
  refine congrArg pure (sortedSet_congr fun text => ?_)
  simp only [List.mem_flatMap, reachedToo, reached, (thinned_roots catalog node).reached_iff]
  constructor
  · rintro ⟨_, ⟨node, there, rfl⟩, shown⟩
    exact ⟨node, there, shown⟩
  · rintro ⟨node, there, shown⟩
    exact ⟨_, ⟨node, there, rfl⟩, shown⟩

/-! ## Paths -/

variable {dimension : String} {path : List Hop} {columns : List NodeColumn}

/-- The entries of a queue, each parent of their nodes declared once. -/
def unrepeatedQueue (name : String) (queue : List (Node × List Hop)) : List (Node × List Hop) :=
  queue.map fun entry => (entry.1.unrepeated name, entry.2)

theorem unrepeatedQueue_cons (entry : Node × List Hop) (queue : List (Node × List Hop)) :
    unrepeatedQueue name (entry :: queue) =
      (entry.1.unrepeated name, entry.2) :: unrepeatedQueue name queue := rfl

theorem expand_unrepeated (seen : List String) (queue : List (Node × List Hop)) :
    expand (catalog.unrepeated name) dimension (node.unrepeated name) path columns
        { seen, queue := unrepeatedQueue name queue } =
      (expand catalog dimension node path columns { seen, queue }).map id fun next =>
        { next with queue := unrepeatedQueue name next.queue } := by
  induction columns generalizing seen queue with
  | nil => rfl
  | cons column columns ih =>
      have fresh : (catalog.unrepeated name).fresh? ⟨seen, unrepeatedQueue name queue⟩ column =
          (catalog.fresh? ⟨seen, queue⟩ column).map (Node.unrepeated name) := by
        rw [fresh?, fresh?, Option.map_bind]
        refine congrArg (Option.bind column.dimension) (funext fun link => ?_)
        dsimp only [Function.comp]
        rw [node?_unrepeated]
        split <;> rfl
      rw [expand_cons, expand_cons, fresh]
      cases catalog.fresh? ⟨seen, queue⟩ column with
      | none => exact ih seen queue
      | some target =>
          dsimp only [Option.map_some]
          rw [Node.name_unrepeated]
          by_cases arrives : target.name = dimension
          · rw [if_pos arrives, if_pos arrives]
            rfl
          · rw [if_neg arrives, if_neg arrives, ← ih]
            simp only [unrepeatedQueue, List.map_append, List.map_singleton]
            rfl

theorem searchPath_unrepeated (fuel : Nat) (seen : List String) (queue : List (Node × List Hop)) :
    searchPath (catalog.unrepeated name) dimension fuel
        { seen, queue := unrepeatedQueue name queue } =
      searchPath catalog dimension fuel { seen, queue } := by
  induction fuel generalizing seen queue with
  | zero => rfl
  | succ fuel ih =>
      rw [searchPath, searchPath]
      cases queue with
      | nil => rfl
      | cons entry queue =>
          have step : expand (catalog.unrepeated name) dimension (entry.1.unrepeated name) entry.2
                (entry.1.unrepeated name).columns { seen, queue := unrepeatedQueue name queue } =
              (expand catalog dimension entry.1 entry.2 entry.1.columns { seen, queue }).map id
                fun next => { next with queue := unrepeatedQueue name next.queue } :=
            expand_unrepeated seen queue
          rw [unrepeatedQueue_cons]
          dsimp only
          rw [step]
          cases expand catalog dimension entry.1 entry.2 entry.1.columns ⟨seen, queue⟩ with
          | inl way => rfl
          | inr next => exact ih next.seen next.queue

theorem Accepted.dimensionPath_eq (accepted : catalog.Accepted)
    (thinned : Thinned name nodes others) (inside : nodes ⊆ catalog.nodes) (dimension : String) :
    (catalog.unrepeated name).dimensionPath others dimension =
      catalog.dimensionPath nodes dimension := by
  obtain ⟨kept, trimmed, rfl⟩ := thinned
  have length : (catalog.unrepeated name).nodes.length = catalog.nodes.length := List.length_map _
  have queue : (kept.map (Node.unrepeated name)).map (fun node => (node, ([] : List Hop))) =
      unrepeatedQueue name (kept.map fun node => (node, [])) := by
    rw [unrepeatedQueue, List.map_map, List.map_map]
    rfl
  rw [accepted.dimensionPath_eq_of_trimmed inside trimmed, dimensionPath, dimensionPath,
    map_name_unrepeated, length, List.length_map, queue, searchPath_unrepeated]

end Catalog
end SemanticLayer
