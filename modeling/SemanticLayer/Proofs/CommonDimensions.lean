import Mathlib.Data.List.Sort
import SemanticLayer.Proofs.Naming
import SemanticLayer.Proofs.Reachability

/-!
# Nodes with dimensions in common

A node can be grouped by a dimension other than itself if one of its columns goes by that name, or
belongs to a node of that name. The nodes that can be grouped by every one of some dimensions are
sorted by name. They depend on which dimensions are asked for, and not on their order, and a further
dimension can only take nodes away.
-/

namespace SemanticLayer.Catalog

variable {catalog : Catalog} {node : Node} {dimension : String} {names : List String}

/-- Whether no column of a catalog has a dot in its name. -/
def UndottedColumns (catalog : Catalog) : Prop :=
  ∀ node ∈ catalog.nodes, ∀ column ∈ node.columns, '.' ∉ column.name.toList

/-- Whether a dimension is the full name of a column among the given ones, or that of the node that
such a column belongs to. -/
def Names (catalog : Catalog) (names : List String) (dimension : String) : Prop :=
  dimension ∈ names ∨
    ∃ owner ∈ catalog.nodes, owner.name = dimension ∧
      ∃ column ∈ owner.columns, Text.dotted [owner.name, column.name] ∈ names

/-- Whether a node can be grouped by a dimension that is not the node itself: by a column of that
full name, or by a column of a node of that name. -/
def GroupsBy (catalog : Catalog) (node : Node) (dimension : String) : Prop :=
  dimension ≠ node.name ∧
    ∃ names, catalog.dimensions node = .ok names ∧ catalog.Names names dimension

/-! ## One node and one dimension -/

/-- The dimensions of a node are full names of columns of the catalog. -/
theorem Accepted.exists_dimensions (accepted : catalog.Accepted) (member : node ∈ catalog.nodes) :
    ∃ names, catalog.dimensions node = .ok names ∧
      ∀ name ∈ names, ∃ owner ∈ catalog.nodes, ∃ column ∈ owner.columns,
        Text.dotted [owner.name, column.name] = name := by
  have inside := roots_subset member
  obtain ⟨found, done, reached⟩ := accepted.reachable inside
  refine ⟨_, Result.bind_of_ok done _, fun name among => ?_⟩
  obtain ⟨owner, there, shown⟩ := List.mem_flatMap.1 (mem_sortedSet.1 among)
  obtain ⟨column, isColumn, same⟩ := List.mem_map.1 shown
  exact ⟨owner, ((reached owner).1 there).mem inside, column, isColumn, same⟩

theorem namesDimension_iff {owner column : String} (undotted : '.' ∉ column.toList) :
    namesDimension dimension (Text.dotted [owner, column]) = true ↔
      Text.dotted [owner, column] = dimension ∨ owner = dimension := by
  simp [namesDimension, Text.splitLastDot?_dotted undotted]

/-- A dimension is named by one of some columns if it is its full name or that of its node. -/
theorem any_namesDimension_iff (undotted : catalog.UndottedColumns)
    (columns : ∀ name ∈ names, ∃ owner ∈ catalog.nodes, ∃ column ∈ owner.columns,
      Text.dotted [owner.name, column.name] = name) :
    names.any (namesDimension dimension) = true ↔ catalog.Names names dimension := by
  rw [List.any_eq_true]
  constructor
  · rintro ⟨name, among, named⟩
    obtain ⟨owner, known, column, isColumn, rfl⟩ := columns name among
    rcases (namesDimension_iff (undotted owner known column isColumn)).1 named with same | same
    · exact .inl (same ▸ among)
    · exact .inr ⟨owner, known, same, column, isColumn, among⟩
  · rintro (among | ⟨owner, known, same, column, isColumn, among⟩)
    · exact ⟨dimension, among, by simp [namesDimension]⟩
    · exact ⟨_, among, (namesDimension_iff (undotted owner known column isColumn)).2 (.inr same)⟩

/-! ## Nodes with a dimension -/

/-- What is kept of items if every test of them succeeds. -/
theorem filterM_eq {α : Type} {items : List α} {test : α → Result Bool} {kept : α → Bool}
    (tests : ∀ item ∈ items, test item = .ok (kept item)) :
    items.filterM test = .ok (items.filter kept) := by
  have general (before : List α) :
      List.filterAuxM test items before = .ok ((items.filter kept).reverse ++ before) := by
    induction items generalizing before with
    | nil => rfl
    | cons item rest ih =>
        obtain ⟨here, later⟩ := List.forall_mem_cons.1 tests
        rw [List.filterAuxM, Result.bind_of_ok here, ih later, List.filter_cons]
        cases kept item <;> simp
  rw [List.filterM, Result.bind_of_ok (general [])]
  simp [pure, Except.pure]

/-- Some nodes of a catalog in the order of their names: those that can be grouped by every one of
some dimensions. -/
structure Shares (catalog : Catalog) (dimensions : List String) (found : List Node) : Prop where
  sorted : found.Pairwise fun node other => node.name < other.name
  mem_iff : ∀ node, node ∈ found ↔
    node ∈ catalog.nodes ∧ ∀ dimension ∈ dimensions, catalog.GroupsBy node dimension

open Classical in
/-- Every node of an accepted catalog can be tested for a dimension. -/
theorem Accepted.test_dimension (accepted : catalog.Accepted)
    (undotted : catalog.UndottedColumns) (member : node ∈ catalog.nodes) (dimension : String) :
    (if node.name == dimension then pure false
      else do
        let names ← catalog.dimensions node
        pure (names.any (namesDimension dimension)) : Result Bool) =
      .ok (decide (catalog.GroupsBy node dimension)) := by
  by_cases itself : node.name = dimension
  · have apart : ¬ catalog.GroupsBy node dimension := fun groups => groups.1 itself.symm
    simp [itself, apart, pure, Except.pure]
  · obtain ⟨names, done, columns⟩ := accepted.exists_dimensions member
    have groups : catalog.GroupsBy node dimension ↔
        names.any (namesDimension dimension) = true := by
      rw [any_namesDimension_iff undotted columns]
      simp [GroupsBy, done, Ne.symm itself]
    rw [if_neg (by simpa using itself), Result.bind_of_ok done]
    exact congrArg Except.ok (Bool.eq_iff_iff.2 (groups.symm.trans decide_eq_true_iff.symm))

/-- Nodes of different names stand in the order of their names once they are sorted. -/
theorem pairwise_mergeSort_name {nodes : List Node} (names : (nodes.map Node.name).Nodup) :
    (nodes.mergeSort fun node other => node.name ≤ other.name).Pairwise
      fun node other => node.name < other.name := by
  have ordered : (nodes.mergeSort fun node other => node.name ≤ other.name).Pairwise
      fun node other => decide (node.name ≤ other.name) = true :=
    List.pairwise_mergeSort (fun _ _ _ => by simpa using le_trans)
      (fun _ _ => by simpa using le_total _ _) nodes
  have different := ((List.mergeSort_perm nodes fun node other => node.name ≤ other.name).map
    Node.name).nodup_iff.2 names
  refine (ordered.and (List.pairwise_map.1 different)).imp fun both => ?_
  exact lt_of_le_of_ne (by simpa using both.1) both.2

open Classical in
/-- The nodes that can be grouped by a dimension are found, in the order of their names. -/
theorem Accepted.exists_nodesWithDimension (accepted : catalog.Accepted)
    (undotted : catalog.UndottedColumns) (dimension : String) :
    ∃ found, catalog.nodesWithDimension dimension = .ok found ∧
      catalog.Shares [dimension] found := by
  have found := filterM_eq fun node member => accepted.test_dimension undotted member dimension
  refine ⟨_, Result.bind_of_ok found _, ⟨pairwise_mergeSort_name ?_, fun node => ?_⟩⟩
  · exact accepted.names.sublist (List.filter_sublist.map Node.name)
  · simp [List.mem_mergeSort]

/-! ## Several dimensions -/

/-- Of the nodes that share some dimensions, those that also share further ones are told by their
names. -/
theorem Shares.append (accepted : catalog.Accepted) {dimensions further : List String}
    {common nodes : List Node} (shared : catalog.Shares dimensions common)
    (also : catalog.Shares further nodes) :
    catalog.Shares (dimensions ++ further)
      (common.filter fun node => nodes.any fun other => other.name == node.name) := by
  refine ⟨shared.sorted.sublist List.filter_sublist, fun node => ?_⟩
  have named : node ∈ catalog.nodes → ((nodes.any fun other => other.name == node.name) = true ↔
      node ∈ nodes) := by
    intro member
    simp only [List.any_eq_true, beq_iff_eq]
    constructor
    · rintro ⟨other, among, same⟩
      exact accepted.eq_of_name ((also.mem_iff other).1 among).1 member same ▸ among
    · exact fun among => ⟨node, among, rfl⟩
  rw [List.mem_filter, shared.mem_iff, List.forall_mem_append, and_assoc]
  refine and_congr_right fun member => and_congr_right fun _ => ?_
  rw [named member, also.mem_iff, and_iff_right member]

/-- A run over further dimensions keeps what shares them all. -/
theorem Accepted.exists_foldlM (accepted : catalog.Accepted) (undotted : catalog.UndottedColumns)
    {dimensions : List String} {common : List Node}
    (shared : catalog.Shares dimensions common) (rest : List String) :
    ∃ found, (rest.foldlM (fun common dimension => do
        let nodes ← catalog.nodesWithDimension dimension
        pure (common.filter fun node => nodes.any fun other => other.name == node.name))
        common : Result (List Node)) = .ok found ∧
      catalog.Shares (dimensions ++ rest) found := by
  induction rest generalizing dimensions common with
  | nil => exact ⟨common, rfl, by simpa using shared⟩
  | cons dimension rest ih =>
      obtain ⟨nodes, found, also⟩ := accepted.exists_nodesWithDimension undotted dimension
      obtain ⟨kept, done, shares⟩ := ih (shared.append accepted also)
      refine ⟨kept, ?_, by simpa using shares⟩
      rw [List.foldlM_cons, Result.bind_of_ok found]
      exact done

/-- The nodes that share some dimensions, of which there is one at least, are found. -/
theorem Accepted.exists_nodesWithCommonDimensions (accepted : catalog.Accepted)
    (undotted : catalog.UndottedColumns) {dimensions : List String} (nonempty : dimensions ≠ []) :
    ∃ found, catalog.nodesWithCommonDimensions dimensions = .ok found ∧
      catalog.Shares dimensions found := by
  cases dimensions with
  | nil => exact absurd rfl nonempty
  | cons first rest =>
      obtain ⟨start, found, shared⟩ := accepted.exists_nodesWithDimension undotted first
      obtain ⟨kept, done, shares⟩ := accepted.exists_foldlM undotted shared rest
      exact ⟨kept, (Result.bind_of_ok found _).trans done, shares⟩

/-- With more dimensions, fewer nodes are left, in the same order. -/
theorem Shares.sublist {dimensions more : List String} {found left : List Node}
    (shared : catalog.Shares dimensions found) (also : catalog.Shares more left)
    (within : dimensions ⊆ more) : left.Sublist found := by
  have antisymm : Std.Antisymm fun node other : Node => node.name < other.name :=
    ⟨fun _ _ first second => absurd second first.not_gt⟩
  have once : left.Nodup := also.sorted.imp fun less same => (same ▸ less).false
  refine List.sublist_of_subperm_of_pairwise (List.subperm_of_subset once fun node among => ?_)
    also.sorted shared.sorted
  have ⟨member, groups⟩ := (also.mem_iff node).1 among
  exact (shared.mem_iff node).2 ⟨member, fun dimension asked => groups dimension (within asked)⟩

/-- For an accepted catalog without dots in its column names and some dimensions, one at least, the
nodes that share them are found. They stand in the order of their names, without repetition, and
they are the nodes that can be grouped by each dimension: by a column of that full name, or by one
of another node of that name. The order of the dimensions and their repetitions do not count, and
further dimensions only take nodes away. -/
theorem nodes_in_common_share_every_dimension {databases : List Database} {nodes : List Node}
    (built : build databases nodes = .ok catalog) (undotted : catalog.UndottedColumns)
    {dimensions : List String} (nonempty : dimensions ≠ []) :
    ∃ found, catalog.nodesWithCommonDimensions dimensions = .ok found ∧
      (found.Pairwise fun node other => node.name < other.name) ∧
      (∀ node, node ∈ found ↔
        node ∈ catalog.nodes ∧ ∀ dimension ∈ dimensions, catalog.GroupsBy node dimension) ∧
      (∀ others : List String, (∀ dimension, dimension ∈ others ↔ dimension ∈ dimensions) →
        catalog.nodesWithCommonDimensions others = .ok found) ∧
      ∀ more : List String, dimensions ⊆ more →
        ∃ left, catalog.nodesWithCommonDimensions more = .ok left ∧ left.Sublist found := by
  have accepted := accepted_of_build built
  obtain ⟨found, done, shared⟩ := accepted.exists_nodesWithCommonDimensions undotted nonempty
  have further {more : List String} (within : dimensions ⊆ more) :
      ∃ left, catalog.nodesWithCommonDimensions more = .ok left ∧ catalog.Shares more left :=
    accepted.exists_nodesWithCommonDimensions undotted
      fun empty => nonempty (List.subset_nil.1 (empty ▸ within))
  refine ⟨found, done, shared.sorted, shared.mem_iff, fun others same => ?_,
    fun more within => ?_⟩
  · obtain ⟨left, other, also⟩ := further fun dimension asked => (same dimension).2 asked
    have fewer := shared.sublist also fun dimension asked => (same dimension).2 asked
    have more := also.sublist shared fun dimension asked => (same dimension).1 asked
    rw [other, fewer.antisymm more]
  · obtain ⟨left, done, also⟩ := further within
    exact ⟨left, done, shared.sublist also within⟩

/-- Revenue can be grouped both by regions and by the ids of customers, however they are listed.
Regions cannot, though their managers are customers: a node is not one of its own groups. -/
theorem nodes_in_common_share_every_dimension_managedRegions :
    ∃ found, managedRegions.nodesWithCommonDimensions ["regions", "customers.id"] = .ok found ∧
      managedRegions.nodes[3] ∈ found ∧ managedRegions.nodes[2] ∉ found ∧
      managedRegions.nodesWithCommonDimensions ["customers.id", "regions", "regions"] =
        .ok found := by
  have built : build managedRegions.databases managedRegions.nodes = .ok managedRegions := by
    decide +kernel
  have undotted : managedRegions.UndottedColumns := by unfold UndottedColumns; decide +kernel
  have names : (managedRegions.dimensions managedRegions.nodes[3]).toOption = some
      ["customers.id", "customers.region", "orders.customer", "regions.id", "regions.manager"] := by
    decide +kernel
  obtain ⟨found, done, -, groups, same, -⟩ := nodes_in_common_share_every_dimension built undotted
    (List.cons_ne_nil "regions" ["customers.id"])
  have region : managedRegions.GroupsBy managedRegions.nodes[3] "regions" :=
    ⟨by decide, _, Result.eq_ok_of_toOption names,
      .inr ⟨managedRegions.nodes[2], by decide, rfl, { name := "id" }, by decide, by decide⟩⟩
  have customer : managedRegions.GroupsBy managedRegions.nodes[3] "customers.id" :=
    ⟨by decide, _, Result.eq_ok_of_toOption names, .inl (by decide)⟩
  refine ⟨found, done, (groups _).2 ⟨by decide, by simp [region, customer]⟩, fun among => ?_,
    same _ (by simp [or_comm])⟩
  exact (((groups _).1 among).2 "regions" List.mem_cons_self).1 rfl

end SemanticLayer.Catalog
