import SemanticLayer.Proofs.Ancestry
import SemanticLayer.Proofs.Demands

/-!
# Two searches, one relation

The walk in depth that collects dimensions and the search in breadth that plans joins follow the
same links. Each of them ends with every node that links lead to, within the number of steps that it
is given, also where links lead in circles. So a node can be grouped by a column exactly if the node
of the column is one to start from or has a path that leads to it.
-/

namespace SemanticLayer.Catalog

variable {catalog : Catalog} {roots : List Node} {node target : Node}

/-- A column of the first node links to the second one. -/
def Leads (catalog : Catalog) (node target : Node) : Prop :=
  ∃ name ∈ node.links, catalog.node? name = some target

/-- What links lead to from some nodes, in any number of steps. -/
inductive Reached (catalog : Catalog) (roots : List Node) : Node → Prop
  | root {node : Node} (member : node ∈ roots) : Reached catalog roots node
  | link {node target : Node} (reached : Reached catalog roots node)
      (leads : catalog.Leads node target) : Reached catalog roots target

/-- Links lead from some nodes to one of a name. -/
def LeadsTo (catalog : Catalog) (roots : List Node) (name : String) : Prop :=
  ∃ target, catalog.Reached roots target ∧ target.name = name

theorem mem_links {name : String} :
    name ∈ node.links ↔ ∃ column ∈ node.columns, column.dimension = some name :=
  List.mem_filterMap

theorem Leads.of_column {column : NodeColumn} {name : String} (member : column ∈ node.columns)
    (links : column.dimension = some name) (found : catalog.node? name = some target) :
    catalog.Leads node target :=
  ⟨name, mem_links.2 ⟨column, member, links⟩, found⟩

theorem Leads.mem (leads : catalog.Leads node target) : target ∈ catalog.nodes := by
  obtain ⟨name, _, found⟩ := leads
  exact (mem_of_node? found).1

theorem Reached.mem (inside : roots ⊆ catalog.nodes) (reached : catalog.Reached roots node) :
    node ∈ catalog.nodes := by
  cases reached with
  | root member => exact inside member
  | link _ leads => exact leads.mem

/-- What holds of the nodes to start from, and passes along links, holds of all that is reached. -/
theorem Reached.of_closed (kept : Node → Prop) (start : ∀ node ∈ roots, kept node)
    (closed : ∀ node, kept node → ∀ target, catalog.Leads node target → kept target)
    (reached : catalog.Reached roots node) : kept node := by
  induction reached with
  | root member => exact start _ member
  | link _ leads ih => exact closed _ ih _ leads

theorem roots_subset (member : node ∈ catalog.nodes) : catalog.roots node ⊆ catalog.nodes := by
  intro other there
  rw [Catalog.roots] at there
  split at there
  · cases List.mem_singleton.1 there
    exact member
  · exact (mem_of_mem_parents there).1

namespace Accepted

/-- Nodes of one name are one node. -/
theorem eq_of_name (accepted : catalog.Accepted) (member : node ∈ catalog.nodes)
    (other : target ∈ catalog.nodes) (same : node.name = target.name) : node = target := by
  have first := accepted.node?_name member
  rw [same, accepted.node?_name other] at first
  exact (Option.some.inj first).symm

/-- A dimension that a column links to exists. -/
theorem exists_link (accepted : catalog.Accepted) (member : node ∈ catalog.nodes) {name : String}
    (links : name ∈ node.links) : ∃ target, catalog.node? name = some target := by
  obtain ⟨column, there, dimension⟩ := mem_links.1 links
  have none := accepted.references node member
  rw [unknownReference?] at none
  split at none
  · cases none
  · cases none
  · cases none
  next _ missing _ =>
    have known := List.findSome?_eq_none_iff.1 missing column there
    rw [dimension, Option.bind_some] at known
    split at known
    next found => exact Option.isSome_iff_exists.1 found
    next => cases known

/-- The dimensions that a node links to are looked up without failure. -/
theorem mapM_links (accepted : catalog.Accepted) (member : node ∈ catalog.nodes) :
    ∃ linked, node.links.mapM catalog.node = .ok linked ∧
      ∀ target, target ∈ linked ↔ catalog.Leads node target := by
  have general : ∀ names : List String, names ⊆ node.links →
      ∃ linked, names.mapM catalog.node = .ok linked ∧
        ∀ target, target ∈ linked ↔ ∃ name ∈ names, catalog.node? name = some target := by
    intro names inside
    induction names with
    | nil => exact ⟨[], rfl, by simp⟩
    | cons name rest ih =>
        obtain ⟨first, others⟩ := List.cons_subset.1 inside
        obtain ⟨target, found⟩ := accepted.exists_link member first
        obtain ⟨linked, done, members⟩ := ih others
        have here : catalog.node name = .ok target := by rw [Catalog.node, found]
        refine ⟨target :: linked, ?_, fun other => ?_⟩
        · rw [List.mapM_cons, Result.bind_of_ok here, Result.bind_of_ok done]
          rfl
        · rw [List.mem_cons, members, List.exists_mem_cons_iff, found, Option.some_inj,
            eq_comm]
  exact general node.links (List.Subset.refl _)

end Accepted

/-! ## The walk in depth -/

/-- The links of those of some nodes that were not found. -/
def linksAhead (found nodes : List Node) : Nat :=
  ((nodes.filter fun node => node ∉ found).flatMap Node.links).length

theorem linksAhead_nil : catalog.linkCount = linksAhead [] catalog.nodes := by
  simp [linkCount, linksAhead]

theorem linksAhead_cons_le_self (found : List Node) (node : Node) (nodes : List Node) :
    linksAhead (node :: found) nodes ≤ linksAhead found nodes := by
  induction nodes with
  | nil => exact Nat.le_refl _
  | cons other rest ih =>
      unfold linksAhead at ih ⊢
      simp only [List.filter_cons, List.mem_cons]
      by_cases same : other = node <;> by_cases known : other ∈ found <;> simp_all
      omega

/-- The links of a node that is found now are no longer ahead. -/
theorem linksAhead_cons_le {found nodes : List Node} (member : node ∈ nodes) (new : node ∉ found) :
    linksAhead (node :: found) nodes + node.links.length ≤ linksAhead found nodes := by
  induction nodes with
  | nil => cases member
  | cons other rest ih =>
      have less := linksAhead_cons_le_self found node rest
      rcases List.mem_cons.1 member with rfl | later
      · unfold linksAhead at less ⊢
        simp_all
        omega
      · have step := ih later
        unfold linksAhead at less step ⊢
        by_cases same : other = node <;> by_cases known : other ∈ found <;>
          simp_all <;> omega

/-- A state of the walk: what is on the stack or found is reached, and what links lead to from a
node that is found is on the stack or found. -/
structure Walked (catalog : Catalog) (roots stack found : List Node) : Prop where
  reached : ∀ node ∈ stack ++ found, catalog.Reached roots node
  closed : ∀ node ∈ found, ∀ target, catalog.Leads node target → target ∈ stack ++ found

variable {stack found : List Node}

/-- A node that was found before is taken off the stack. -/
theorem Walked.skip (walked : Walked catalog roots (node :: stack) found) (known : node ∈ found) :
    Walked catalog roots stack found := by
  refine ⟨fun other member => walked.reached other (List.mem_cons_of_mem node member), ?_⟩
  intro other there target leads
  rcases List.mem_cons.1 (walked.closed other there target leads) with rfl | later
  · exact List.mem_append_right _ known
  · exact later

/-- A node is found, and what its links lead to is put on the stack. -/
theorem Walked.visit (walked : Walked catalog roots (node :: stack) found) {linked : List Node}
    (leads : ∀ target, target ∈ linked ↔ catalog.Leads node target) :
    Walked catalog roots (linked.reverse ++ stack) (node :: found) := by
  have here : catalog.Reached roots node := walked.reached node List.mem_cons_self
  constructor
  · intro other member
    simp only [List.mem_append, List.mem_reverse, List.mem_cons] at member
    rcases member with (next | below) | rfl | before
    · exact .link here ((leads other).1 next)
    · exact walked.reached other (List.mem_cons_of_mem node (List.mem_append_left _ below))
    · exact here
    · exact walked.reached other (List.mem_cons_of_mem node (List.mem_append_right _ before))
  · intro other there target link
    simp only [List.mem_append, List.mem_reverse, List.mem_cons]
    rcases List.mem_cons.1 there with rfl | before
    · exact .inl (.inl ((leads target).2 link))
    · have known := walked.closed other before target link
      simp only [List.mem_append, List.mem_cons] at known
      tauto

/-- With enough steps the walk ends with a set of nodes that links do not lead out of. -/
theorem Walked.follow {fuel : Nat} (accepted : catalog.Accepted) (inside : roots ⊆ catalog.nodes)
    (walked : Walked catalog roots stack found)
    (enough : stack.length + linksAhead found catalog.nodes ≤ fuel) :
    ∃ nodes, Catalog.follow catalog fuel stack found = .ok nodes ∧ stack ++ found ⊆ nodes ∧
      Walked catalog roots [] nodes := by
  induction fuel generalizing stack found with
  | zero =>
      have empty : stack = [] := List.length_eq_zero_iff.1 (by omega)
      subst empty
      exact ⟨found, rfl, List.Subset.refl _, walked⟩
  | succ fuel ih =>
      match stack with
      | [] => exact ⟨found, rfl, List.Subset.refl _, walked⟩
      | node :: stack =>
        have member : node ∈ catalog.nodes :=
          (walked.reached node List.mem_cons_self).mem inside
        have foundIff : (found.any fun other => other.name == node.name) = true ↔
            node ∈ found := by
          rw [List.any_eq_true]
          constructor
          · rintro ⟨other, there, same⟩
            have known : other ∈ catalog.nodes :=
              (walked.reached other (List.mem_append_right _ there)).mem inside
            exact accepted.eq_of_name known member (by simpa using same) ▸ there
          · exact fun there => ⟨node, there, by simp⟩
        rw [List.length_cons] at enough
        rw [Catalog.follow]
        split
        next seen =>
          have known := foundIff.1 seen
          obtain ⟨nodes, done, all, last⟩ := ih (walked.skip known) (by omega)
          refine ⟨nodes, done, List.cons_subset.2 ⟨?_, all⟩, last⟩
          exact all (List.mem_append_right _ known)
        next unseen =>
          have new : node ∉ found := fun known => unseen (foundIff.2 known)
          obtain ⟨linked, look, leads⟩ := accepted.mapM_links member
          have count : linked.length = node.links.length :=
            (Result.mapM_eq_ok_iff.1 look).length_eq.symm
          have less := linksAhead_cons_le member new
          obtain ⟨nodes, done, all, last⟩ := ih (walked.visit leads) (by
            rw [List.length_append, List.length_reverse]
            omega)
          refine ⟨nodes, (Result.bind_of_ok look _).trans done, fun other there => all ?_, last⟩
          simp only [List.cons_append, List.mem_cons, List.mem_append] at there ⊢
          tauto

/-- The nodes that are reached are collected without failure. -/
theorem Accepted.reachable (accepted : catalog.Accepted) (inside : roots ⊆ catalog.nodes) :
    ∃ nodes, catalog.reachable roots = .ok nodes ∧
      ∀ node, node ∈ nodes ↔ catalog.Reached roots node := by
  have start : Walked catalog roots roots.reverse [] := by
    refine ⟨fun node member => .root ?_, fun node member => absurd member List.not_mem_nil⟩
    simpa using member
  have enough : roots.reverse.length + linksAhead [] catalog.nodes ≤
      roots.length + catalog.linkCount + 1 := by
    rw [List.length_reverse, linksAhead_nil]
    omega
  obtain ⟨nodes, done, all, last⟩ := start.follow accepted inside enough
  refine ⟨nodes, done, fun node => ⟨last.reached node, fun reached => ?_⟩⟩
  refine reached.of_closed (· ∈ nodes) (fun other member => all ?_) last.closed
  simpa using member

/-! ## Sorted names -/

theorem pairwise_insertSorted {text : String} {sorted : List String}
    (ordered : sorted.Pairwise (· < ·)) : (insertSorted text sorted).Pairwise (· < ·) := by
  induction sorted with
  | nil => exact List.pairwise_singleton _ _
  | cons first rest ih =>
      obtain ⟨before, later⟩ := List.pairwise_cons.1 ordered
      rw [insertSorted]
      split
      next => exact ordered
      next differs =>
        split
        next less =>
          refine List.pairwise_cons.2 ⟨fun other member => ?_, ordered⟩
          rcases List.mem_cons.1 member with rfl | member
          · exact less
          · exact less.trans (before other member)
        next notLess =>
          refine List.pairwise_cons.2 ⟨fun other member => ?_, ih later⟩
          rcases mem_insertSorted.1 member with rfl | member
          · exact lt_of_le_of_ne (not_lt.1 notLess) (Ne.symm differs)
          · exact before other member

theorem pairwise_sortedSet (texts : List String) : (sortedSet texts).Pairwise (· < ·) := by
  have general : ∀ sorted : List String, sorted.Pairwise (· < ·) →
      (texts.foldl (fun all text => insertSorted text all) sorted).Pairwise (· < ·) := by
    induction texts with
    | nil => exact fun _ ordered => ordered
    | cons text rest ih => exact fun sorted ordered => ih _ (pairwise_insertSorted ordered)
  exact general [] List.Pairwise.nil

/-! ## The search in breadth -/

variable {dimension : String} {frontier next : Frontier} {path way : List Hop}

/-- The nodes that were not seen. -/
def unseen (catalog : Catalog) (seen : List String) : Nat :=
  (catalog.nodes.filter fun node => node.name ∉ seen).length

/-- A node that is seen now is one less to see. -/
theorem unseen_cons_lt {seen : List String} (member : node ∈ catalog.nodes)
    (new : node.name ∉ seen) : catalog.unseen (node.name :: seen) < catalog.unseen seen := by
  rw [unseen, unseen]
  have fewer : (catalog.nodes.filter fun other => other.name ∉ node.name :: seen) =
      (catalog.nodes.filter fun other => other.name ∉ seen).filter
        fun other => other.name ≠ node.name := by
    rw [List.filter_filter]
    congr 1
    funext other
    simp
  rw [fewer]
  refine List.length_filter_lt_length_iff_exists.2 ⟨node, ?_, by simp⟩
  exact List.mem_filter.2 ⟨member, by simpa using new⟩

/-- What following the links of some columns adds to what was seen and to the queue. -/
structure Expanded (catalog : Catalog) (dimension : String) (columns : List NodeColumn)
    (frontier next : Frontier) : Prop where
  seen : frontier.seen ⊆ next.seen
  kept : frontier.queue ⊆ next.queue
  linked : ∀ column ∈ columns, ∀ name ∈ column.dimension, (catalog.node? name).isSome →
    name ∈ next.seen
  queued : ∀ name ∈ next.seen, name ∈ frontier.seen ∨
    name ≠ dimension ∧ ∃ entry ∈ next.queue, entry.1.name = name
  fewer : next.queue.length + catalog.unseen next.seen ≤
    frontier.queue.length + catalog.unseen frontier.seen

/-- The node that a column links to, unless it was seen. -/
def fresh? (catalog : Catalog) (frontier : Frontier) (column : NodeColumn) : Option Node :=
  column.dimension.bind fun name =>
    if frontier.seen.contains name then none else catalog.node? name

theorem fresh?_eq_some {column : NodeColumn} {target : Node}
    (found : catalog.fresh? frontier column = some target) :
    column.dimension = some target.name ∧ catalog.node? target.name = some target ∧
      target.name ∉ frontier.seen := by
  obtain ⟨name, isDimension, unseen⟩ := Option.bind_eq_some_iff.1 found
  split at unseen
  next => cases unseen
  next absent =>
    obtain ⟨_, rfl⟩ := mem_of_node? unseen
    exact ⟨isDimension, unseen, by simpa using absent⟩

theorem Expanded.refl (frontier : Frontier) : Expanded catalog dimension [] frontier frontier :=
  ⟨List.Subset.refl _, List.Subset.refl _, nofun, fun _ => .inl, Nat.le_refl _⟩

/-- A column that links to nothing new adds nothing. -/
theorem Expanded.skip {column : NodeColumn} {columns : List NodeColumn}
    (expanded : Expanded catalog dimension columns frontier next)
    (none : catalog.fresh? frontier column = none) :
    Expanded catalog dimension (column :: columns) frontier next := by
  refine { expanded with linked := ?_ }
  rw [List.forall_mem_cons]
  refine ⟨fun name isDimension known => ?_, expanded.linked⟩
  rw [fresh?, Option.mem_def.1 isDimension, Option.bind_some] at none
  split at none
  next seen => exact expanded.seen (by simpa using seen)
  next => simp [none] at known

/-- A column that links to a new node, not the dimension, puts it into the queue. -/
theorem Expanded.push {column : NodeColumn} {columns : List NodeColumn} {entry : Node × List Hop}
    (expanded : Expanded catalog dimension columns
      ⟨entry.1.name :: frontier.seen, frontier.queue ++ [entry]⟩ next)
    (found : catalog.fresh? frontier column = some entry.1) (other : entry.1.name ≠ dimension) :
    Expanded catalog dimension (column :: columns) frontier next := by
  obtain ⟨isDimension, look, new⟩ := fresh?_eq_some found
  constructor
  · exact fun name seen => expanded.seen (List.mem_cons_of_mem _ seen)
  · exact fun before there => expanded.kept (List.mem_append_left _ there)
  · rw [List.forall_mem_cons]
    refine ⟨fun name among _ => ?_, expanded.linked⟩
    rw [isDimension] at among
    cases among
    exact expanded.seen List.mem_cons_self
  · intro name seen
    rcases expanded.queued name seen with before | last
    · rcases List.mem_cons.1 before with rfl | before
      · refine .inr ⟨other, entry, expanded.kept ?_, rfl⟩
        exact List.mem_append_right _ List.mem_cons_self
      · exact .inl before
    · exact .inr last
  · have fewer := unseen_cons_lt (mem_of_node? look).1 new
    have bound := expanded.fewer
    simp only [List.length_append, List.length_singleton] at bound
    omega

/-- The links of some columns of a node lead to the dimension, or everything they lead to is seen
afterwards. What is put into the queue is reached. -/
theorem expand_cases (dimension : String) (path : List Hop) (frontier : Frontier)
    (reached : catalog.Reached roots node) (columns : List NodeColumn)
    (inside : columns ⊆ node.columns)
    (queue : ∀ entry ∈ frontier.queue, catalog.Reached roots entry.1) :
    (expand catalog dimension node path columns frontier).elim
      (fun _ => catalog.LeadsTo roots dimension)
      (fun next => Expanded catalog dimension columns frontier next ∧
        ∀ entry ∈ next.queue, catalog.Reached roots entry.1) := by
  induction columns generalizing frontier with
  | nil => exact ⟨.refl frontier, queue⟩
  | cons column columns ih =>
      obtain ⟨isColumn, others⟩ := List.cons_subset.1 inside
      rw [expand]
      split
      next none =>
        have later := ih frontier others queue
        revert later
        cases expand catalog dimension node path columns frontier with
        | inl way => exact id
        | inr next =>
            rintro ⟨expanded, queued⟩
            exact ⟨expanded.skip none, queued⟩
      next target found =>
        obtain ⟨isDimension, look, _⟩ := fresh?_eq_some found
        have targetReached : catalog.Reached roots target :=
          reached.link (.of_column isColumn isDimension look)
        dsimp only
        split
        next arrives => exact ⟨target, targetReached, arrives⟩
        next elsewhere =>
          generalize path ++ [Hop.mk node.name column.name target.name column.joinColumn] = way
          have later := ih ⟨target.name :: frontier.seen, frontier.queue ++ [(target, way)]⟩ others
            (by
              intro entry there
              rcases List.mem_append.1 there with before | last
              · exact queue entry before
              · cases List.mem_singleton.1 last
                exact targetReached)
          revert later
          cases expand catalog dimension node path columns _ with
          | inl way => exact id
          | inr next =>
              rintro ⟨expanded, queued⟩
              have fresh : catalog.fresh? frontier column = some (target, way).1 := found
              exact ⟨expanded.push fresh elsewhere, queued⟩

/-- A state of the search that has not met the dimension: what was seen was expanded or is in the
queue, and what links lead to from a node that was expanded was seen. -/
structure Explored (catalog : Catalog) (roots : List Node) (dimension : String)
    (expanded : List Node) (frontier : Frontier) : Prop where
  reached : ∀ entry ∈ frontier.queue, catalog.Reached roots entry.1
  known : ∀ name ∈ frontier.seen,
    ∃ node ∈ expanded ++ frontier.queue.map Prod.fst, node.name = name
  members : expanded ⊆ catalog.nodes
  closed : ∀ node ∈ expanded, ∀ target, catalog.Leads node target → target.name ∈ frontier.seen
  missing : dimension ∉ frontier.seen

/-- The first node of the queue is expanded. -/
theorem Explored.expand {expanded : List Node} {queue : List (Node × List Hop)}
    (inside : roots ⊆ catalog.nodes) (explored : Explored catalog roots dimension expanded frontier)
    (entries : frontier.queue = (node, path) :: queue)
    (step : Expanded catalog dimension node.columns { frontier with queue } next)
    (reached : ∀ entry ∈ next.queue, catalog.Reached roots entry.1) :
    Explored catalog roots dimension (node :: expanded) next := by
  have member : node ∈ catalog.nodes :=
    (explored.reached (node, path) (by simp [entries])).mem inside
  refine ⟨reached, fun name seen => ?_, List.cons_subset.2 ⟨member, explored.members⟩, ?_, ?_⟩
  · rcases step.queued name seen with before | ⟨-, entry, queued, same⟩
    · obtain ⟨other, there, same⟩ := explored.known name before
      refine ⟨other, ?_, same⟩
      rw [entries, List.map_cons] at there
      simp only [List.cons_append, List.mem_cons, List.mem_append] at there ⊢
      rcases there with old | rfl | waiting
      · exact .inr (.inl old)
      · exact .inl rfl
      · exact .inr (.inr (List.map_subset _ step.kept waiting))
    · refine ⟨entry.1, ?_, same⟩
      exact List.mem_append_right _ (List.mem_map_of_mem queued)
  · intro other there target leads
    rcases List.mem_cons.1 there with rfl | before
    · obtain ⟨name, links, found⟩ := leads
      obtain ⟨column, isColumn, isDimension⟩ := mem_links.1 links
      have seen := step.linked column isColumn name isDimension (by simp [found])
      exact (mem_of_node? found).2 ▸ seen
    · exact step.seen (explored.closed other before target leads)
  · intro seen
    rcases step.queued dimension seen with before | ⟨differs, -⟩
    · exact explored.missing before
    · exact differs rfl

/-- Names, among them those that were seen, that links do not lead out of, and a dimension that is
not among them. -/
def Enclosed (catalog : Catalog) (seen : List String) (dimension : String) : Prop :=
  ∃ names, seen ⊆ names ∧ dimension ∉ names ∧ ∀ node ∈ catalog.nodes, node.name ∈ names →
    ∀ target, catalog.Leads node target → target.name ∈ names

/-- A search with enough steps finds a path only to what is reached, and finds none only if links do
not lead from what was seen to the dimension. -/
theorem Explored.searchPath {fuel : Nat} {expanded : List Node} (accepted : catalog.Accepted)
    (inside : roots ⊆ catalog.nodes) (explored : Explored catalog roots dimension expanded frontier)
    (enough : frontier.queue.length + catalog.unseen frontier.seen < fuel) :
    (Catalog.searchPath catalog dimension fuel frontier).elim
      (Enclosed catalog frontier.seen dimension)
      (fun _ => catalog.LeadsTo roots dimension) := by
  induction fuel generalizing frontier expanded with
  | zero => exact absurd enough (Nat.not_lt_zero _)
  | succ fuel ih =>
      rw [Catalog.searchPath]
      split
      next empty =>
        refine ⟨frontier.seen, List.Subset.refl _, explored.missing, ?_⟩
        intro node member seen target leads
        obtain ⟨other, there, same⟩ := explored.known node.name seen
        rw [empty, List.map_nil, List.append_nil] at there
        have equal := accepted.eq_of_name (explored.members there) member same
        exact explored.closed node (equal ▸ there) target leads
      next node path queue entries =>
        have reached := explored.reached
        rw [entries, List.forall_mem_cons] at reached
        have step := expand_cases dimension path { frontier with queue } reached.1 node.columns
          (List.Subset.refl _) reached.2
        revert step
        cases Catalog.expand catalog dimension node path node.columns { frontier with queue } with
        | inl way => exact id
        | inr next =>
            rintro ⟨step, queued⟩
            have fewer := step.fewer
            rw [entries, List.length_cons] at enough
            simp only at fewer
            have later := ih (explored.expand inside entries step queued) (by omega)
            revert later
            dsimp only
            cases Catalog.searchPath catalog dimension fuel next with
            | some way => exact id
            | none =>
                rintro ⟨names, seen, closed⟩
                exact ⟨names, fun name there => seen (step.seen there), closed⟩

/-- There is a path to a name, other than those of the nodes to start from, exactly if links lead to
a node of that name. -/
theorem Accepted.isSome_dimensionPath_iff (accepted : catalog.Accepted)
    (inside : roots ⊆ catalog.nodes) (missing : dimension ∉ roots.map Node.name) :
    (catalog.dimensionPath roots dimension).isSome ↔ catalog.LeadsTo roots dimension := by
  have start : Explored catalog roots dimension []
      { seen := roots.map Node.name, queue := roots.map fun node => (node, []) } := by
    refine ⟨fun entry there => ?_, fun name there => ?_, List.nil_subset _, nofun, missing⟩
    · obtain ⟨root, isRoot, rfl⟩ := List.mem_map.1 there
      exact .root isRoot
    · obtain ⟨root, isRoot, rfl⟩ := List.mem_map.1 there
      refine ⟨root, ?_, rfl⟩
      simpa using isRoot
  have few : catalog.unseen (roots.map Node.name) ≤ catalog.nodes.length :=
    List.length_filter_le _ _
  have enough : (roots.map fun node => (node, ([] : List Hop))).length +
      catalog.unseen (roots.map Node.name) < roots.length + catalog.nodes.length + 1 := by
    rw [List.length_map]
    omega
  have search := start.searchPath accepted inside enough
  rw [dimensionPath]
  revert search
  cases searchPath catalog dimension _ _ with
  | some way => exact fun found => ⟨fun _ => found, fun _ => rfl⟩
  | none =>
      rintro ⟨names, seen, absent, closed⟩
      refine ⟨nofun, fun ⟨target, reached, same⟩ => absurd ?_ absent⟩
      rw [← same]
      refine (reached.of_closed (fun node => node ∈ catalog.nodes ∧ node.name ∈ names) ?_ ?_).2
      · exact fun root isRoot => ⟨inside isRoot, seen (List.mem_map_of_mem isRoot)⟩
      · exact fun other there target leads =>
          ⟨leads.mem, closed other there.1 there.2 target leads⟩

/-- There is a path to a node, other than those to start from, exactly if links lead to it. -/
theorem Accepted.isSome_dimensionPath (accepted : catalog.Accepted) (inside : roots ⊆ catalog.nodes)
    (member : node ∈ catalog.nodes) (outside : node ∉ roots) :
    (catalog.dimensionPath roots node.name).isSome ↔ catalog.Reached roots node := by
  have missing : node.name ∉ roots.map Node.name := by
    intro there
    obtain ⟨root, isRoot, same⟩ := List.mem_map.1 there
    exact outside (accepted.eq_of_name (inside isRoot) member same ▸ isRoot)
  rw [accepted.isSome_dimensionPath_iff inside missing]
  constructor
  · rintro ⟨target, reached, same⟩
    exact accepted.eq_of_name (reached.mem inside) member same ▸ reached
  · exact fun reached => ⟨node, reached, rfl⟩

/-- The dimensions of a node are collected without failure. They are, sorted, the columns of what
links lead to from its parents, or from itself if it has none; and what links lead to is, apart from
the nodes to start from, what there is a path to. -/
theorem dimensions_are_what_paths_reach {databases : List Database} {nodes : List Node}
    (built : build databases nodes = .ok catalog) (member : node ∈ catalog.nodes) :
    (∃ names, catalog.dimensions node = .ok names ∧ names.Pairwise (· < ·) ∧
      ∀ text, text ∈ names ↔ ∃ other, catalog.Reached (catalog.roots node) other ∧
        ∃ column ∈ other.columns, Text.dotted [other.name, column.name] = text) ∧
    ∀ other ∈ catalog.nodes, other ∉ catalog.roots node →
      (catalog.Reached (catalog.roots node) other ↔
        (catalog.dimensionPath (catalog.roots node) other.name).isSome) := by
  have accepted := accepted_of_build built
  have inside := roots_subset member
  constructor
  · obtain ⟨found, done, reached⟩ := accepted.reachable inside
    refine ⟨_, Result.bind_of_ok done _, pairwise_sortedSet _, fun text => ?_⟩
    simp only [mem_sortedSet, List.mem_flatMap, reached, Node.dimensionNames, List.mem_map]
  · exact fun other known outside => (accepted.isSome_dimensionPath inside known outside).symm

/-- Orders of customers, who live in regions; a region has a customer as its manager. -/
def managedRegions : Catalog :=
  { nodes :=
      [{ name := "orders", kind := .source
         columns := [{ name := "customer", dimension := some "customers" }] },
       { name := "customers", kind := .dimension
         columns := [{ name := "id" }, { name := "region", dimension := some "regions" }] },
       { name := "regions", kind := .dimension
         columns := [{ name := "id" }, { name := "manager", dimension := some "customers" }] },
       { name := "revenue", kind := .metric, parents := ["orders"] }] }

/-- Links that lead in a circle are followed once. -/
theorem dimensions_are_what_paths_reach_managedRegions :
    ∃ revenue ∈ managedRegions.nodes, ∃ regions ∈ managedRegions.nodes,
      managedRegions.dimensions revenue = .ok ["customers.id", "customers.region",
        "orders.customer", "regions.id", "regions.manager"] ∧
      managedRegions.Reached (managedRegions.roots revenue) regions := by
  have built : build managedRegions.databases managedRegions.nodes = .ok managedRegions := by
    decide +kernel
  have names : (managedRegions.dimensions managedRegions.nodes[3]).toOption = some
      ["customers.id", "customers.region", "orders.customer", "regions.id", "regions.manager"] := by
    decide +kernel
  have outside : managedRegions.nodes[2] ∉ managedRegions.roots managedRegions.nodes[3] := by
    decide +kernel
  have path : (managedRegions.dimensionPath (managedRegions.roots managedRegions.nodes[3])
      managedRegions.nodes[2].name).isSome := by
    decide +kernel
  have agree := dimensions_are_what_paths_reach built (List.getElem_mem (n := 3) (by decide))
  refine ⟨_, List.getElem_mem (n := 3) (by decide), _, List.getElem_mem (n := 2) (by decide),
    Result.eq_ok_of_toOption names, ?_⟩
  exact (agree.2 _ (List.getElem_mem (n := 2) (by decide)) outside).2 path

end SemanticLayer.Catalog
