import SemanticLayer.Proofs.Breadth
import SemanticLayer.Proofs.Routes

/-!
# Paths traced back

A search may note the hop by which it met each node, in place of the ways to what waits, and trace
the path back once it has met the dimension. It ends after as many rounds, also where links lead in
circles, for no hop that is noted leads to a node that was met before; and the path is the same. So
the path to a dimension is the first chain there, and there is one wherever a chain leads.
-/

namespace SemanticLayer.Catalog

variable {catalog : Catalog} {start : List Node} {dimension name : String}

/-! ## Searches with a trail -/

/-- What a search has found that notes the hop to each node that it meets, the latest first. -/
structure Survey where
  seen : List String
  queue : List Node
  trail : List Hop

/-- Follows the links of some columns of a node. It gives the trail once a link leads to the
dimension that is looked for. -/
def note (catalog : Catalog) (dimension : String) (node : Node) :
    List NodeColumn → Survey → List Hop ⊕ Survey
  | [], survey => .inr survey
  | column :: columns, survey =>
    let target? := column.dimension.bind fun name =>
      if survey.seen.contains name then none else catalog.node? name
    match target? with
    | none => note catalog dimension node columns survey
    | some target =>
      let trail := .along node column target :: survey.trail
      if target.name = dimension then .inl trail
      else
        note catalog dimension node columns
          { seen := target.name :: survey.seen, queue := survey.queue ++ [target], trail }

/-- Searches for a dimension in breadth, for a number of rounds. It gives the trail to the dimension
if it met it, and nothing if it has not ended by then. -/
def explore (catalog : Catalog) (dimension : String) : Nat → Survey → Option (Option (List Hop))
  | 0, _ => none
  | rounds + 1, survey =>
    match survey.queue with
    | [] => some none
    | node :: queue =>
      match note catalog dimension node node.columns { survey with queue } with
      | .inl trail => some (some trail)
      | .inr next => explore catalog dimension rounds next

/-- Goes back along a trail from a node, for a number of rounds, until no hop leads to where it has
come. It gives nothing if it has not ended by then. -/
def retrace (trail : List Hop) : Nat → String → List Hop → Option (List Hop)
  | 0, _, _ => none
  | rounds + 1, name, path =>
    match trail.find? fun hop => hop.dimension == name with
    | none => some path
    | some hop => retrace trail rounds hop.source (hop :: path)

/-- The path that is traced back after a search, if each of the two ends within a number of
rounds. -/
def tracedPath (catalog : Catalog) (start : List Node) (dimension : String) (rounds : Nat) :
    Option (Option (List Hop)) := do
  let trail? ← explore catalog dimension rounds
    { seen := start.map Node.name, queue := start, trail := [] }
  match trail? with
  | none => some none
  | some trail => (retrace trail rounds dimension []).map some

/-! ## Going back -/

variable {trail path : List Hop} {next : Hop} {seen : List String}

/-- A trail leads back from a node along a path. -/
inductive Retraced (trail : List Hop) : String → List Hop → Prop
  | stop {name : String} (none : trail.find? (fun hop => hop.dimension == name) = none) :
      Retraced trail name []
  | back {path : List Hop} {name : String} {hop : Hop}
      (last : trail.find? (fun other => other.dimension == name) = some hop)
      (before : Retraced trail hop.source path) : Retraced trail name (path ++ [hop])

/-- Going back ends after as many rounds as the path has hops, and one more. -/
theorem Retraced.retrace {rounds : Nat} (retraced : Retraced trail name path)
    (enough : path.length < rounds) (rest : List Hop) :
    Catalog.retrace trail rounds name rest = some (path ++ rest) := by
  induction retraced generalizing rounds rest with
  | stop none =>
      obtain ⟨rounds, rfl⟩ := Nat.exists_eq_succ_of_ne_zero (Nat.ne_of_gt enough)
      rw [Catalog.retrace, none]
      rfl
  | back last before ih =>
      rw [List.length_append, List.length_singleton] at enough
      obtain ⟨rounds, rfl⟩ := Nat.exists_eq_succ_of_ne_zero (Nat.ne_zero_of_lt enough)
      rw [Catalog.retrace, last, List.append_assoc]
      exact ih (Nat.lt_of_succ_lt_succ enough) _

/-- A hop to a node that was not met changes none of the paths back from those that were. -/
theorem Retraced.cons (retraced : Retraced trail name path) (new : next.dimension ∉ seen)
    (noted : ∀ hop ∈ trail, hop.source ∈ seen) (known : name ∈ seen) :
    Retraced (next :: trail) name path := by
  have other : ∀ {name}, name ∈ seen → (next.dimension == name) = false :=
    fun known => beq_eq_false_iff_ne.2 fun same => new (same ▸ known)
  induction retraced with
  | stop none => exact .stop (by rw [List.find?_cons, other known, none])
  | back last _ ih =>
      have source := noted _ (List.mem_of_find?_eq_some last)
      exact .back (by rw [List.find?_cons, other known, last]) (ih source)

/-! ## Two ways to search -/

/-- A trail leads back from a node that was seen, along the way to it. -/
def Survey.Finds (survey : Survey) (entry : Node × List Hop) : Prop :=
  entry.1.name ∈ survey.seen ∧ Retraced survey.trail entry.1.name entry.2

/-- A search with a trail and one with the ways to what waits have come to the same state: hops that
were noted leave nodes that were seen, and the trail leads back from what waits along the ways. -/
structure Survey.Follows (survey : Survey) (frontier : Frontier) : Prop where
  seen : survey.seen = frontier.seen
  queue : survey.queue = frontier.queue.map Prod.fst
  noted : ∀ hop ∈ survey.trail, hop.source ∈ survey.seen
  finds : ∀ entry ∈ frontier.queue, survey.Finds entry

variable {survey : Survey} {frontier : Frontier} {node target : Node} {column : NodeColumn}
  {entry : Node × List Hop}

/-- A search that has noted the hop to a new node. -/
def Survey.push (survey : Survey) (node : Node) (column : NodeColumn) (target : Node) : Survey where
  seen := target.name :: survey.seen
  queue := survey.queue ++ [target]
  trail := .along node column target :: survey.trail

theorem Survey.Follows.finds_push (node : Node) (column : NodeColumn)
    (follows : survey.Follows frontier) (new : target.name ∉ survey.seen)
    (finds : survey.Finds entry) : (survey.push node column target).Finds entry :=
  ⟨List.mem_cons_of_mem _ finds.1, finds.2.cons new follows.noted finds.1⟩

/-- The trail leads back from a new node along the way to the node that was left for it. -/
theorem Survey.Follows.finds_new (column : NodeColumn) (follows : survey.Follows frontier)
    (new : target.name ∉ survey.seen) (finds : survey.Finds (node, path)) :
    (survey.push node column target).Finds (target, path ++ [.along node column target]) :=
  ⟨List.mem_cons_self, .back (by simp [push, Hop.along])
    (follows.finds_push node column new finds).2⟩

/-- The two searches note the same node: one the hop to it, the other the way. -/
theorem Survey.Follows.push (column : NodeColumn) (follows : survey.Follows frontier)
    (new : target.name ∉ survey.seen) (finds : survey.Finds (node, path)) :
    (survey.push node column target).Follows
      { seen := target.name :: frontier.seen
        queue := frontier.queue ++ [(target, path ++ [.along node column target])] } := by
  constructor
  · exact congrArg _ follows.seen
  · rw [Survey.push, follows.queue, List.map_append]
    rfl
  · intro hop noted
    rcases List.mem_cons.1 noted with rfl | before
    · exact List.mem_cons_of_mem _ finds.1
    · exact List.mem_cons_of_mem _ (follows.noted hop before)
  · intro entry queued
    rcases List.mem_append.1 queued with before | last
    · exact follows.finds_push node column new (follows.finds entry before)
    · cases List.mem_singleton.1 last
      exact follows.finds_new column new finds

/-- The two searches go on alike from the columns of a node: both meet the dimension, and the trail
leads back from it along the way; or both go on, and they have as few rounds ahead as before. -/
theorem Survey.Follows.note (catalog : Catalog) (dimension : String) (columns : List NodeColumn)
    (follows : survey.Follows frontier) (finds : survey.Finds (node, path)) :
    Sum.LiftRel (fun trail way => Retraced trail dimension way)
      (fun next after => next.Follows after ∧ after.queue.length + catalog.unseen after.seen ≤
        frontier.queue.length + catalog.unseen frontier.seen)
      (Catalog.note catalog dimension node columns survey)
      (expand catalog dimension node path columns frontier) := by
  induction columns generalizing survey frontier with
  | nil => exact .inr ⟨follows, le_rfl⟩
  | cons column columns ih =>
      obtain ⟨seen, queue, trail⟩ := survey
      obtain rfl : seen = frontier.seen := follows.seen
      rw [Catalog.note, expand]
      generalize found : (column.dimension.bind fun name =>
        if frontier.seen.contains name then none else catalog.node? name) = target?
      cases target? with
      | none => exact ih follows finds
      | some target =>
          obtain ⟨_, known, new⟩ := fresh?_eq_some found
          have fewer := unseen_cons_lt (mem_of_node? known).1 new
          have way := (follows.finds_new column new finds).2
          dsimp only
          split
          next arrives => exact .inl (arrives ▸ way)
          next elsewhere =>
            have later := ih (follows.push column new finds)
              (follows.finds_push node column new finds)
            refine later.mono (fun _ _ => id) fun next after kept => ⟨kept.1, kept.2.trans ?_⟩
            simp only [List.length_append, List.length_singleton]
            omega

/-- The search with a trail ends, within as many rounds as there are nodes in the queue and nodes to
see. The trail leads back along the path that the other search finds. -/
theorem Survey.Follows.explore {fuel rounds : Nat} (dimension : String)
    (follows : survey.Follows frontier)
    (enough : frontier.queue.length + catalog.unseen frontier.seen < fuel)
    (long : frontier.queue.length + catalog.unseen frontier.seen < rounds) :
    ∃ trail?, Catalog.explore catalog dimension rounds survey = some trail? ∧
      Option.Rel (fun trail path => Retraced trail dimension path) trail?
        (searchPath catalog dimension fuel frontier) := by
  -- Every round takes a node out of the queue, and what it puts there was to be seen before, so the
  -- sum that bounds the rounds falls.
  induction rounds generalizing survey frontier fuel with
  | zero => exact absurd long (Nat.not_lt_zero _)
  | succ rounds ih =>
      obtain ⟨fuel, rfl⟩ := Nat.exists_eq_succ_of_ne_zero (Nat.ne_zero_of_lt enough)
      rw [Catalog.explore, searchPath, follows.queue]
      cases waiting : frontier.queue with
      | nil => exact ⟨none, rfl, .none⟩
      | cons entry queue =>
          obtain ⟨node, way⟩ := entry
          have finds := follows.finds
          rw [waiting, List.forall_mem_cons] at finds
          have rest : { survey with queue := queue.map Prod.fst }.Follows
              { frontier with queue } := { follows with queue := rfl, finds := finds.2 }
          have step := rest.note catalog dimension node.columns finds.1
          rw [waiting, List.length_cons] at enough long
          rw [List.map_cons]
          dsimp only at step ⊢
          generalize Catalog.note catalog dimension node node.columns _ = noted at step ⊢
          generalize expand catalog dimension node way node.columns _ = expanded at step ⊢
          cases step with
          | inl retraced => exact ⟨_, rfl, .some retraced⟩
          | inr kept =>
              obtain ⟨goesOn, bound⟩ := kept
              exact ih goesOn (by omega) (by omega)

/-- A path is no longer than there are nodes. -/
theorem Accepted.length_le_of_dimensionPath (accepted : catalog.Accepted)
    (inside : start ⊆ catalog.nodes) (found : catalog.dimensionPath start dimension = some path) :
    path.length ≤ catalog.nodes.length := by
  obtain ⟨_, _, first, _⟩ := accepted.firstChain_of_dimensionPath inside found
  have names : path.map Hop.dimension ⊆ catalog.nodes.map Node.name := by
    intro name member
    obtain ⟨hop, onPath, rfl⟩ := List.mem_map.1 member
    exact List.mem_map.2 ((route_dimensionPath found).1.known hop onPath)
  have fits := (List.subperm_of_subset (first.nodup accepted inside) names).length_le
  rwa [List.length_map, List.length_map] at fits

/-- The path that is traced back is the one that the search finds. -/
theorem Accepted.tracedPath_eq {rounds : Nat} (accepted : catalog.Accepted)
    (inside : start ⊆ catalog.nodes) (enough : start.length + catalog.nodes.length < rounds) :
    catalog.tracedPath start dimension rounds = some (catalog.dimensionPath start dimension) := by
  have follows : Survey.Follows { seen := start.map Node.name, queue := start, trail := [] }
      { seen := start.map Node.name, queue := start.map fun node => (node, []) } := by
    refine ⟨rfl, ?_, nofun, ?_⟩
    · rw [List.map_map]
      exact (List.map_id start).symm
    · intro entry queued
      obtain ⟨node, isRoot, rfl⟩ := List.mem_map.1 queued
      exact ⟨List.mem_map_of_mem isRoot, .stop rfl⟩
  have few : catalog.unseen (start.map Node.name) ≤ catalog.nodes.length :=
    List.length_filter_le _ _
  have bound : (start.map fun node => (node, ([] : List Hop))).length +
      catalog.unseen (start.map Node.name) ≤ start.length + catalog.nodes.length := by
    rw [List.length_map]
    omega
  obtain ⟨trail?, explored, same⟩ :=
    follows.explore dimension (Nat.lt_succ_of_le bound) (bound.trans_lt enough)
  change Option.Rel _ trail? (catalog.dimensionPath start dimension) at same
  generalize found : catalog.dimensionPath start dimension = path? at same
  rw [tracedPath, explored]
  cases same with
  | none => rfl
  | some retraced =>
      have short := accepted.length_le_of_dimensionPath inside found
      have path := retraced.retrace (by omega : _ < rounds) []
      rw [List.append_nil] at path
      exact congrArg (Option.map some) path

/-! ## Paths and first chains -/

/-- A path to a dimension leads to no node to start from. -/
theorem missing_of_dimensionPath (found : catalog.dimensionPath start dimension = some path) :
    dimension ∉ start.map Node.name := by
  obtain ⟨hop, onPath, rfl⟩ := (route_dimensionPath found).2
  exact avoids_dimensionPath found hop onPath

/-- A dimension that is not one to start from has a path if a chain leads there, which is the first
chain there. -/
theorem Accepted.dimensionPath_eq_some_iff (accepted : catalog.Accepted)
    (inside : start ⊆ catalog.nodes) : catalog.dimensionPath start dimension = some path ↔
      dimension ∉ start.map Node.name ∧
        ∃ places node, FirstChain catalog start places path node ∧ node.name = dimension := by
  constructor
  · exact fun found =>
      ⟨missing_of_dimensionPath found, accepted.firstChain_of_dimensionPath inside found⟩
  · rintro ⟨missing, places, node, first, same⟩
    have leads := leadsTo_iff_exists_chain.2 ⟨places, path, node, first.chain, same⟩
    have isSome := (accepted.isSome_dimensionPath_iff inside missing).2 leads
    obtain ⟨way, found⟩ := Option.isSome_iff_exists.1 isSome
    obtain ⟨others, other, again, sameToo⟩ := accepted.firstChain_of_dimensionPath inside found
    rw [found, (first.unique again (same.trans sameToo.symm)).2.1]

theorem Accepted.dimensionPath_eq_none_iff (accepted : catalog.Accepted)
    (inside : start ⊆ catalog.nodes) : catalog.dimensionPath start dimension = none ↔
      dimension ∈ start.map Node.name ∨
        ∀ places hops node, Chain catalog start places hops node → node.name ≠ dimension := by
  by_cases missing : dimension ∈ start.map Node.name
  · refine iff_of_true (Option.eq_none_iff_forall_ne_some.2 fun path found => ?_) (.inl missing)
    exact missing_of_dimensionPath found missing
  · rw [← Option.not_isSome_iff_eq_none, accepted.isSome_dimensionPath_iff inside missing,
      leadsTo_iff_exists_chain]
    simp [missing]

/-- There is no path to a node to start from, and none where no chain of links leads. Elsewhere the
path is the first chain there, the shortest one and of several the one that comes first by the node
that it starts from and the columns that it leaves by. It reaches no node twice and none to start
from. It is what is traced back along the hops that a search has noted, and both the search and the
way back end, also where links lead in circles. -/
theorem paths_are_first_chains {databases : List Database} {nodes : List Node}
    (built : build databases nodes = .ok catalog) (inside : start ⊆ catalog.nodes)
    (dimension : String) :
    (catalog.dimensionPath start dimension = none ↔ dimension ∈ start.map Node.name ∨
      ∀ places hops node, Chain catalog start places hops node → node.name ≠ dimension) ∧
    (∀ path, catalog.dimensionPath start dimension = some path ↔
      dimension ∉ start.map Node.name ∧
        ∃ places node, FirstChain catalog start places path node ∧ node.name = dimension) ∧
    (∀ path, catalog.dimensionPath start dimension = some path →
      path ≠ [] ∧ (path.map Hop.dimension).Nodup ∧
        ∀ hop ∈ path, hop.dimension ∉ start.map Node.name) ∧
    ∀ rounds, start.length + catalog.nodes.length < rounds →
      catalog.tracedPath start dimension rounds =
        some (catalog.dimensionPath start dimension) := by
  have accepted := accepted_of_build built
  refine ⟨accepted.dimensionPath_eq_none_iff inside,
    fun path => accepted.dimensionPath_eq_some_iff inside, fun path found => ?_,
    fun rounds enough => accepted.tracedPath_eq inside enough⟩
  obtain ⟨places, node, first, _⟩ := accepted.firstChain_of_dimensionPath inside found
  obtain ⟨hop, onPath, _⟩ := (route_dimensionPath found).2
  exact ⟨List.ne_nil_of_mem onPath, first.nodup accepted inside, avoids_dimensionPath found⟩

/-- Customers link to regions and regions back to customers, so links lead in a circle. -/
theorem paths_are_first_chains_managedRegions :
    managedRegions.tracedPath [managedRegions.nodes[0]] "regions" 6 =
        some (some
          [{ source := "orders", column := "customer", dimension := "customers"
             dimensionColumn := "id" },
           { source := "customers", column := "region", dimension := "regions"
             dimensionColumn := "id" }]) ∧
      ∀ places hops node, Chain managedRegions [managedRegions.nodes[0]] places hops node →
        node.name ≠ "revenue" := by
  have built : build managedRegions.databases managedRegions.nodes = .ok managedRegions := by
    decide +kernel
  have inside : [managedRegions.nodes[0]] ⊆ managedRegions.nodes := by simp
  obtain ⟨_, _, _, traced⟩ := paths_are_first_chains built inside "regions"
  obtain ⟨unreachable, _⟩ := paths_are_first_chains built inside "revenue"
  have none : managedRegions.dimensionPath [managedRegions.nodes[0]] "revenue" = none := by
    decide +kernel
  constructor
  · rw [traced 6 (by decide)]
    decide +kernel
  · exact (unreachable.1 none).resolve_left (by decide)

end SemanticLayer.Catalog
