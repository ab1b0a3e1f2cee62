import SemanticLayer.Proofs.Chains
import SemanticLayer.Proofs.Joining

/-!
# Paths are first chains

A search in breadth meets nodes in the order of the first chains to them: what waits in the queue
comes later than all that was expanded, and its chains are first chains. So the path to a dimension
is the first chain there.
-/

namespace SemanticLayer.Catalog

variable {catalog : Catalog} {start : List Node} {dimension : String}

/-! ## What a search has met -/

/-- A node that a search has met, and the chain by which it did. -/
structure Arrival where
  places : List Nat
  hops : List Hop
  node : Node

/-- A node of the name was met. -/
def Knows (met : List Arrival) (name : String) : Prop :=
  ∃ arrival ∈ met, arrival.node.name = name

/-- Nodes that were met, some expanded and some waiting: those to start from are among them and so
is what links lead to from those that were expanded, chains to them are first chains, and those that
wait do so in the order of their chains. -/
structure Met (catalog : Catalog) (start : List Node) (expanded waiting : List Arrival) : Prop where
  chains : ∀ arrival ∈ expanded ++ waiting,
    Chain catalog start arrival.places arrival.hops arrival.node
  roots : ∀ node ∈ start, Knows (expanded ++ waiting) node.name
  closed : ∀ arrival ∈ expanded, ∀ target, catalog.Leads arrival.node target →
    Knows (expanded ++ waiting) target.name
  least : ∀ places hops node, Chain catalog start places hops node →
    Knows (expanded ++ waiting) node.name → ∃ arrival ∈ expanded ++ waiting,
      arrival.node.name = node.name ∧ chainKey arrival.places ≤ chainKey places
  sorted : waiting.Pairwise fun arrival later => chainKey arrival.places < chainKey later.places

variable {expanded waiting : List Arrival} {here arrival : Arrival} {places : List Nat}
  {hops : List Hop} {node target : Node} {k : Nat} {column : NodeColumn}

theorem Met.mem (met : Met catalog start expanded waiting) (inside : start ⊆ catalog.nodes)
    (member : arrival ∈ expanded ++ waiting) : arrival.node ∈ catalog.nodes :=
  (met.chains arrival member).reached.mem inside

theorem Met.le_of_mem (met : Met catalog start expanded (here :: waiting))
    (member : arrival ∈ here :: waiting) : chainKey here.places ≤ chainKey arrival.places := by
  rcases List.mem_cons.1 member with rfl | later
  · exact le_rfl
  · exact ((List.pairwise_cons.1 met.sorted).1 arrival later).le

/-- A chain leads to a node that was expanded, or it comes no earlier than what waits in front. -/
theorem Met.le_of_chain (accepted : catalog.Accepted) (inside : start ⊆ catalog.nodes)
    (met : Met catalog start expanded (here :: waiting))
    (chain : Chain catalog start places hops node) :
    (∃ arrival ∈ expanded, arrival.node = node) ∨ chainKey here.places ≤ chainKey places := by
  have settle : ∀ {places hops node}, Chain catalog start places hops node →
      Knows (expanded ++ here :: waiting) node.name →
        (∃ arrival ∈ expanded, arrival.node = node) ∨ chainKey here.places ≤ chainKey places := by
    intro places hops node chain known
    obtain ⟨arrival, member, same, le⟩ := met.least _ _ _ chain known
    rcases List.mem_append.1 member with before | waits
    · have equal := accepted.eq_of_name (met.mem inside member) (chain.reached.mem inside) same
      exact .inl ⟨arrival, before, equal⟩
    · exact .inr ((met.le_of_mem waits).trans le)
  induction chain with
  | root isRoot =>
      exact settle (.root isRoot) (met.roots _ (List.mem_of_getElem? isRoot))
  | link chain isColumn links known ih =>
      rcases ih with ⟨arrival, before, rfl⟩ | le
      · have leads := Leads.of_column (List.mem_of_getElem? isColumn) links known
        exact settle (.link chain isColumn links known) (met.closed arrival before _ leads)
      · exact .inr (le.trans (chainKey_lt_concat _ _).le)

/-- The columns in front of one link to nodes that were met. -/
def LinkedBefore (catalog : Catalog) (met : List Arrival) (node : Node) (k : Nat) : Prop :=
  ∀ i < k, ∀ column, node.columns[i]? = some column → ∀ target,
    column.dimension = some target.name → catalog.node? target.name = some target →
      Knows met target.name

/-- The first link that leads from the node in front to a node that was not met ends a first chain
there. -/
theorem Met.le_of_new (accepted : catalog.Accepted) (inside : start ⊆ catalog.nodes)
    (met : Met catalog start expanded (here :: waiting))
    (earlier : LinkedBefore catalog (expanded ++ here :: waiting) here.node k)
    (new : ¬ Knows (expanded ++ here :: waiting) target.name)
    (chain : Chain catalog start places hops node) (same : node.name = target.name) :
    chainKey (here.places ++ [k]) ≤ chainKey places := by
  rw [← same] at new
  rcases chain.cases_last with ⟨i, rfl, rfl, isRoot⟩ | ⟨front, before, last, i, column, rfl, rfl,
      first, isColumn, links, known⟩
  · exact absurd (met.roots node (List.mem_of_getElem? isRoot)) new
  · rcases met.le_of_chain accepted inside first with ⟨arrival, done, rfl⟩ | le
    · have leads := Leads.of_column (List.mem_of_getElem? isColumn) links known
      exact absurd (met.closed arrival done node leads) new
    · -- Of chains that leave the node in front itself the one by the first new link is earliest.
      rcases lt_or_eq_of_le le with less | equal
      · exact (chainKey_append_lt less (show [k].length = [i].length from rfl)).le
      · have places := chainKey_injective equal
        subst places
        have middle : Chain catalog start here.places here.hops here.node :=
          met.chains here (by simp)
        obtain ⟨_, rfl⟩ := middle.unique first
        by_contra before
        have less : i < k := not_le.1 fun le => before (chainKey_concat_le _ le)
        exact new (earlier i less column isColumn node links known)

theorem knows_append_singleton {met : List Arrival} {name : String} :
    Knows (met ++ [arrival]) name ↔ Knows met name ∨ arrival.node.name = name := by
  simp [Knows, or_and_right, exists_or]

/-- A node is met by the first link that leads to it. -/
theorem Met.push (met : Met catalog start expanded (here :: waiting))
    (chain : Chain catalog start arrival.places arrival.hops arrival.node)
    (least : ∀ places hops node, Chain catalog start places hops node →
      node.name = arrival.node.name → chainKey arrival.places ≤ chainKey places)
    (last : ∀ other ∈ here :: waiting, chainKey other.places < chainKey arrival.places) :
    Met catalog start expanded (here :: (waiting ++ [arrival])) := by
  have all : expanded ++ here :: (waiting ++ [arrival]) =
      expanded ++ here :: waiting ++ [arrival] := by simp
  constructor
  · rw [all]
    intro other member
    rcases List.mem_append.1 member with before | here
    · exact met.chains other before
    · cases List.mem_singleton.1 here
      exact chain
  · rw [all]
    exact fun node isRoot => knows_append_singleton.2 (.inl (met.roots node isRoot))
  · rw [all]
    exact fun other done target leads =>
      knows_append_singleton.2 (.inl (met.closed other done target leads))
  · rw [all]
    intro places hops node instead known
    rcases knows_append_singleton.1 known with before | here
    · obtain ⟨other, member, same, le⟩ := met.least _ _ _ instead before
      exact ⟨other, List.mem_append_left _ member, same, le⟩
    · exact ⟨arrival, by simp, here, least _ _ _ instead here.symm⟩
  · rw [← List.cons_append, List.pairwise_append]
    refine ⟨met.sorted, List.pairwise_singleton _ _, fun other before later member => ?_⟩
    cases List.mem_singleton.1 member
    exact last other before

/-- A node all of whose links lead to nodes that were met is expanded. -/
theorem Met.finish (met : Met catalog start expanded (here :: waiting))
    (closed : ∀ target, catalog.Leads here.node target →
      Knows (expanded ++ here :: waiting) target.name) :
    Met catalog start (expanded ++ [here]) waiting := by
  have all : expanded ++ [here] ++ waiting = expanded ++ here :: waiting := by simp
  constructor
  · rw [all]
    exact met.chains
  · rw [all]
    exact met.roots
  · rw [all]
    intro other member target leads
    rcases List.mem_append.1 member with before | last
    · exact met.closed other before target leads
    · cases List.mem_singleton.1 last
      exact closed target leads
  · rw [all]
    exact met.least
  · exact (List.pairwise_cons.1 met.sorted).2

/-! ## States of a search -/

/-- The queue of a search, with the ways to what waits in it. -/
def queueOf (waiting : List Arrival) : List (Node × List Hop) :=
  waiting.map fun arrival => (arrival.node, arrival.hops)

/-- A search that follows the links of a node and has come to one of its columns: what was pushed
comes earlier than what the column may lead to. -/
structure Expanding (catalog : Catalog) (start : List Node) (expanded : List Arrival)
    (here : Arrival) (waiting : List Arrival) (k : Nat) (frontier : Frontier) : Prop where
  met : Met catalog start expanded (here :: waiting)
  queue : frontier.queue = queueOf waiting
  seen : ∀ name, name ∈ frontier.seen ↔ Knows (expanded ++ here :: waiting) name
  earlier : LinkedBefore catalog (expanded ++ here :: waiting) here.node k
  bound : ∀ arrival ∈ waiting, chainKey arrival.places < chainKey (here.places ++ [k])

/-- A search between two nodes: what waits comes earlier than what the node in front may lead to. -/
structure Searching (catalog : Catalog) (start : List Node) (expanded waiting : List Arrival)
    (frontier : Frontier) : Prop where
  met : Met catalog start expanded waiting
  queue : frontier.queue = queueOf waiting
  seen : ∀ name, name ∈ frontier.seen ↔ Knows (expanded ++ waiting) name
  bound : ∀ here ∈ waiting.head?, ∀ arrival ∈ waiting,
    chainKey arrival.places < chainKey (here.places ++ [0])

variable {frontier : Frontier}

/-- A column that links to nothing new is passed. -/
theorem Expanding.skip (expanding : Expanding catalog start expanded here waiting k frontier)
    (isColumn : here.node.columns[k]? = some column)
    (none : catalog.fresh? frontier column = none) :
    Expanding catalog start expanded here waiting (k + 1) frontier := by
  refine { expanding with earlier := ?_, bound := ?_ }
  · intro i before other isOther target links known
    rcases Nat.lt_succ_iff_lt_or_eq.1 before with less | rfl
    · exact expanding.earlier i less other isOther target links known
    · cases isColumn.symm.trans isOther
      rw [fresh?, links, Option.bind_some] at none
      split at none
      next seen => exact (expanding.seen _).1 (by simpa using seen)
      next => cases known.symm.trans none
  · exact fun arrival waits =>
      (expanding.bound arrival waits).trans_le (chainKey_concat_le _ k.le_succ)

/-- A chain along a column that links to a node that was not met. -/
def step (here : Arrival) (k : Nat) (column : NodeColumn) (target : Node) : Arrival where
  places := here.places ++ [k]
  hops := here.hops ++ [.along here.node column target]
  node := target

/-- A link to a node that was not met ends a first chain there. -/
theorem Expanding.firstChain (accepted : catalog.Accepted) (inside : start ⊆ catalog.nodes)
    (expanding : Expanding catalog start expanded here waiting k frontier)
    (isColumn : here.node.columns[k]? = some column)
    (found : catalog.fresh? frontier column = some target) :
    FirstChain catalog start (step here k column target).places
      (step here k column target).hops target := by
  obtain ⟨links, known, new⟩ := fresh?_eq_some found
  rw [expanding.seen] at new
  have chain : Chain catalog start here.places here.hops here.node :=
    expanding.met.chains here (by simp)
  exact ⟨.link chain isColumn links known, fun _ _ _ instead same =>
    expanding.met.le_of_new accepted inside expanding.earlier new instead same⟩

/-- A link to a node that was not met puts it into the queue. -/
theorem Expanding.push (accepted : catalog.Accepted) (inside : start ⊆ catalog.nodes)
    (expanding : Expanding catalog start expanded here waiting k frontier)
    (isColumn : here.node.columns[k]? = some column)
    (found : catalog.fresh? frontier column = some target) :
    Expanding catalog start expanded here (waiting ++ [step here k column target]) (k + 1)
      { seen := target.name :: frontier.seen
        queue := frontier.queue ++ [(target, (step here k column target).hops)] } := by
  have first := expanding.firstChain accepted inside isColumn found
  have links := (fresh?_eq_some found).1
  have all : expanded ++ here :: (waiting ++ [step here k column target]) =
      expanded ++ here :: waiting ++ [step here k column target] := by simp
  constructor
  · refine expanding.met.push first.chain first.least fun other member => ?_
    rcases List.mem_cons.1 member with rfl | waits
    · exact chainKey_lt_concat _ _
    · exact expanding.bound other waits
  · rw [expanding.queue, queueOf, queueOf, List.map_append]
    rfl
  · intro name
    rw [all, knows_append_singleton, ← expanding.seen, List.mem_cons, or_comm, eq_comm]
    rfl
  · rw [all]
    intro i before other isOther next linksToo known
    rw [knows_append_singleton]
    rcases Nat.lt_succ_iff_lt_or_eq.1 before with less | rfl
    · exact .inl (expanding.earlier i less other isOther next linksToo known)
    · cases isColumn.symm.trans isOther
      exact .inr (Option.some.inj (links.symm.trans linksToo))
  · intro arrival member
    have next := chainKey_concat_lt here.places k.lt_succ_self
    rcases List.mem_append.1 member with waits | last
    · exact (expanding.bound arrival waits).trans next
    · cases List.mem_singleton.1 last
      exact next

/-- Once every column was passed the next node of the queue is in front. -/
theorem Expanding.finish
    (expanding : Expanding catalog start expanded here waiting here.node.columns.length frontier) :
    Searching catalog start (expanded ++ [here]) waiting frontier := by
  have all : expanded ++ [here] ++ waiting = expanded ++ here :: waiting := by simp
  refine ⟨expanding.met.finish fun target leads => ?_, expanding.queue, ?_, ?_⟩
  · obtain ⟨name, links, known⟩ := leads
    obtain ⟨column, member, isDimension⟩ := mem_links.1 links
    obtain ⟨i, less, isColumn⟩ := List.getElem_of_mem member
    obtain ⟨_, rfl⟩ := mem_of_node? known
    exact expanding.earlier i less column (List.getElem?_eq_some_iff.2 ⟨less, isColumn⟩) target
      isDimension known
  · rw [all]
    exact expanding.seen
  · intro first front arrival waits
    have later := (List.pairwise_cons.1 expanding.met.sorted).1 first (List.mem_of_mem_head? front)
    exact (expanding.bound arrival waits).trans (chainKey_append_lt later rfl)

/-- The node in front of the queue is expanded next. -/
theorem Searching.begin (searching : Searching catalog start expanded (here :: waiting) frontier) :
    Expanding catalog start expanded here waiting 0 { frontier with queue := queueOf waiting } where
  met := searching.met
  queue := rfl
  seen := searching.seen
  earlier := fun _ before => absurd before (Nat.not_lt_zero _)
  bound := fun arrival waits => searching.bound here rfl arrival (List.mem_cons_of_mem _ waits)

/-- The links of a node lead to the dimension by a first chain, or its columns are all passed. -/
theorem Expanding.expand (dimension : String) (accepted : catalog.Accepted)
    (inside : start ⊆ catalog.nodes) {columns before : List NodeColumn}
    (whole : here.node.columns = before ++ columns)
    (expanding : Expanding catalog start expanded here waiting before.length frontier) :
    (Catalog.expand catalog dimension here.node here.hops columns frontier).elim
      (fun way => ∃ places target, FirstChain catalog start places way target ∧
        target.name = dimension)
      (fun next => ∃ waiting, Searching catalog start (expanded ++ [here]) waiting next) := by
  induction columns generalizing before waiting frontier with
  | nil =>
      rw [List.append_nil] at whole
      rw [← whole] at expanding
      exact ⟨waiting, expanding.finish⟩
  | cons column columns ih =>
      have isColumn : here.node.columns[before.length]? = some column := by simp [whole]
      have rest : here.node.columns = before ++ [column] ++ columns := by simp [whole]
      have counts : (before ++ [column]).length = before.length + 1 := by simp
      rw [Catalog.expand]
      split
      next none => exact ih rest (counts ▸ expanding.skip isColumn none)
      next target found =>
        dsimp only
        split
        next arrives =>
          exact ⟨_, target, expanding.firstChain accepted inside isColumn found, arrives⟩
        next =>
          exact ih rest (counts ▸ expanding.push accepted inside isColumn found)

/-- What a search finds is a first chain. -/
theorem Searching.searchPath {fuel : Nat} {path : List Hop} (accepted : catalog.Accepted)
    (inside : start ⊆ catalog.nodes) (searching : Searching catalog start expanded waiting frontier)
    (found : Catalog.searchPath catalog dimension fuel frontier = some path) :
    ∃ places target, FirstChain catalog start places path target ∧ target.name = dimension := by
  induction fuel generalizing expanded waiting frontier with
  | zero => cases found
  | succ fuel ih =>
      rw [Catalog.searchPath, searching.queue] at found
      cases waiting with
      | nil => cases found
      | cons here waiting =>
        have whole : here.node.columns = [] ++ here.node.columns := rfl
        rw [queueOf, List.map_cons] at found
        dsimp only at found
        rw [← queueOf] at found
        have step := searching.begin.expand dimension accepted inside whole
        split at found
        next way arrives =>
          rw [arrives] at step
          cases found
          exact step
        next next goesOn =>
          rw [goesOn] at step
          obtain ⟨waiting, searching⟩ := step
          exact ih searching found

/-- The nodes to start from, as they wait before a search. -/
def arrivals (start : List Node) : List Arrival :=
  start.zipIdx.map fun entry => { places := [entry.2], hops := [], node := entry.1 }

theorem mem_arrivals : arrival ∈ arrivals start ↔
    ∃ i node, start[i]? = some node ∧ arrival = { places := [i], hops := [], node } := by
  constructor
  · intro member
    obtain ⟨⟨node, i⟩, entry, rfl⟩ := List.mem_map.1 member
    exact ⟨i, node, List.mem_zipIdx_iff_getElem?.1 entry, rfl⟩
  · rintro ⟨i, node, isRoot, rfl⟩
    exact List.mem_map.2 ⟨(node, i), List.mem_zipIdx_iff_getElem?.2 isRoot, rfl⟩

theorem knows_arrivals {name : String} :
    Knows (arrivals start) name ↔ name ∈ start.map Node.name := by
  constructor
  · rintro ⟨_, member, same⟩
    obtain ⟨i, node, isRoot, rfl⟩ := mem_arrivals.1 member
    exact List.mem_map.2 ⟨node, List.mem_of_getElem? isRoot, same⟩
  · intro named
    obtain ⟨node, member, same⟩ := List.mem_map.1 named
    obtain ⟨i, isRoot⟩ := List.getElem?_of_mem member
    exact ⟨_, mem_arrivals.2 ⟨i, node, isRoot, rfl⟩, same⟩

theorem met_arrivals (catalog : Catalog) (start : List Node) :
    Met catalog start [] (arrivals start) := by
  constructor
  · intro arrival member
    obtain ⟨i, node, isRoot, rfl⟩ := mem_arrivals.1 member
    exact .root isRoot
  · exact fun node member => knows_arrivals.2 (List.mem_map_of_mem member)
  · exact nofun
  · intro places hops node chain known
    rcases chain.cases_last with ⟨i, rfl, _, isRoot⟩ | ⟨front, _, _, _, _, rfl, _, first, _⟩
    · exact ⟨_, mem_arrivals.2 ⟨i, node, isRoot, rfl⟩, rfl, le_rfl⟩
    · obtain ⟨arrival, member, same⟩ := known
      refine ⟨arrival, member, same, (chainKey_lt_of_length_lt ?_).le⟩
      obtain ⟨i, _, _, rfl⟩ := mem_arrivals.1 member
      have long := first.length_eq
      rw [List.length_append, long]
      simp
  · rw [arrivals, List.pairwise_map]
    have indices : (start.zipIdx.map Prod.snd).Pairwise (· < ·) := by
      rw [List.zipIdx_map_snd]
      exact List.pairwise_lt_range'
    exact (List.pairwise_map.1 indices).imp fun less => chainKey_concat_lt [] less

/-- Before a search the nodes to start from wait. -/
theorem searching_arrivals (catalog : Catalog) (start : List Node) :
    Searching catalog start [] (arrivals start)
      { seen := start.map Node.name, queue := start.map fun node => (node, []) } where
  met := met_arrivals catalog start
  queue := by
    have nodes : start.zipIdx.map Prod.fst = start := List.zipIdx_map_fst 0 start
    have ways := congrArg (List.map fun node => (node, ([] : List Hop))) nodes
    rw [List.map_map] at ways
    rw [queueOf, arrivals, List.map_map]
    exact ways.symm
  seen := fun name => knows_arrivals.symm
  bound := by
    intro here front arrival member
    obtain ⟨i, _, _, rfl⟩ := mem_arrivals.1 member
    obtain ⟨j, _, _, rfl⟩ := mem_arrivals.1 (List.mem_of_mem_head? front)
    exact chainKey_lt_of_length_lt (by simp)

/-- A path is a first chain to the dimension. -/
theorem Accepted.firstChain_of_dimensionPath {path : List Hop} (accepted : catalog.Accepted)
    (inside : start ⊆ catalog.nodes) (found : catalog.dimensionPath start dimension = some path) :
    ∃ places node, FirstChain catalog start places path node ∧ node.name = dimension :=
  (searching_arrivals catalog start).searchPath accepted inside found

end SemanticLayer.Catalog
