import Mathlib.Logic.Relation
import SemanticLayer.Proofs.Reachability

/-!
# Which catalogs are accepted

The search for a topological order fails on graphs with a cycle only: what was seen and is not
finished leads to all that is stacked above it, so an edge back to it would close a cycle. With what
the other checks let pass this says which databases and nodes make a catalog, and what its order and
its children are.
-/

namespace SemanticLayer.Catalog

namespace Order

variable {nodes : List String} {edges : Edges} {state : Search}

/-- One edge leads from a node to another. -/
def Leads (edges : Edges) (source target : String) : Prop :=
  (source, target) ∈ edges

/-- No way along edges comes back to where it starts. -/
def Acyclic (edges : Edges) : Prop :=
  ∀ node, ¬ Relation.TransGen (Leads edges) node node

theorem Acyclic.loopless (acyclic : Acyclic edges) (node : String) : (node, node) ∉ edges :=
  fun loop => acyclic node (.single loop)

/-- Nodes in reverse order of being finished: what each of them leads to was finished before. -/
def Settled (edges : Edges) : List String → Prop
  | [] => True
  | node :: rest => (∀ next ∈ successors edges node, next ∈ rest) ∧ Settled edges rest

/-- What a settled node leads to is settled. -/
theorem Settled.mem_of_leads {order : List String} {node next : String}
    (settled : Settled edges order) (member : node ∈ order) (leads : (node, next) ∈ edges) :
    next ∈ order := by
  induction order with
  | nil => cases member
  | cons first rest ih =>
      rcases List.mem_cons.1 member with rfl | later
      · exact List.mem_cons_of_mem _ (settled.1 next (mem_successors.2 leads))
      · exact List.mem_cons_of_mem _ (ih settled.2 later)

/-- Nothing in a settled list leads to the front of it. -/
theorem Settled.not_leads_front {first node : String} {rest : List String}
    (settled : Settled edges (first :: rest)) (distinct : (first :: rest).Nodup)
    (member : node ∈ first :: rest) : (node, first) ∉ edges := by
  intro leads
  apply (List.nodup_cons.1 distinct).1
  rcases List.mem_cons.1 member with rfl | later
  · exact settled.1 node (mem_successors.2 leads)
  · exact settled.2.mem_of_leads later leads

/-! ## The search -/

/-- What is pushed is what was not seen, whatever is on the stack. -/
theorem exists_push (next seen : List String) :
    ∃ fresh, (∀ stack, push next seen stack = fresh ++ stack) ∧
      ∀ node, node ∈ fresh ↔ node ∈ next ∧ node ∉ seen :=
  ⟨push next seen [], fun stack => by simp [push], fun node => by simp [mem_push]⟩

/-- A node is on the way of a search: there are ways to all that is stacked above it, and what it
leads to is finished or among that. -/
def Search.OnWay (edges : Edges) (state : Search) (node : String) : Prop :=
  ∃ above below, state.stack = above ++ node :: below ∧ node ∉ above ∧
    (∀ other ∈ above, Relation.TransGen (Leads edges) node other) ∧
      ∀ next ∈ successors edges node, next ∈ state.finished ∨ next ∈ above

/-- A state of the search in a graph without cycles: what is finished is settled, and what was seen
and is not finished is on the way. -/
structure Search.Nested (edges : Edges) (state : Search) : Prop where
  settled : Settled edges state.finished
  onWay : ∀ node ∈ state.seen, node ∉ state.finished → state.OnWay edges node

/-- What is on the way and not on top of the stack is so under what is. -/
theorem Search.OnWay.under_top {node top : String} {rest : List String}
    (onWay : state.OnWay edges node) (front : state.stack = top :: rest) (differs : node ≠ top) :
    ∃ above below, rest = above ++ node :: below ∧ node ∉ above ∧
      (∀ other ∈ top :: above, Relation.TransGen (Leads edges) node other) ∧
        ∀ next ∈ successors edges node, next ∈ state.finished ∨ next ∈ top :: above := by
  obtain ⟨above, below, stacked, fresh, reached, nexts⟩ := onWay
  rw [front] at stacked
  cases above with
  | nil => exact absurd (List.cons.inj stacked).1.symm differs
  | cons first above =>
      obtain ⟨rfl, under⟩ := List.cons.inj stacked
      exact ⟨above, below, under, fun there => fresh (List.mem_cons_of_mem _ there), reached, nexts⟩

theorem Search.Nested.finish {node : String} {rest : List String} (nested : state.Nested edges)
    (front : state.stack = node :: rest) (known : node ∈ state.seen) :
    Search.Nested edges
      { state with
        stack := rest
        finished :=
          if state.finished.contains node then state.finished else node :: state.finished } := by
  constructor
  · split
    · exact nested.settled
    next absent =>
      refine ⟨fun next leads => ?_, nested.settled⟩
      obtain ⟨above, below, stacked, fresh, -, nexts⟩ :=
        nested.onWay node known (by simpa using absent)
      -- Only `node` itself is on top, so nothing is stacked above it.
      cases above with
      | nil => exact (nexts next leads).resolve_right List.not_mem_nil
      | cons first above =>
          rw [front] at stacked
          exact absurd (by rw [(List.cons.inj stacked).1]; exact List.mem_cons_self) fresh
  · intro other seen unfinished
    have before : other ∉ state.finished ∧ other ≠ node := by
      dsimp only at unfinished
      split at unfinished
      next there =>
        have there : node ∈ state.finished := by simpa using there
        exact ⟨unfinished, fun same => unfinished (same ▸ there)⟩
      next => exact ⟨fun there => unfinished (List.mem_cons_of_mem _ there),
          fun same => unfinished (same ▸ List.mem_cons_self)⟩
    obtain ⟨above, below, under, fresh, reached, nexts⟩ :=
      (nested.onWay other seen before.1).under_top front before.2
    refine ⟨above, below, under, fresh, fun later member => reached later (.tail _ member), ?_⟩
    intro next leads
    have finishedNow {name : String} (there : name ∈ state.finished ∨ name = node) :
        name ∈ (if state.finished.contains node then state.finished
          else node :: state.finished) := by
      split
      next known =>
        rcases there with there | rfl
        · exact there
        · simpa using known
      next => exact List.mem_cons.2 there.symm
    rcases nexts next leads with there | there
    · exact .inl (finishedNow (.inl there))
    · rcases List.mem_cons.1 there with same | between
      · exact .inl (finishedNow (.inr same))
      · exact .inr between

/-- Without cycles nothing that is on the way is led back to. -/
theorem Search.Nested.mark {node : String} {rest : List String} (nested : state.Nested edges)
    (acyclic : Acyclic edges) (front : state.stack = node :: rest) (new : node ∉ state.seen) :
    Search.Nested edges
      { state with
        seen := node :: state.seen
        stack := push (successors edges node) (node :: state.seen) state.stack } := by
  obtain ⟨fresh, pushed, new_iff⟩ := exists_push (successors edges node) (node :: state.seen)
  have leads {name : String} (there : name ∈ fresh) : (node, name) ∈ edges :=
    mem_successors.1 ((new_iff name).1 there).1
  refine ⟨nested.settled, fun other seen unfinished => ?_⟩
  rcases List.mem_cons.1 seen with rfl | before
  · refine ⟨fresh, rest, by rw [pushed, front], ?_, fun name there => .single (leads there), ?_⟩
    · exact fun there => ((new_iff other).1 there).2 List.mem_cons_self
    · intro next isNext
      by_cases old : next ∈ other :: state.seen
      · left
        rcases List.mem_cons.1 old with rfl | before
        · exact absurd (mem_successors.1 isNext) (acyclic.loopless next)
        · by_contra waiting
          have differs : next ≠ other := fun same => new (same ▸ before)
          obtain ⟨above, below, -, -, reached, -⟩ :=
            (nested.onWay next before waiting).under_top front differs
          exact acyclic next ((reached other List.mem_cons_self).tail (mem_successors.1 isNext))
      · exact .inr ((new_iff next).2 ⟨isNext, old⟩)
  · have differs : other ≠ node := fun same => new (same ▸ before)
    obtain ⟨above, below, under, once, reached, nexts⟩ :=
      (nested.onWay other before unfinished).under_top front differs
    refine ⟨fresh ++ node :: above, below, by rw [pushed, front, under]; simp, ?_, ?_, ?_⟩
    · intro there
      rcases List.mem_append.1 there with there | there
      · exact ((new_iff other).1 there).2 (List.mem_cons_of_mem _ before)
      · rcases List.mem_cons.1 there with same | there
        · exact differs same
        · exact once there
    · intro name there
      rcases List.mem_append.1 there with there | there
      · exact (reached node List.mem_cons_self).tail (leads there)
      · exact reached name there
    · intro next isNext
      exact (nexts next isNext).imp_right (List.mem_append_right _)

/-- In a graph without cycles a search ends, and what it finishes is settled. -/
theorem Search.Nested.search (acyclic : Acyclic edges) (fuel : Nat)
    (nested : state.Nested edges) :
    ∃ after : Search, Order.search edges fuel state = .ok after ∧ after.Nested edges := by
  induction fuel generalizing state with
  | zero => exact ⟨state, rfl, nested⟩
  | succ fuel ih =>
      rw [Order.search]
      split
      · exact ⟨state, rfl, nested⟩
      next node rest front =>
        split
        next known => exact ih (nested.finish front (by simpa using known))
        next new =>
          have loopless : (successors edges node).contains node = false := by
            simpa using fun loop => acyclic.loopless node (mem_successors.1 loop)
          simp only [loopless, Bool.false_eq_true, if_false]
          exact ih (nested.mark acyclic front (by simpa using new))

/-- One node after the other is searched from, and all that is finished then is settled. -/
theorem Search.Nested.searchAll (acyclic : Acyclic edges) (distinct : nodes.Nodup)
    (closed : ∀ edge ∈ edges, edge.2 ∈ nodes) {rest : List String} (inside : rest ⊆ nodes)
    (sound : state.Sound nodes edges) (empty : state.stack = []) (nested : state.Nested edges) :
    ∃ after : Search, rest.foldlM (fun (state : Search) node =>
      if state.seen.contains node then .ok state
      else Order.search edges (searchBound nodes edges) { state with stack := [node] }) state =
        Except.ok after ∧ after.Nested edges := by
  induction rest generalizing state with
  | nil => exact ⟨state, rfl, nested⟩
  | cons node rest ih =>
      obtain ⟨first, others⟩ := List.cons_subset.1 inside
      have alone : [node] ⊆ nodes := List.cons_subset.2 ⟨first, List.nil_subset _⟩
      have step : ∃ next : Search, (if state.seen.contains node then Except.ok state
          else Order.search edges (searchBound nodes edges) { state with stack := [node] }) =
            Except.ok next ∧ next.Nested edges := by
        split
        · exact ⟨state, rfl, nested⟩
        next =>
          refine Search.Nested.search acyclic _ ⟨nested.settled, fun other seen unfinished => ?_⟩
          have pending := sound.pending other seen
          rw [empty] at pending
          exact absurd (pending.resolve_left List.not_mem_nil) unfinished
      obtain ⟨next, done, nestedNext⟩ := step
      have run : [node].foldlM (fun (state : Search) node =>
          if state.seen.contains node then .ok state
          else Order.search edges (searchBound nodes edges) { state with stack := [node] }) state =
            Except.ok next := by
        rw [List.foldlM_cons, Result.bind_of_ok done, List.foldlM_nil]
        rfl
      obtain ⟨soundNext, emptyNext, -⟩ := sound.searchAll distinct closed empty alone run
      rw [List.foldlM_cons, Result.bind_of_ok done]
      exact ih others soundNext emptyNext nestedNext

/-- Without cycles there is an order in which the nodes are finished, and it is settled. -/
theorem exists_finishing (acyclic : Acyclic edges) (distinct : nodes.Nodup)
    (closed : ∀ edge ∈ edges, edge.2 ∈ nodes) :
    ∃ order, finishing nodes edges = .ok order ∧ Settled edges order := by
  have start : Search.Nested edges {} := ⟨trivial, fun _ member => absurd member List.not_mem_nil⟩
  obtain ⟨last, run, nested⟩ := start.searchAll acyclic distinct closed (List.Subset.refl _)
    Search.Sound.start rfl
  exact ⟨last.finished, by rw [finishing, Result.bind_of_ok run]; rfl, nested.settled⟩

/-! ## The check of the order -/

/-- What comes next is passed if all that leads to it was passed before. -/
theorem trace_ok {fuel : Nat} {node : String} {seen : List String} (enough : 2 ≤ fuel)
    (new : node ∉ seen) (before : ∀ other ∈ predecessors edges node, other ∈ node :: seen) :
    trace edges fuel false [node] seen = .ok (node :: seen) := by
  obtain ⟨fuel, rfl⟩ := Nat.exists_eq_add_of_le' enough
  have none : push (predecessors edges node) (node :: seen) [] = [] := by
    refine List.eq_nil_iff_forall_not_mem.2 fun other there => ?_
    rcases mem_push.1 there with ⟨leads, fresh⟩ | below
    · exact fresh (before other leads)
    · cases below
  rw [trace, if_neg (by simpa using new)]
  simp only [Bool.false_eq_true, if_false, none]
  rw [trace]

/-- A settled order passes the check. -/
theorem Settled.exists_trace {fuel : Nat} (enough : 2 ≤ fuel) {order seen : List String}
    (settled : Settled edges order) (distinct : order.Nodup) (new : ∀ node ∈ order, node ∉ seen)
    (known : ∀ edge ∈ edges, edge.2 ∈ order → edge.1 ∈ seen ∨ edge.1 ∈ order) :
    ∃ last, order.foldlM (fun seen node => trace edges fuel false [node] seen) seen = .ok last := by
  induction order generalizing seen with
  | nil => exact ⟨seen, rfl⟩
  | cons node rest ih =>
      have passed : trace edges fuel false [node] seen = .ok (node :: seen) := by
        refine trace_ok enough (new node List.mem_cons_self) fun other leads => ?_
        have leads := mem_predecessors.1 leads
        rcases known _ leads List.mem_cons_self with before | inside
        · exact List.mem_cons_of_mem _ before
        · exact absurd leads (settled.not_leads_front distinct inside)
      rw [List.foldlM_cons, Result.bind_of_ok passed]
      rw [List.nodup_cons] at distinct
      refine ih settled.2 distinct.2 ?_ fun edge member below => ?_
      · intro other later seenNow
        rcases List.mem_cons.1 seenNow with rfl | before
        · exact distinct.1 later
        · exact new other (List.mem_cons_of_mem _ later) before
      · rcases known edge member (List.mem_cons_of_mem _ below) with before | inside
        · exact .inl (List.mem_cons_of_mem _ before)
        · rcases List.mem_cons.1 inside with same | later
          · exact .inl (same ▸ List.mem_cons_self)
          · exact .inr later

/-- There is a topological order just where no way along edges comes back to where it starts. -/
theorem topological_ok_iff (distinct : nodes.Nodup)
    (closed : ∀ edge ∈ edges, edge.1 ∈ nodes ∧ edge.2 ∈ nodes) :
    (∃ order, topological nodes edges = .ok order) ↔ Acyclic edges := by
  have targets : ∀ edge ∈ edges, edge.2 ∈ nodes := fun edge member => (closed edge member).2
  constructor
  · rintro ⟨order, done⟩
    obtain ⟨-, -, forward⟩ := topological_eq_ok distinct targets done
    have ahead {source target : String} (way : Relation.TransGen (Leads edges) source target) :
        order.idxOf source < order.idxOf target := by
      induction way with
      | single leads => exact forward _ leads
      | tail _ leads ih => exact ih.trans (forward _ leads)
    exact fun node cycle => (ahead cycle).false
  · intro acyclic
    obtain ⟨order, done, settled⟩ := exists_finishing acyclic distinct targets
    obtain ⟨once, members, -⟩ := finishing_eq_ok distinct targets done
    have passed : ∃ last, order.foldlM (fun seen node =>
        trace edges (searchBound nodes edges) false [node] seen) [] = .ok last := by
      cases order with
      | nil => exact ⟨[], rfl⟩
      | cons node rest =>
          have some := List.length_pos_of_mem ((members node).1 List.mem_cons_self)
          have enough : 2 ≤ searchBound nodes edges := by
            rw [searchBound]
            omega
          refine settled.exists_trace enough once (fun _ _ => List.not_mem_nil) ?_
          exact fun edge member _ => .inr ((members _).2 (closed edge member).1)
    obtain ⟨last, run⟩ := passed
    exact ⟨order, by rw [topological, Result.bind_of_ok done, Result.bind_of_ok run]; rfl⟩

end Order

variable {catalog : Catalog} {databases : List Database} {nodes : List Node} {node : Node}

/-! ## The checks -/

theorem firstRepeated?_eq_none_iff {α : Type} [BEq α] [LawfulBEq α] {items : List α} :
    firstRepeated? [] items = none ↔ items.Nodup := by
  refine ⟨fun none => (nodup_of_firstRepeated? none).1, fun distinct => ?_⟩
  have general : ∀ seen, (∀ item ∈ items, item ∉ seen) → firstRepeated? seen items = none := by
    induction items with
    | nil => exact fun _ _ => rfl
    | cons item rest ih =>
        intro seen fresh
        rw [List.nodup_cons] at distinct
        rw [firstRepeated?, if_neg (by simpa using fresh item List.mem_cons_self)]
        refine ih distinct.2 _ fun other later => ?_
        rw [List.mem_cons, not_or]
        exact ⟨fun same => distinct.1 (same ▸ later), fresh other (List.mem_cons_of_mem _ later)⟩
  exact general [] fun _ _ => List.not_mem_nil

theorem contains_iff {name : String} :
    catalog.contains name = true ↔ name ∈ catalog.nodes.map Node.name := by
  simp [contains, node?]

/-- Nothing is unknown of a node if its parents, the dimensions of its columns and the databases of
its tables are declared. -/
theorem unknownReference?_eq_none_iff :
    catalog.unknownReference? node = none ↔
      (∀ parent ∈ node.parents, parent ∈ catalog.nodes.map Node.name) ∧
        (∀ column ∈ node.columns, ∀ dimension ∈ column.dimension,
          dimension ∈ catalog.nodes.map Node.name) ∧
        ∀ table ∈ node.tables, table.database ∈ catalog.databases.map Database.id := by
  have parents : (node.parents.find? fun parent => !catalog.contains parent) = none ↔
      ∀ parent ∈ node.parents, parent ∈ catalog.nodes.map Node.name := by
    simp only [List.find?_eq_none, Bool.not_eq_true', Bool.not_eq_false, contains_iff]
  have links : (node.columns.findSome? fun column => column.dimension.bind fun dimension =>
      if catalog.contains dimension then none else some (column.name, dimension)) = none ↔
      ∀ column ∈ node.columns, ∀ dimension ∈ column.dimension,
        dimension ∈ catalog.nodes.map Node.name := by
    simp only [List.findSome?_eq_none_iff, Option.bind_eq_none_iff, Option.mem_def,
      ite_eq_left_iff, reduceCtorEq, imp_false, not_not, contains_iff]
  have tables : (node.tables.find? fun table =>
      !catalog.databases.any fun database => database.id == table.database) = none ↔
      ∀ table ∈ node.tables, table.database ∈ catalog.databases.map Database.id := by
    simp only [List.find?_eq_none, Bool.not_eq_true', Bool.not_eq_false, List.any_eq_true,
      beq_iff_eq, List.mem_map]
  rw [← parents, ← links, ← tables, unknownReference?]
  generalize node.parents.find? _ = parent
  generalize node.columns.findSome? _ = link
  generalize node.tables.find? _ = table
  rcases parent with _ | parent
  · rcases link with _ | ⟨column, dimension⟩
    · cases table <;> simp
    · simp
  · simp

/-- One node names another as its parent. -/
def IsParent (nodes : List Node) (parent child : String) : Prop :=
  ∃ node ∈ nodes, node.name = child ∧ parent ∈ node.parents

theorem leads_edges_iff {parent child : String} :
    Order.Leads catalog.edges parent child ↔ IsParent catalog.nodes parent child := by
  simp only [Order.Leads, edges, List.mem_flatMap, List.mem_map, Prod.mk.injEq, IsParent]
  constructor
  · rintro ⟨node, member, parent, named, rfl, rfl⟩
    exact ⟨node, member, rfl, named⟩
  · rintro ⟨node, member, rfl, named⟩
    exact ⟨node, member, parent, named, rfl, rfl⟩

/-- Ids and names are different, what nodes name is declared, and no node is its own ancestor. -/
structure WellFormed (databases : List Database) (nodes : List Node) : Prop where
  ids : (databases.map Database.id).Nodup
  names : (nodes.map Node.name).Nodup
  parents : ∀ node ∈ nodes, ∀ parent ∈ node.parents, parent ∈ nodes.map Node.name
  dimensions : ∀ node ∈ nodes, ∀ column ∈ node.columns, ∀ dimension ∈ column.dimension,
    dimension ∈ nodes.map Node.name
  tables : ∀ node ∈ nodes, ∀ table ∈ node.tables, table.database ∈ databases.map Database.id
  acyclic : ∀ name, ¬ Relation.TransGen (IsParent nodes) name name

theorem cycle?_eq_none_iff (names : (catalog.nodes.map Node.name).Nodup)
    (parents : ∀ node ∈ catalog.nodes, ∀ parent ∈ node.parents,
      parent ∈ catalog.nodes.map Node.name) :
    catalog.cycle? = none ↔
      ∀ name, ¬ Relation.TransGen (IsParent catalog.nodes) name name := by
  have closed : ∀ edge ∈ catalog.edges,
      edge.1 ∈ catalog.nodes.map Node.name ∧ edge.2 ∈ catalog.nodes.map Node.name := by
    rintro ⟨parent, child⟩ leads
    obtain ⟨node, member, rfl, named⟩ := leads_edges_iff.1 leads
    exact ⟨parents node member parent named, List.mem_map_of_mem member⟩
  have same : Order.Leads catalog.edges = IsParent catalog.nodes := by
    funext parent child
    exact propext leads_edges_iff
  rw [← same]
  refine Iff.trans ?_ (Order.topological_ok_iff names closed)
  rw [cycle?]
  cases Order.topological (catalog.nodes.map Node.name) catalog.edges with
  | ok order => simp
  | error name => simp

theorem build_eq_ok_iff :
    build databases nodes = .ok catalog ↔
      Accepted { databases, nodes } ∧ catalog = { databases, nodes } := by
  constructor
  · intro built
    have same : catalog = { databases, nodes } := by
      obtain ⟨_, _, rest⟩ := Result.bind_eq_ok.1 built
      obtain ⟨_, _, rest⟩ := Result.bind_eq_ok.1 rest
      obtain ⟨_, _, rest⟩ := Result.bind_eq_ok.1 rest
      obtain ⟨_, _, rest⟩ := Result.bind_eq_ok.1 rest
      exact (Result.pure_eq_ok.1 rest).symm
    exact ⟨same ▸ accepted_of_build built, same⟩
  · rintro ⟨accepted, rfl⟩
    have references : nodes.findSome? (unknownReference? { databases, nodes }) = none :=
      List.findSome?_eq_none_iff.2 accepted.references
    rw [build, firstRepeated?_eq_none_iff.2 accepted.ids,
      firstRepeated?_eq_none_iff.2 accepted.names, references, accepted.acyclic]
    rfl

theorem accepted_iff : Accepted { databases, nodes } ↔ WellFormed databases nodes := by
  constructor
  · intro accepted
    have declared := fun node member =>
      unknownReference?_eq_none_iff.1 (accepted.references node member)
    have parents := fun node member => (declared node member).1
    exact ⟨accepted.ids, accepted.names, parents, fun node member => (declared node member).2.1,
      fun node member => (declared node member).2.2,
      (cycle?_eq_none_iff accepted.names parents).1 accepted.acyclic⟩
  · intro formed
    exact ⟨formed.ids, formed.names,
      fun node member => unknownReference?_eq_none_iff.2
        ⟨formed.parents node member, formed.dimensions node member, formed.tables node member⟩,
      (cycle?_eq_none_iff formed.names formed.parents).2 formed.acyclic⟩

/-! ## What an accepted catalog tells -/

/-- The nodes of sorted names stand in the order of their names. -/
theorem pairwise_filterMap_node? {names : List String} (sorted : names.Pairwise (· < ·)) :
    (names.filterMap catalog.node?).Pairwise fun node other => node.name < other.name := by
  refine List.Pairwise.filterMap catalog.node? ?_ sorted
  intro name other less node found later there
  rw [(mem_of_node? found).2, (mem_of_node? there).2]
  exact less

namespace Accepted

/-- The children of a node are those that name it as a parent, in the order of their names. -/
theorem children_spec (accepted : catalog.Accepted) (member : node ∈ catalog.nodes) :
    ∃ children, catalog.children node.name = .ok children ∧
      (∀ child, child ∈ children ↔ child ∈ catalog.nodes ∧ node.name ∈ child.parents) ∧
      children.Pairwise fun child other => child.name < other.name := by
  have found : catalog.node node.name = .ok node := by
    rw [Catalog.node, accepted.node?_name member]
  refine ⟨_, by rw [children, Result.bind_of_ok found]; rfl, fun child => ?_,
    pairwise_filterMap_node? (pairwise_sortedSet _)⟩
  rw [List.mem_filterMap]
  constructor
  · rintro ⟨name, listed, isChild⟩
    obtain ⟨known, rfl⟩ := mem_of_node? isChild
    have leads := Order.mem_successors.1 (mem_sortedSet.1 listed)
    obtain ⟨other, there, same, named⟩ := leads_edges_iff.1 leads
    have equal := accepted.node?_name there
    rw [same, accepted.node?_name known] at equal
    exact ⟨known, Option.some.inj equal ▸ named⟩
  · rintro ⟨known, named⟩
    have leads : Order.Leads catalog.edges node.name child.name :=
      leads_edges_iff.2 ⟨child, known, rfl, named⟩
    exact ⟨child.name, mem_sortedSet.2 (Order.mem_successors.2 leads), accepted.node?_name known⟩

end Accepted

/-- Databases and nodes make a catalog just where they are well-formed. Its order lists every node
once, behind its parents; its children of a node are the nodes that name it as a parent, each one
once and sorted by name. -/
theorem catalogs_are_built_iff (databases : List Database) (nodes : List Node) :
    ((∃ catalog, build databases nodes = .ok catalog) ↔ WellFormed databases nodes) ∧
      ∀ catalog, build databases nodes = .ok catalog →
        catalog.databases = databases ∧ catalog.nodes = nodes ∧
        catalog.topologicalOrder.Perm (nodes.map Node.name) ∧
        (∀ node ∈ nodes, ∀ parent ∈ node.parents,
          catalog.topologicalOrder.idxOf parent < catalog.topologicalOrder.idxOf node.name) ∧
        ∀ node ∈ nodes, ∃ children, catalog.children node.name = .ok children ∧
          (∀ child, child ∈ children ↔ child ∈ nodes ∧ node.name ∈ child.parents) ∧
          children.Pairwise fun child other => child.name < other.name := by
  refine ⟨?_, fun catalog built => ?_⟩
  · rw [← accepted_iff]
    constructor
    · rintro ⟨catalog, built⟩
      exact (build_eq_ok_iff.1 built).1
    · exact fun accepted => ⟨_, build_eq_ok_iff.2 ⟨accepted, rfl⟩⟩
  · obtain ⟨accepted, rfl⟩ := build_eq_ok_iff.1 built
    obtain ⟨once, members, forward⟩ := accepted.topologicalOrder_spec
    refine ⟨rfl, rfl, (List.perm_ext_iff_of_nodup once accepted.names).2 members, ?_,
      fun node member => accepted.children_spec member⟩
    intro node member parent named
    exact forward (parent, node.name) (leads_edges_iff.2 ⟨node, member, rfl, named⟩)

/-- A report that names one of its parents twice, declared in front of its parents. -/
def reporting : List Node :=
  [{ name := "report", kind := .metric, parents := ["orders", "users", "orders"] },
    { name := "users", kind := .source },
    { name := "orders", kind := .transform, parents := ["users"] }]

/-- The report stands behind its parents, and is one child of the orders. -/
theorem catalogs_are_built_iff_reporting :
    build [] reporting = .ok { nodes := reporting } ∧
      topologicalOrder { nodes := reporting } = ["users", "orders", "report"] ∧
      ["users", "orders", "report"].Perm (reporting.map Node.name) ∧
      ∃ children, Catalog.children { nodes := reporting } "orders" = .ok children ∧
        children.map Node.name = ["report"] ∧
        ∀ child, child ∈ children ↔ child ∈ reporting ∧ "orders" ∈ child.parents := by
  have built : build [] reporting = .ok { nodes := reporting } := by decide +kernel
  have order : topologicalOrder { nodes := reporting } = ["users", "orders", "report"] := by
    decide +kernel
  obtain ⟨-, -, listed, -, each⟩ := (catalogs_are_built_iff [] reporting).2 _ built
  obtain ⟨children, done, members, -⟩ := each reporting[2] (by decide +kernel)
  have names : (Catalog.children { nodes := reporting } "orders").map (List.map Node.name) =
      .ok ["report"] := by decide +kernel
  refine ⟨built, order, order ▸ listed, children, done, ?_, members⟩
  rw [show Catalog.children { nodes := reporting } "orders" = .ok children from done] at names
  exact Except.ok.inj names

end SemanticLayer.Catalog
