import Mathlib.Data.List.Nodup
import Mathlib.Data.List.Count
import SemanticLayer.Catalog.Basic
import SemanticLayer.Proofs.Outcomes

/-!
# Parents come first

The search for a topological order sees every node and finishes it, within the number of steps that
it is given. An order it ends with lists every node once, and what an edge leads from stands in
front of what it leads to. So the nodes of a catalog have ranks that grow from parents to children
and stay below the number of nodes.
-/

namespace SemanticLayer.Catalog

namespace Order

variable {nodes : List String} {edges : Edges}

theorem mem_successors {node other : String} :
    other ∈ successors edges node ↔ (node, other) ∈ edges := by
  simp [successors]

theorem mem_predecessors {node other : String} :
    other ∈ predecessors edges node ↔ (other, node) ∈ edges := by
  simp [predecessors]

theorem mem_push {next seen stack : List String} {node : String} :
    node ∈ push next seen stack ↔ (node ∈ next ∧ node ∉ seen) ∨ node ∈ stack := by
  simp [push]

theorem length_push_le (next seen stack : List String) :
    (push next seen stack).length ≤ next.length + stack.length := by
  rw [push, List.length_append, List.length_reverse]
  exact Nat.add_le_add_right (List.length_filter_le _ next) _

/-! ## The steps of a search -/

/-- What is left to do at those of some nodes that were not seen: to mark each of them, and to take
its successors off the stack. -/
def ahead (edges : Edges) (seen : List String) : List String → Nat
  | [] => 0
  | node :: rest =>
    (if node ∈ seen then 0 else (successors edges node).length + 1) + ahead edges seen rest

theorem ahead_cons_le_self (seen : List String) (node : String) (others : List String) :
    ahead edges (node :: seen) others ≤ ahead edges seen others := by
  induction others with
  | nil => exact Nat.le_refl _
  | cons other others ih =>
      unfold ahead
      grind

theorem ahead_le_nil (seen others : List String) :
    ahead edges seen others ≤ ahead edges [] others := by
  induction seen with
  | nil => exact Nat.le_refl _
  | cons node seen ih => exact Nat.le_trans (ahead_cons_le_self seen node others) ih

/-- A node that is marked is no longer ahead. -/
theorem ahead_cons_le {seen : List String} {node : String} (member : node ∈ nodes)
    (new : node ∉ seen) :
    ahead edges (node :: seen) nodes + ((successors edges node).length + 1) ≤
      ahead edges seen nodes := by
  induction nodes with
  | nil => cases member
  | cons other others ih =>
      unfold ahead
      rcases List.mem_cons.1 member with rfl | later
      · have rest : ahead edges (node :: seen) others ≤ ahead edges seen others :=
          ahead_cons_le_self seen node others
        simp only [List.mem_cons_self, if_true, new, if_false]
        omega
      · have rest := ih later
        grind

theorem length_successors_cons (edge : String × String) (node : String) :
    (successors (edge :: edges) node).length =
      (successors edges node).length + if edge.1 = node then 1 else 0 := by
  by_cases leads : edge.1 = node
  · simp [successors, leads]
  · simp [successors, leads]

theorem ahead_edges_cons (edge : String × String) (nodes : List String) :
    ahead (edge :: edges) [] nodes = ahead edges [] nodes + nodes.count edge.1 := by
  induction nodes with
  | nil => rfl
  | cons node rest ih =>
      simp only [ahead, List.not_mem_nil, if_false, length_successors_cons, ih, List.count_cons,
        beq_iff_eq, eq_comm (a := edge.1)]
      omega

/-- At the start an edge is ahead of one node at most. -/
theorem ahead_nil_le (distinct : nodes.Nodup) :
    ahead edges [] nodes ≤ nodes.length + edges.length := by
  induction edges with
  | nil =>
      clear distinct
      induction nodes with
      | nil => exact Nat.le_refl _
      | cons node rest ih =>
          have alone : (successors [] node).length = 0 := rfl
          simp only [ahead, List.not_mem_nil, if_false, alone, List.length_cons]
          omega
  | cons edge edges ih =>
      have once := List.nodup_iff_count_le_one.1 distinct edge.1
      rw [ahead_edges_cons, List.length_cons]
      omega

/-! ## The search -/

/-- A state of the search among some nodes: what was seen is on the stack or finished, what is
finished was seen and is listed once, and nothing that was seen leads to itself. -/
structure Search.Sound (nodes : List String) (edges : Edges) (state : Search) : Prop where
  inside : ∀ node ∈ state.stack ++ state.seen, node ∈ nodes
  pending : ∀ node ∈ state.seen, node ∈ state.stack ∨ node ∈ state.finished
  past : ∀ node ∈ state.finished, node ∈ state.seen
  distinct : state.finished.Nodup
  loopless : ∀ node ∈ state.seen, (node, node) ∉ edges

theorem Search.Sound.start : Search.Sound nodes edges {} :=
  ⟨fun _ member => absurd member List.not_mem_nil, fun _ member => absurd member List.not_mem_nil,
    fun _ member => absurd member List.not_mem_nil, List.nodup_nil,
    fun _ member => absurd member List.not_mem_nil⟩

variable {state after : Search}

/-- A node that was seen before is taken off the stack, and is finished now if it was not. -/
theorem Search.Sound.finish {node : String} {rest : List String}
    (sound : state.Sound nodes edges) (front : state.stack = node :: rest)
    (known : node ∈ state.seen) :
    Search.Sound nodes edges
      { state with
        stack := rest
        finished :=
          if state.finished.contains node then state.finished else node :: state.finished } := by
  have members (other : String) : other ∈ (if state.finished.contains node then state.finished
      else node :: state.finished) ↔ other = node ∨ other ∈ state.finished := by
    split
    next there =>
      constructor
      · exact .inr
      · rintro (rfl | member)
        · simpa using there
        · exact member
    next => exact List.mem_cons
  constructor
  · intro other member
    apply sound.inside other
    rw [front]
    exact List.mem_cons_of_mem node member
  · intro other seen
    rw [members]
    rcases sound.pending other seen with stacked | finished
    · rw [front, List.mem_cons] at stacked
      rcases stacked with rfl | later
      · exact .inr (.inl rfl)
      · exact .inl later
    · exact .inr (.inr finished)
  · intro other finished
    rcases (members other).1 finished with rfl | before
    · exact known
    · exact sound.past other before
  · split
    · exact sound.distinct
    next absent => exact List.nodup_cons.2 ⟨by simpa using absent, sound.distinct⟩
  · exact sound.loopless

/-- A node that was not seen is marked, and what it leads to is put on the stack. -/
theorem Search.Sound.mark {node : String} {rest : List String}
    (sound : state.Sound nodes edges) (closed : ∀ edge ∈ edges, edge.2 ∈ nodes)
    (front : state.stack = node :: rest) (loopless : node ∉ successors edges node) :
    Search.Sound nodes edges
      { state with
        seen := node :: state.seen
        stack := push (successors edges node) (node :: state.seen) state.stack } := by
  constructor
  · intro other member
    rcases List.mem_append.1 member with stacked | seen
    · rcases mem_push.1 stacked with ⟨next, -⟩ | before
      · exact closed _ (mem_successors.1 next)
      · exact sound.inside other (List.mem_append_left _ before)
    · rcases List.mem_cons.1 seen with rfl | before
      · exact sound.inside other (List.mem_append_left _ (by simp [front]))
      · exact sound.inside other (List.mem_append_right _ before)
  · intro other seen
    rcases List.mem_cons.1 seen with rfl | before
    · exact .inl (mem_push.2 (.inr (by simp [front])))
    · rcases sound.pending other before with stacked | finished
      · exact .inl (mem_push.2 (.inr stacked))
      · exact .inr finished
  · intro other finished
    exact List.mem_cons_of_mem node (sound.past other finished)
  · exact sound.distinct
  · intro other seen
    rcases List.mem_cons.1 seen with rfl | before
    · exact fun loop => loopless (mem_successors.2 loop)
    · exact sound.loopless other before

/-- A search keeps what it has seen. If it has enough steps it sees all that is on the stack, and
leaves nothing there. -/
theorem Search.Sound.search {fuel : Nat} (sound : state.Sound nodes edges)
    (closed : ∀ edge ∈ edges, edge.2 ∈ nodes)
    (enough : state.stack.length + ahead edges state.seen nodes ≤ fuel)
    (done : Order.search edges fuel state = .ok after) :
    after.Sound nodes edges ∧ after.stack = [] ∧
      ∀ node ∈ state.stack ++ state.seen, node ∈ after.seen := by
  induction fuel generalizing state with
  | zero =>
      have empty : state.stack = [] := List.length_eq_zero_iff.1 (by omega)
      cases done
      rw [empty]
      exact ⟨sound, rfl, fun node member => member⟩
  | succ fuel ih =>
      rw [Order.search] at done
      split at done
      next empty =>
        cases done
        rw [empty]
        exact ⟨sound, rfl, fun node member => member⟩
      next node rest front =>
        rw [front, List.length_cons] at enough
        split at done
        next known =>
          have known : node ∈ state.seen := by simpa using known
          obtain ⟨last, empty, all⟩ := ih (sound.finish front known) (by simp only; omega) done
          refine ⟨last, empty, fun other member => ?_⟩
          rw [front] at member
          rcases List.mem_cons.1 member with rfl | later
          · exact all other (List.mem_append_right _ known)
          · exact all other later
        next new =>
          have new : node ∉ state.seen := by simpa using new
          dsimp only at done
          split at done
          · cases done
          next loopless =>
            have loopless : node ∉ successors edges node := by simpa using loopless
            have member : node ∈ nodes :=
              sound.inside node (List.mem_append_left _ (by simp [front]))
            have less : ahead edges (node :: state.seen) nodes +
                ((successors edges node).length + 1) ≤ ahead edges state.seen nodes :=
              ahead_cons_le member new
            have pushed := length_push_le (successors edges node) (node :: state.seen) state.stack
            rw [front, List.length_cons] at pushed
            obtain ⟨last, empty, all⟩ :=
              ih (sound.mark closed front loopless) (by rw [front]; simp only; omega) done
            refine ⟨last, empty, fun other member => all other ?_⟩
            rcases List.mem_append.1 member with stacked | seen
            · exact List.mem_append_left _ (mem_push.2 (.inr stacked))
            · exact List.mem_append_right _ (List.mem_cons_of_mem node seen)

/-- One node after the other is searched from, unless it was seen. -/
theorem Search.Sound.searchAll {rest : List String} (sound : state.Sound nodes edges)
    (distinct : nodes.Nodup) (closed : ∀ edge ∈ edges, edge.2 ∈ nodes) (empty : state.stack = [])
    (inside : rest ⊆ nodes)
    (done : rest.foldlM (fun (state : Search) node =>
      if state.seen.contains node then .ok state
      else Order.search edges (searchBound nodes edges) { state with stack := [node] }) state =
        .ok after) :
    after.Sound nodes edges ∧ after.stack = [] ∧ ∀ node ∈ rest ++ state.seen, node ∈ after.seen := by
  induction rest generalizing state with
  | nil =>
      cases Result.pure_eq_ok.1 done
      exact ⟨sound, empty, fun node member => member⟩
  | cons node rest ih =>
      obtain ⟨first, others⟩ := List.cons_subset.1 inside
      rw [List.foldlM_cons, Result.bind_eq_ok] at done
      obtain ⟨next, step, later⟩ := done
      have reached : next.Sound nodes edges ∧ next.stack = [] ∧
          ∀ other ∈ node :: state.seen, other ∈ next.seen := by
        split at step
        next known =>
          cases step
          refine ⟨sound, empty, fun other member => ?_⟩
          rcases List.mem_cons.1 member with rfl | before
          · simpa using known
          · exact before
        next =>
          have start : Search.Sound nodes edges { state with stack := [node] } := by
            refine ⟨?_, ?_, sound.past, sound.distinct, sound.loopless⟩
            · intro other member
              rcases List.mem_cons.1 member with rfl | before
              · exact first
              · exact sound.inside other (List.mem_append_right _ before)
            · intro other seen
              have finished := sound.pending other seen
              rw [empty] at finished
              exact .inr (finished.resolve_left (List.not_mem_nil))
          have bound : ahead edges [] nodes ≤ nodes.length + edges.length :=
            ahead_nil_le distinct
          have less : ahead edges state.seen nodes ≤ ahead edges [] nodes := ahead_le_nil _ _
          apply start.search closed _ step
          rw [searchBound, List.length_singleton]
          simp only
          omega
      obtain ⟨last, stack, all⟩ := ih reached.1 reached.2.1 others later
      refine ⟨last, stack, fun other member => all other ?_⟩
      rw [List.mem_append] at member ⊢
      rcases member with here | before
      · rcases List.mem_cons.1 here with rfl | after
        · exact .inr (reached.2.2 other List.mem_cons_self)
        · exact .inl after
      · exact .inr (reached.2.2 other (List.mem_cons_of_mem node before))

/-- The nodes are finished once each, and none of them leads to itself. -/
theorem finishing_eq_ok {order : List String} (distinct : nodes.Nodup)
    (closed : ∀ edge ∈ edges, edge.2 ∈ nodes) (done : finishing nodes edges = .ok order) :
    order.Nodup ∧ (∀ node, node ∈ order ↔ node ∈ nodes) ∧ ∀ node ∈ nodes, (node, node) ∉ edges := by
  obtain ⟨last, run, same⟩ := Result.bind_eq_ok.1 done
  cases Result.pure_eq_ok.1 same
  obtain ⟨sound, empty, all⟩ := Search.Sound.start.searchAll distinct closed rfl (List.Subset.refl _) run
  have seen (node : String) (member : node ∈ nodes) : node ∈ last.seen :=
    all node (List.mem_append_left _ member)
  refine ⟨sound.distinct, fun node => ⟨fun finished => ?_, fun member => ?_⟩, fun node member => ?_⟩
  · exact sound.inside node (List.mem_append_right _ (sound.past node finished))
  · have finished := sound.pending node (seen node member)
    rw [empty] at finished
    exact finished.resolve_left List.not_mem_nil
  · exact sound.loopless node (seen node member)

/-! ## The check of the order -/

/-- A node is passed only if all that leads to it was passed before, or is the node itself. -/
theorem trace_eq_ok {fuel : Nat} {node : String} {seen after : List String} (enough : 2 ≤ fuel)
    (done : trace edges fuel false [node] seen = .ok after) :
    (node ∈ seen ∧ after = seen) ∨
      (after = node :: seen ∧ ∀ other ∈ predecessors edges node, other ∈ node :: seen) := by
  obtain ⟨fuel, rfl⟩ := Nat.exists_eq_add_of_le' enough
  rw [trace] at done
  split at done
  next known =>
    rw [trace] at done
    cases done
    exact .inl ⟨by simpa using known, rfl⟩
  next =>
    right
    dsimp only at done
    rw [if_neg Bool.false_ne_true] at done
    have none : push (predecessors edges node) (node :: seen) [] = [] := by
      by_contra some
      obtain ⟨other, rest, found⟩ := List.exists_cons_of_ne_nil some
      have new : other ∉ node :: seen := by
        have pushed : other ∈ push (predecessors edges node) (node :: seen) [] := by
          rw [found]
          exact List.mem_cons_self
        rcases mem_push.1 pushed with ⟨-, new⟩ | below
        · exact new
        · cases below
      rw [found, trace, if_neg (by simpa using new), if_pos rfl] at done
      cases done
    rw [none, trace] at done
    cases done
    refine ⟨rfl, fun other member => ?_⟩
    by_contra new
    have pushed : other ∈ push (predecessors edges node) (node :: seen) [] :=
      mem_push.2 (.inl ⟨member, new⟩)
    rw [none] at pushed
    cases pushed

/-- All that leads to a node of an order that is passed stands in front of it, or was passed
before. -/
theorem idxOf_lt_of_trace {fuel : Nat} {order seen after : List String} (enough : 2 ≤ fuel)
    (done : order.foldlM (fun seen node => trace edges fuel false [node] seen) seen = .ok after)
    {node other : String} (member : node ∈ order) (new : node ∉ seen)
    (leads : (other, node) ∈ edges) :
    other = node ∨ other ∈ seen ∨ order.idxOf other < order.idxOf node := by
  induction order generalizing seen with
  | nil => cases member
  | cons first rest ih =>
      rw [List.foldlM_cons, Result.bind_eq_ok] at done
      obtain ⟨next, step, later⟩ := done
      by_cases same : node = first
      · subst same
        rcases trace_eq_ok enough step with ⟨known, -⟩ | ⟨-, before⟩
        · exact absurd known new
        · have passed := before other (mem_predecessors.2 leads)
          rcases List.mem_cons.1 passed with rfl | earlier
          · exact .inl rfl
          · exact .inr (.inl earlier)
      · have inRest : node ∈ rest := (List.mem_cons.1 member).resolve_left same
        have within : next ⊆ first :: seen := by
          rcases trace_eq_ok enough step with ⟨-, rfl⟩ | ⟨rfl, -⟩
          · exact List.subset_cons_self first _
          · exact List.Subset.refl _
        have newToo : node ∉ next := fun passed =>
          (List.mem_cons.1 (within passed)).elim same new
        by_cases front : other = first
        · subst front
          right; right
          rw [List.idxOf_cons_self, List.idxOf_cons_ne _ (Ne.symm same)]
          exact Nat.succ_pos _
        · rcases ih later inRest newToo with equal | passed | less
          · exact .inl equal
          · exact .inr (.inl ((List.mem_cons.1 (within passed)).resolve_left front))
          · right; right
            rw [List.idxOf_cons_ne _ (Ne.symm front), List.idxOf_cons_ne _ (Ne.symm same)]
            exact Nat.succ_lt_succ less

/-- A topological order lists every node once, and every edge leads forward in it. -/
theorem topological_eq_ok {order : List String} (distinct : nodes.Nodup)
    (closed : ∀ edge ∈ edges, edge.2 ∈ nodes) (done : topological nodes edges = .ok order) :
    order.Nodup ∧ (∀ node, node ∈ order ↔ node ∈ nodes) ∧
      ∀ edge ∈ edges, order.idxOf edge.1 < order.idxOf edge.2 := by
  obtain ⟨found, first, rest⟩ := Result.bind_eq_ok.1 done
  obtain ⟨_, passed, same⟩ := Result.bind_eq_ok.1 rest
  cases Result.pure_eq_ok.1 same
  obtain ⟨once, members, loopless⟩ := finishing_eq_ok distinct closed first
  refine ⟨once, members, fun (source, target) member => ?_⟩
  have known : target ∈ nodes := closed _ member
  have enough : 2 ≤ searchBound nodes edges := by
    have some := List.length_pos_of_mem member
    rw [searchBound]
    omega
  rcases idxOf_lt_of_trace enough passed ((members target).2 known) List.not_mem_nil member with
    rfl | before | less
  · exact absurd member (loopless source known)
  · cases before
  · exact less

end Order

/-! ## Catalogs that are accepted -/

theorem nodup_of_firstRepeated? {α : Type} [BEq α] [LawfulBEq α] {seen items : List α}
    (none : firstRepeated? seen items = none) : items.Nodup ∧ ∀ item ∈ items, item ∉ seen := by
  induction items generalizing seen with
  | nil => exact ⟨List.nodup_nil, fun _ member => absurd member List.not_mem_nil⟩
  | cons item rest ih =>
      rw [firstRepeated?] at none
      split at none
      · cases none
      next new =>
        obtain ⟨distinct, fresh⟩ := ih none
        refine ⟨List.nodup_cons.2 ⟨fun later => fresh item later List.mem_cons_self, distinct⟩, ?_⟩
        intro other member
        rcases List.mem_cons.1 member with rfl | later
        · simpa using new
        · exact fun before => fresh other later (List.mem_cons_of_mem item before)

theorem refuse_eq_ok {fault : Option CatalogFault} (done : refuse fault = .ok ()) : fault = none := by
  cases fault with
  | none => rfl
  | some found => cases done

/-- What holds of a catalog that is accepted: ids and names are different, what nodes name exists,
and no node is its own ancestor. -/
structure Accepted (catalog : Catalog) : Prop where
  ids : (catalog.databases.map Database.id).Nodup
  names : (catalog.nodes.map Node.name).Nodup
  references : ∀ node ∈ catalog.nodes, catalog.unknownReference? node = none
  acyclic : catalog.cycle? = none

theorem accepted_of_build {databases : List Database} {nodes : List Node} {catalog : Catalog}
    (built : build databases nodes = .ok catalog) : catalog.Accepted := by
  obtain ⟨_, ids, rest⟩ := Result.bind_eq_ok.1 built
  obtain ⟨_, names, rest⟩ := Result.bind_eq_ok.1 rest
  obtain ⟨_, references, rest⟩ := Result.bind_eq_ok.1 rest
  obtain ⟨_, acyclic, same⟩ := Result.bind_eq_ok.1 rest
  cases Result.pure_eq_ok.1 same
  have ids := Option.map_eq_none_iff.1 (refuse_eq_ok ids)
  have names := Option.map_eq_none_iff.1 (refuse_eq_ok names)
  have references := List.findSome?_eq_none_iff.1 (refuse_eq_ok references)
  exact ⟨(nodup_of_firstRepeated? ids).1, (nodup_of_firstRepeated? names).1, references,
    refuse_eq_ok acyclic⟩

variable {catalog : Catalog} {node parent : Node}

theorem mem_of_node? {name : String} (found : catalog.node? name = some node) :
    node ∈ catalog.nodes ∧ node.name = name :=
  ⟨List.mem_of_find?_eq_some found, by simpa using List.find?_some found⟩

theorem mem_of_mem_parents (member : parent ∈ catalog.parents node) :
    parent ∈ catalog.nodes ∧ parent.name ∈ node.parents := by
  obtain ⟨name, there, found⟩ := List.mem_filterMap.1 member
  obtain ⟨known, rfl⟩ := mem_of_node? found
  exact ⟨known, there⟩

namespace Accepted

/-- A node is found by its name. -/
theorem node?_name (accepted : catalog.Accepted) (member : node ∈ catalog.nodes) :
    catalog.node? node.name = some node := by
  have distinct := accepted.names
  rw [node?]
  generalize catalog.nodes = nodes at member distinct
  induction nodes with
  | nil => cases member
  | cons first rest ih =>
      rw [List.map_cons, List.nodup_cons] at distinct
      rcases List.mem_cons.1 member with rfl | later
      · simp
      · have differs : first.name ≠ node.name := fun same =>
          distinct.1 (same ▸ List.mem_map_of_mem later)
        rw [List.find?_cons_of_neg (by simpa using differs)]
        exact ih later distinct.2

/-- The order of an accepted catalog lists the name of every node once, and parents first. -/
theorem topologicalOrder_spec (accepted : catalog.Accepted) :
    catalog.topologicalOrder.Nodup ∧
      (∀ name, name ∈ catalog.topologicalOrder ↔ name ∈ catalog.nodes.map Node.name) ∧
        ∀ edge ∈ catalog.edges,
          catalog.topologicalOrder.idxOf edge.1 < catalog.topologicalOrder.idxOf edge.2 := by
  have closed : ∀ edge ∈ catalog.edges, edge.2 ∈ catalog.nodes.map Node.name := by
    intro edge member
    obtain ⟨node, there, inside⟩ := List.mem_flatMap.1 member
    obtain ⟨parent, _, rfl⟩ := List.mem_map.1 inside
    exact List.mem_map_of_mem there
  have acyclic := accepted.acyclic
  rw [cycle?] at acyclic
  rw [topologicalOrder]
  split at acyclic
  next order done => exact Order.topological_eq_ok accepted.names closed done
  next => cases acyclic

end Accepted

/-- How many nodes come before a node in topological order. -/
def rank (catalog : Catalog) (node : Node) : Nat :=
  catalog.topologicalOrder.idxOf node.name

namespace Accepted

theorem rank_lt_length (accepted : catalog.Accepted) (member : node ∈ catalog.nodes) :
    catalog.rank node < catalog.nodes.length := by
  obtain ⟨once, members, -⟩ := accepted.topologicalOrder_spec
  have listed := (members node.name).2 (List.mem_map_of_mem member)
  have all : catalog.topologicalOrder.length ≤ (catalog.nodes.map Node.name).length :=
    (List.subperm_of_subset once fun name there => (members name).1 there).length_le
  rw [List.length_map] at all
  exact Nat.lt_of_lt_of_le (List.idxOf_lt_length_iff.2 listed) all

/-- A parent has a lower rank than its child. -/
theorem rank_parent_lt (accepted : catalog.Accepted) (member : node ∈ catalog.nodes)
    (isParent : parent ∈ catalog.parents node) : catalog.rank parent < catalog.rank node := by
  obtain ⟨-, -, forward⟩ := accepted.topologicalOrder_spec
  apply forward (parent.name, node.name)
  exact List.mem_flatMap.2
    ⟨node, member, List.mem_map_of_mem (mem_of_mem_parents isParent).2⟩

end Accepted

end SemanticLayer.Catalog
