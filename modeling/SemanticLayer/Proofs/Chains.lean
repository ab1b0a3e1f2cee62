import Mathlib.Data.List.Induction
import Mathlib.Data.List.Lex
import Mathlib.Data.Prod.Lex
import SemanticLayer.Proofs.Reachability

/-!
# Chains of links

A chain of links is told by its places: the index of the node it starts from, and then, for every
node it leaves, the index of the column it leaves by. The first chain to a node is the shortest one,
and of several the one whose places come first in lexicographic order. Where a first chain passes a
node, it has come there by the first chain to that node.
-/

namespace SemanticLayer.Catalog

variable {catalog : Catalog} {start : List Node}

/-! ## The order of chains -/

/-- What chains are ordered by: their length, and then their places from the front. -/
def chainKey (places : List Nat) : ℕ ×ₗ List Nat :=
  toLex (places.length, places)

variable {places others : List Nat} {i j : Nat}

theorem chainKey_lt_iff : chainKey places < chainKey others ↔
    places.length < others.length ∨ places.length = others.length ∧ places < others :=
  Prod.Lex.lt_iff

theorem chainKey_injective (same : chainKey places = chainKey others) : places = others :=
  congrArg (fun key => (ofLex key).2) same

theorem chainKey_lt_of_length_lt (shorter : places.length < others.length) :
    chainKey places < chainKey others :=
  chainKey_lt_iff.2 (.inl shorter)

theorem chainKey_lt_concat (places : List Nat) (i : Nat) :
    chainKey places < chainKey (places ++ [i]) :=
  chainKey_lt_of_length_lt (by simp)

/-- What stands behind the places of two chains of one length does not change which comes first. -/
theorem append_lt_append {front later : List Nat} (same : places.length = others.length)
    (less : places < others) : places ++ front < others ++ later := by
  induction places generalizing others with
  | nil =>
      cases others with
      | nil => exact absurd less (lt_irrefl _)
      | cons other rest => cases same
  | cons place places ih =>
      cases others with
      | nil => cases same
      | cons other rest =>
          rw [List.cons_append, List.cons_append, List.cons_lt_cons_iff]
          rcases List.cons_lt_cons_iff.1 less with first | ⟨first, less⟩
          · exact .inl first
          · exact .inr ⟨first, ih (Nat.succ.inj same) less⟩

theorem chainKey_append_lt {front later : List Nat} (less : chainKey places < chainKey others)
    (same : front.length = later.length) :
    chainKey (places ++ front) < chainKey (others ++ later) := by
  rw [chainKey_lt_iff, List.length_append, List.length_append, same]
  rcases chainKey_lt_iff.1 less with shorter | ⟨equal, less⟩
  · exact .inl (Nat.add_lt_add_right shorter _)
  · exact .inr ⟨by rw [equal], append_lt_append equal less⟩

theorem chainKey_concat_lt (places : List Nat) (less : i < j) :
    chainKey (places ++ [i]) < chainKey (places ++ [j]) :=
  chainKey_lt_iff.2 (.inr ⟨by simp, List.append_left_lt (List.cons_lt_cons_iff.2 (.inl less))⟩)

theorem chainKey_concat_le (places : List Nat) (le : i ≤ j) :
    chainKey (places ++ [i]) ≤ chainKey (places ++ [j]) := by
  rcases Nat.lt_or_eq_of_le le with less | rfl
  · exact (chainKey_concat_lt places less).le
  · exact le_rfl

/-! ## Chains -/

/-- The hop along a column of a node to the node it links to. -/
def Hop.along (node : Node) (column : NodeColumn) (target : Node) : Hop where
  source := node.name
  column := column.name
  dimension := target.name
  dimensionColumn := column.joinColumn

/-- A chain of links from one of some nodes, with its places and its hops: it starts at a node and
goes on along columns of the node that it has reached. -/
inductive Chain (catalog : Catalog) (start : List Node) : List Nat → List Hop → Node → Prop
  | root {i : Nat} {node : Node} (isRoot : start[i]? = some node) :
      Chain catalog start [i] [] node
  | link {places : List Nat} {hops : List Hop} {node target : Node} {i : Nat}
      {column : NodeColumn} (chain : Chain catalog start places hops node)
      (isColumn : node.columns[i]? = some column) (links : column.dimension = some target.name)
      (known : catalog.node? target.name = some target) :
      Chain catalog start (places ++ [i]) (hops ++ [.along node column target]) target

variable {hops ways before after : List Hop} {hop : Hop} {node other target : Node}

/-- How a chain ends: at a node to start from, or with a link. -/
theorem Chain.cases_last (chain : Chain catalog start places hops target) :
    (∃ i, places = [i] ∧ hops = [] ∧ start[i]? = some target) ∨
      ∃ front before node i column, places = front ++ [i] ∧
        hops = before ++ [.along node column target] ∧ Chain catalog start front before node ∧
          node.columns[i]? = some column ∧ column.dimension = some target.name ∧
            catalog.node? target.name = some target := by
  cases chain with
  | root isRoot => exact .inl ⟨_, rfl, rfl, isRoot⟩
  | link chain isColumn links known =>
      exact .inr ⟨_, _, _, _, _, rfl, rfl, chain, isColumn, links, known⟩

theorem Chain.length_eq (chain : Chain catalog start places hops node) :
    places.length = hops.length + 1 := by
  induction chain with
  | root isRoot => rfl
  | link _ _ _ _ ih => simp [ih]

/-- The places of a chain tell its hops and where it leads. -/
theorem Chain.unique (chain : Chain catalog start places hops node)
    (again : Chain catalog start places ways other) : hops = ways ∧ node = other := by
  induction chain generalizing ways other with
  | root isRoot =>
      rcases again.cases_last with
        ⟨i, same, rfl, isRootToo⟩ | ⟨front, _, _, i, _, same, _, chain, _⟩
      · cases List.singleton_inj.1 same
        exact ⟨rfl, Option.some.inj (isRoot.symm.trans isRootToo)⟩
      · have long := congrArg List.length same
        have some := chain.length_eq
        simp only [List.length_singleton, List.length_append] at long
        omega
  | link chain isColumn links known ih =>
      rcases again.cases_last with ⟨i, same, _⟩ | ⟨front, _, _, _, _, same, rfl, first, isColumnToo,
          linksToo, knownToo⟩
      · have long := congrArg List.length same
        have some := chain.length_eq
        simp only [List.length_singleton, List.length_append] at long
        omega
      · obtain ⟨rfl, last⟩ := List.append_inj' same rfl
        cases List.singleton_inj.1 last
        obtain ⟨rfl, rfl⟩ := ih first
        cases isColumn.symm.trans isColumnToo
        rw [Option.some.inj (links.symm.trans linksToo)] at known
        cases known.symm.trans knownToo
        exact ⟨rfl, rfl⟩

/-- The hop that a chain passes ends a chain, which the rest of the places goes on from. -/
theorem Chain.split (chain : Chain catalog start places (before ++ hop :: after) node) :
    ∃ front later middle, places = front ++ later ∧
      Chain catalog start front (before ++ [hop]) middle ∧ middle.name = hop.dimension := by
  generalize whole : before ++ hop :: after = hops at chain
  induction chain generalizing after with
  | root _ => simp at whole
  | @link places hops node target i column chain isColumn links known ih =>
      rcases List.eq_nil_or_concat after with rfl | ⟨rest, last, rfl⟩
      · obtain ⟨rfl, same⟩ := List.append_inj' whole rfl
        cases List.singleton_inj.1 same
        exact ⟨places ++ [i], [], target, by simp, .link chain isColumn links known, rfl⟩
      · rw [List.concat_eq_append, ← List.cons_append, ← List.append_assoc] at whole
        obtain ⟨earlier, _⟩ := List.append_inj' whole rfl
        obtain ⟨front, later, middle, rfl, first, same⟩ := ih earlier
        exact ⟨front, later ++ [i], middle, by simp, first, same⟩

/-- What goes on from the node that one chain leads to goes on from it after any other chain. -/
theorem Chain.graft {front later : List Nat} (chain : Chain catalog start front hops node)
    (whole : Chain catalog start (front ++ later) ways target) :
    ∃ rest, ways = hops ++ rest ∧ ∀ places before, Chain catalog start places before node →
      Chain catalog start (places ++ later) (before ++ rest) target := by
  induction later using List.reverseRecOn generalizing ways target with
  | nil =>
      rw [List.append_nil] at whole
      obtain ⟨rfl, rfl⟩ := chain.unique whole
      refine ⟨[], by simp, fun places before instead => ?_⟩
      rwa [List.append_nil, List.append_nil]
  | append_singleton later i ih =>
      rcases whole.cases_last with
        ⟨j, same, _⟩ | ⟨places, before, middle, j, column, same, rfl, first, isColumn, links, known⟩
      · have long := congrArg List.length same
        have some := chain.length_eq
        simp only [List.length_singleton, List.length_append] at long
        omega
      · rw [← List.append_assoc] at same
        obtain ⟨rfl, last⟩ := List.append_inj' same rfl
        cases List.singleton_inj.1 last
        obtain ⟨rest, rfl, goes⟩ := ih first
        refine ⟨rest ++ [.along middle column target], by simp, fun places before instead => ?_⟩
        rw [← List.append_assoc, ← List.append_assoc]
        exact .link (goes places before instead) isColumn links known

theorem Chain.reached (chain : Chain catalog start places hops node) :
    catalog.Reached start node := by
  induction chain with
  | root isRoot => exact .root (List.mem_of_getElem? isRoot)
  | link _ isColumn links known ih =>
      exact ih.link (.of_column (List.mem_of_getElem? isColumn) links known)

/-- What links lead to has a chain that leads there. -/
theorem Reached.exists_chain (reached : catalog.Reached start node) :
    ∃ places hops, Chain catalog start places hops node := by
  induction reached with
  | root member =>
      obtain ⟨i, isRoot⟩ := List.getElem?_of_mem member
      exact ⟨[i], [], .root isRoot⟩
  | link _ leads ih =>
      obtain ⟨places, hops, chain⟩ := ih
      obtain ⟨name, links, known⟩ := leads
      obtain ⟨column, member, isDimension⟩ := mem_links.1 links
      obtain ⟨i, isColumn⟩ := List.getElem?_of_mem member
      obtain ⟨_, rfl⟩ := mem_of_node? known
      exact ⟨_, _, .link chain isColumn isDimension known⟩

/-- A chain ends at a node of the name if links lead to the name. -/
theorem leadsTo_iff_exists_chain {name : String} :
    catalog.LeadsTo start name ↔
      ∃ places hops node, Chain catalog start places hops node ∧ node.name = name := by
  constructor
  · rintro ⟨node, reached, same⟩
    obtain ⟨places, hops, chain⟩ := reached.exists_chain
    exact ⟨places, hops, node, chain, same⟩
  · rintro ⟨_, _, node, chain, same⟩
    exact ⟨node, chain.reached, same⟩

/-! ## First chains -/

/-- A chain that no other chain to a node of that name comes before. -/
structure FirstChain (catalog : Catalog) (start : List Node) (places : List Nat)
    (hops : List Hop) (node : Node) : Prop where
  chain : Chain catalog start places hops node
  least : ∀ others ways other, Chain catalog start others ways other → other.name = node.name →
    chainKey places ≤ chainKey others

/-- There is one first chain to a name. -/
theorem FirstChain.unique (first : FirstChain catalog start places hops node)
    (again : FirstChain catalog start others ways other) (same : node.name = other.name) :
    places = others ∧ hops = ways ∧ node = other := by
  have before := first.least _ _ _ again.chain same.symm
  have after := again.least _ _ _ first.chain same
  cases chainKey_injective (le_antisymm before after)
  exact ⟨rfl, first.chain.unique again.chain⟩

/-- Where a first chain passes a node, it has come there by a first chain. -/
theorem FirstChain.of_append (accepted : catalog.Accepted) (inside : start ⊆ catalog.nodes)
    (first : FirstChain catalog start places (before ++ hop :: after) node) :
    ∃ front middle, FirstChain catalog start front (before ++ [hop]) middle ∧
      middle.name = hop.dimension := by
  obtain ⟨front, later, middle, rfl, chain, same⟩ := first.chain.split
  refine ⟨front, middle, ⟨chain, fun others ways other instead called => ?_⟩, same⟩
  have here : other = middle :=
    accepted.eq_of_name (instead.reached.mem inside) (chain.reached.mem inside) called
  subst here
  -- An earlier chain to the middle, grafted onto the rest, would come before the whole chain.
  obtain ⟨rest, _, goes⟩ := chain.graft first.chain
  by_contra before
  have less := chainKey_append_lt (not_le.1 before) (rfl : later.length = later.length)
  exact absurd (first.least _ _ _ (goes others ways instead) rfl) (not_le.2 less)

/-- Where two first chains pass nodes of one name, they have come there by the same hops. -/
theorem FirstChain.agree {earlier later : List Hop} {step : Hop} (accepted : catalog.Accepted)
    (inside : start ⊆ catalog.nodes)
    (first : FirstChain catalog start places (before ++ hop :: after) node)
    (second : FirstChain catalog start others (earlier ++ step :: later) other)
    (same : hop.dimension = step.dimension) : before = earlier ∧ hop = step := by
  obtain ⟨_, middle, here, called⟩ := first.of_append accepted inside
  obtain ⟨_, crossing, there, calledToo⟩ := second.of_append accepted inside
  have hops := (here.unique there (by rw [called, same, calledToo])).2.1
  obtain ⟨equal, last⟩ := List.append_inj' hops rfl
  exact ⟨equal, List.singleton_inj.1 last⟩

/-- A first chain reaches no node twice. -/
theorem FirstChain.nodup (accepted : catalog.Accepted) (inside : start ⊆ catalog.nodes)
    (first : FirstChain catalog start places hops node) : (hops.map Hop.dimension).Nodup := by
  suffices fronts : ∀ front rest, hops = front ++ rest → (front.map Hop.dimension).Nodup from
    fronts hops [] (List.append_nil hops).symm
  intro front rest whole
  induction front using List.reverseRecOn generalizing rest with
  | nil => exact List.nodup_nil
  | append_singleton front hop ih =>
      rw [List.append_assoc, List.singleton_append] at whole
      rw [List.map_append, List.map_singleton, List.nodup_append]
      refine ⟨ih _ whole, List.nodup_singleton _, ?_⟩
      rintro name before last here rfl
      obtain ⟨step, member, same⟩ := List.mem_map.1 before
      obtain ⟨earlier, later, rfl⟩ := List.append_of_mem member
      cases List.mem_singleton.1 here
      rw [whole] at first
      -- The chain agrees with itself, so it would have come to both places by equally many hops.
      have again := first
      rw [List.append_assoc, List.cons_append] at again
      have equal := (again.agree accepted inside first same).1
      exact absurd (congrArg List.length equal) (by simp)

end SemanticLayer.Catalog
