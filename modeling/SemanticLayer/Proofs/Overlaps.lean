import SemanticLayer.Proofs.Breadth
import SemanticLayer.Proofs.Routes

/-!
# Paths that overlap

Paths from the same nodes are first chains, so those that meet have come to where they meet by the
same hops. Joining along one path after another therefore adds one join for each node on the paths,
after the join of the node that the hop leaves and on the columns of that hop.
-/

namespace SemanticLayer

/-! ## Hops that are new -/

namespace Catalog

variable {catalog : Catalog} {start : List Node} {known joined dimensions : List String} {hop : Hop}
  {path hops : List Hop} {paths : List (List Hop)}

/-- Where two paths lead to a node of one name, they do so by the same hops. -/
def Agree (path other : List Hop) : Prop :=
  ∀ before hop after earlier step later, path = before ++ hop :: after →
    other = earlier ++ step :: later → hop.dimension = step.dimension →
      before = earlier ∧ hop = step

/-- Hops to one node are one hop. -/
def Unambiguous (hops : List Hop) : Prop :=
  ∀ hop ∈ hops, ∀ step ∈ hops, hop.dimension = step.dimension → hop = step

theorem Unambiguous.of_agree (agree : ∀ path ∈ paths, ∀ other ∈ paths, Agree path other) :
    Unambiguous paths.flatten := by
  intro hop onPath step onOther same
  obtain ⟨path, isPath, member⟩ := List.mem_flatten.1 onPath
  obtain ⟨other, isOther, memberToo⟩ := List.mem_flatten.1 onOther
  obtain ⟨before, after, whole⟩ := List.append_of_mem member
  obtain ⟨earlier, later, wholeToo⟩ := List.append_of_mem memberToo
  exact (agree path isPath other isOther _ _ _ _ _ _ whole wholeToo same).2

/-- Paths to several dimensions. -/
theorem exists_paths
    (each : ∀ dimension ∈ dimensions, (catalog.dimensionPath start dimension).isSome) :
    ∃ paths : List (List Hop), dimensions.map (catalog.dimensionPath start) = paths.map some := by
  induction dimensions with
  | nil => exact ⟨[], rfl⟩
  | cons dimension dimensions ih =>
      rw [List.forall_mem_cons] at each
      obtain ⟨path, found⟩ := Option.isSome_iff_exists.1 each.1
      obtain ⟨paths, others⟩ := ih each.2
      exact ⟨path :: paths, by rw [List.map_cons, found, others, List.map_cons]⟩

/-- Two paths from the same nodes agree. -/
theorem Accepted.agree_of_dimensionPath {other : List Hop} {dimension another : String}
    (accepted : catalog.Accepted) (inside : start ⊆ catalog.nodes)
    (found : catalog.dimensionPath start dimension = some path)
    (foundToo : catalog.dimensionPath start another = some other) : Agree path other := by
  rintro before hop after earlier step later rfl rfl same
  obtain ⟨_, _, first, _⟩ := accepted.firstChain_of_dimensionPath inside found
  obtain ⟨_, _, second, _⟩ := accepted.firstChain_of_dimensionPath inside foundToo
  exact first.agree accepted inside second same

theorem Linked.mono {more : List String} (linked : Linked known path) (fits : known ⊆ more) :
    Linked more path := by
  induction path generalizing known more with
  | nil => trivial
  | cons hop path ih => exact ⟨fits linked.1, ih linked.2 (List.cons_subset_cons _ fits)⟩

theorem Linked.append {other : List Hop} (linked : Linked known path)
    (linkedToo : Linked known other) : Linked known (path ++ other) := by
  induction path generalizing known with
  | nil => exact linkedToo
  | cons hop path ih =>
      exact ⟨linked.1, ih linked.2 (linkedToo.mono (List.subset_cons_self _ _))⟩

theorem Linked.flatten (each : ∀ path ∈ paths, Linked known path) : Linked known paths.flatten := by
  induction paths with
  | nil => trivial
  | cons path paths ih =>
      rw [List.forall_mem_cons] at each
      exact each.1.append (ih each.2)

/-- Each of the paths leads to one of the dimensions. -/
theorem exists_dimension
    (found : dimensions.map (catalog.dimensionPath start) = paths.map some)
    (member : path ∈ paths) : ∃ dimension, catalog.dimensionPath start dimension = some path := by
  have there : some path ∈ dimensions.map (catalog.dimensionPath start) :=
    found ▸ List.mem_map_of_mem member
  obtain ⟨dimension, _, same⟩ := List.mem_map.1 there
  exact ⟨dimension, same⟩

theorem Accepted.agree_of_paths (accepted : catalog.Accepted) (inside : start ⊆ catalog.nodes)
    (found : dimensions.map (catalog.dimensionPath start) = paths.map some) :
    ∀ path ∈ paths, ∀ other ∈ paths, Agree path other := by
  intro path member other memberToo
  obtain ⟨_, here⟩ := exists_dimension found member
  obtain ⟨_, there⟩ := exists_dimension found memberToo
  exact accepted.agree_of_dimensionPath inside here there

/-- No hop of the paths leads to a node to start from. -/
theorem avoids_of_paths
    (found : dimensions.map (catalog.dimensionPath start) = paths.map some) :
    ∀ hop ∈ paths.flatten, hop.dimension ∉ start.map Node.name := by
  intro hop onPath
  obtain ⟨path, member, there⟩ := List.mem_flatten.1 onPath
  obtain ⟨_, way⟩ := exists_dimension found member
  exact avoids_dimensionPath way hop there

theorem linked_of_paths
    (found : dimensions.map (catalog.dimensionPath start) = paths.map some) :
    Linked (start.map Node.name) paths.flatten := by
  refine .flatten fun path member => ?_
  obtain ⟨_, way⟩ := exists_dimension found member
  exact (route_dimensionPath way).1.linked

/-- The hops to nodes that are not joined by then, where each of them joins the node it leads to. -/
def newHops (joined : List String) : List Hop → List Hop
  | [] => []
  | hop :: hops =>
    if hop.dimension ∈ joined then newHops joined hops
    else hop :: newHops (hop.dimension :: joined) hops

theorem missing_of_mem_newHops (member : hop ∈ newHops joined hops) :
    hop ∈ hops ∧ hop.dimension ∉ joined := by
  induction hops generalizing joined with
  | nil => cases member
  | cons first hops ih =>
      rw [newHops] at member
      split at member
      next => exact (ih member).imp_left (List.mem_cons_of_mem _)
      next new =>
        rcases List.mem_cons.1 member with rfl | later
        · exact ⟨List.mem_cons_self, new⟩
        · obtain ⟨there, missing⟩ := ih later
          exact ⟨List.mem_cons_of_mem _ there,
            fun before => missing (List.mem_cons_of_mem _ before)⟩

theorem nodup_newHops (joined : List String) (hops : List Hop) :
    ((newHops joined hops).map Hop.dimension).Nodup := by
  induction hops generalizing joined with
  | nil => exact List.nodup_nil
  | cons hop hops ih =>
      rw [newHops]
      split
      next => exact ih joined
      next =>
        rw [List.map_cons, List.nodup_cons]
        refine ⟨fun again => ?_, ih _⟩
        obtain ⟨other, later, same⟩ := List.mem_map.1 again
        exact (missing_of_mem_newHops later).2 (same ▸ List.mem_cons_self)

/-- Every hop to a node that is not joined is new, if no two hops to it differ. -/
theorem Unambiguous.mem_newHops (unambiguous : Unambiguous hops) :
    hop ∈ newHops joined hops ↔ hop ∈ hops ∧ hop.dimension ∉ joined := by
  refine ⟨missing_of_mem_newHops, fun found => ?_⟩
  obtain ⟨member, missing⟩ := found
  induction hops generalizing joined with
  | nil => cases member
  | cons first hops ih =>
      have others : Unambiguous hops := fun hop there step thereToo =>
        unambiguous hop (List.mem_cons_of_mem _ there) step (List.mem_cons_of_mem _ thereToo)
      rw [newHops]
      rcases List.mem_cons.1 member with rfl | later
      · rw [if_neg missing]
        exact List.mem_cons_self
      · split
        next => exact ih others later missing
        next =>
          by_cases same : hop.dimension = first.dimension
          · have equal := unambiguous hop member first List.mem_cons_self same
            exact equal ▸ List.mem_cons_self
          · refine List.mem_cons_of_mem _ (ih others later fun before => ?_)
            exact (List.mem_cons.1 before).elim same missing

/-- A new hop leaves a node to start from, or what an earlier new hop leads to. -/
theorem Linked.newHops (linked : Linked known hops) (fits : joined ⊆ known) :
    Linked known (newHops joined hops) := by
  induction hops generalizing known joined with
  | nil => trivial
  | cons hop hops ih =>
      rw [Catalog.newHops]
      split
      next there =>
        exact ih (linked.2.mono (List.cons_subset.2 ⟨fits there, List.Subset.refl _⟩)) fits
      next => exact ⟨linked.1, ih linked.2 (List.cons_subset_cons _ fits)⟩

end Catalog

/-! ## Joins that are added -/

namespace Planner

open SemanticLayer.Sql
open Catalog (Node Database Hop)

variable {catalog : Catalog} {database : Database}

/-- A join of the node that a hop leads to, on the two columns of the hop. -/
def IsJoinOf (catalog : Catalog) (database : Database) (names : NodeNames) (hop : Hop)
    (join : Join) : Prop :=
  ∃ node relation, catalog.node hop.dimension = .ok node ∧
    relationOf catalog database node none = .ok relation ∧
    join =
      { kind := .inner, relation
        on := some (Expr.combine (.column (columnOf (names.nameOf hop.source) hop.column)) .eq
          (.column (columnOf { value := hop.dimension } hop.dimensionColumn))) }

/-- An entry of FROM with more joins behind those that it has, which stand in the order of some
joins. -/
def Grows (joins : List Join) (source next : Source) : Prop :=
  next.primary = source.primary ∧
    ∃ more, next.joins = source.joins ++ more ∧ more.Sublist joins

/-- Entries of FROM to which some joins are added, and nothing else. -/
structure Appends (joins : List Join) (sources next : List Source) : Prop where
  entries : List.Forall₂ (Grows joins) sources next
  all : (next.flatMap Source.joins).Perm (sources.flatMap Source.joins ++ joins)

variable {joins others : List Join} {join : Join} {source next last : Source}
  {sources nexts lasts : List Source}

theorem Grows.refl (joins : List Join) (source : Source) : Grows joins source source :=
  ⟨rfl, [], (List.append_nil _).symm, List.nil_sublist _⟩

theorem Grows.trans (first : Grows joins source next) (second : Grows others next last) :
    Grows (joins ++ others) source last := by
  obtain ⟨primary, more, here, inOrder⟩ := first
  obtain ⟨primaryToo, rest, there, inOrderToo⟩ := second
  refine ⟨primaryToo.trans primary, more ++ rest, ?_, inOrder.append inOrderToo⟩
  rw [there, here, List.append_assoc]

theorem forall₂_grows_trans (first : List.Forall₂ (Grows joins) sources nexts)
    (second : List.Forall₂ (Grows others) nexts lasts) :
    List.Forall₂ (Grows (joins ++ others)) sources lasts := by
  induction first generalizing lasts with
  | nil =>
      cases second
      exact .nil
  | cons here _ ih =>
      cases second with
      | cons there rest => exact .cons (here.trans there) (ih rest)

theorem Appends.refl (sources : List Source) : Appends [] sources sources :=
  ⟨List.forall₂_same.2 fun source _ => .refl [] source, by rw [List.append_nil]⟩

theorem Appends.trans (first : Appends joins sources nexts) (second : Appends others nexts lasts) :
    Appends (joins ++ others) sources lasts := by
  refine ⟨forall₂_grows_trans first.entries second.entries, second.all.trans ?_⟩
  rw [← List.append_assoc]
  exact first.all.append_right others

/-- A join that is put at the end of an entry is added there. -/
theorem appends_addAt {position : Nat} (join : Join) (within : position < sources.length) :
    Appends [join] sources (Joins.addAt join position sources) := by
  induction sources generalizing position with
  | nil => cases within
  | cons source sources ih =>
      cases position with
      | zero =>
          have here : Grows [join] source (Joins.withJoin join source) :=
            ⟨rfl, [join], rfl, List.Sublist.refl _⟩
          refine ⟨.cons here (List.forall₂_same.2 fun other _ => .refl _ other), ?_⟩
          rw [Joins.addAt, List.flatMap_cons, List.flatMap_cons, List.append_assoc,
            List.append_assoc]
          exact List.perm_append_comm.append_left source.joins
      | succ position =>
          obtain ⟨entries, all⟩ := ih (Nat.lt_of_succ_lt_succ within)
          refine ⟨.cons (.refl _ source) entries, ?_⟩
          rw [Joins.addAt, List.flatMap_cons, List.flatMap_cons, List.append_assoc]
          exact all.append_left source.joins

theorem appends_attach (name : Name) (join : Join) (first : Source) (rest : List Source) :
    Appends [join] (first :: rest) (Joins.attach name join (first :: rest)) := by
  apply appends_addAt
  cases found : (first :: rest).findIdx? (Joins.holds name) with
  | none => simp
  | some position => exact (List.findIdx?_eq_some_iff_getElem.1 found).1

/-! ## Joining along paths -/

namespace Joins

variable {begun after : Joins} {hops : List Hop} {paths : List (List Hop)}

/-- Joining along paths is joining along all their hops. -/
theorem foldlM_addPath (paths : List (List Hop)) (begun : Joins) :
    paths.foldlM (addPath catalog database) begun =
      paths.flatten.foldlM (addHop catalog database) begun := by
  induction paths generalizing begun with
  | nil => rfl
  | cons path paths ih =>
      rw [List.foldlM_cons, List.flatten_cons, List.foldlM_append, addPath_eq_foldlM]
      exact bind_congr ih

/-- The join that a hop adds to a SELECT in which the node it leads to has no other name. -/
theorem isJoinOf_joinOf {hop : Hop} {node : Node} {relation : Relation}
    (unnamed : hop.dimension ∉ begun.names.map Prod.fst)
    (known : catalog.node hop.dimension = .ok node)
    (read : relationOf catalog database node none = .ok relation) :
    IsJoinOf catalog database begun.names hop (begun.joinOf hop relation) := by
  refine ⟨node, relation, known, read, ?_⟩
  have none : begun.names.find? (fun entry => entry.1 == hop.dimension) = none :=
    List.find?_eq_none.2 fun entry member same =>
      unnamed (beq_iff_eq.1 same ▸ List.mem_map_of_mem member)
  rw [joinOf, condition, NodeNames.nameOf, NodeNames.nameOf, NodeNames.get?, NodeNames.get?, none]
  rfl

/-- Joining along hops adds the joins of those that are new, in their order. -/
theorem appends_of_addHops {sources : List Source}
    (done : hops.foldlM (addHop catalog database) begun = .ok after)
    (listed : begun.select.sources = some sources)
    (unnamed : ∀ hop ∈ hops, hop.dimension ∉ begun.names.map Prod.fst) :
    ∃ added nexts, after.select = withSources begun.select (some nexts) ∧
      Appends added sources nexts ∧
      List.Forall₂ (IsJoinOf catalog database begun.names)
        (Catalog.newHops begun.joined hops) added := by
  induction hops generalizing begun sources with
  | nil =>
      cases Result.pure_eq_ok.1 done
      refine ⟨[], sources, ?_, .refl sources, .nil⟩
      rw [← listed, withSources_self]
  | cons hop hops ih =>
      rw [List.forall_mem_cons] at unnamed
      rw [List.foldlM_cons, Result.bind_eq_ok] at done
      obtain ⟨next, step, later⟩ := done
      rw [Catalog.newHops]
      by_cases joined : hop.dimension ∈ begun.joined
      · rw [addHop_of_joined joined] at step
        cases step
        rw [if_pos joined]
        exact ih later listed unnamed.2
      · obtain ⟨node, relation, first, rest, known, read, entries, rfl⟩ := addHop_eq_ok joined step
        cases entries.symm.trans listed
        -- The names stay as they are, so the later joins are told by the names of the start.
        obtain ⟨added, nexts, same, appends, each⟩ := ih later rfl unnamed.2
        rw [if_neg joined]
        refine ⟨begun.joinOf hop relation :: added, nexts, same, ?_,
          .cons (isJoinOf_joinOf unnamed.1 known read) each⟩
        exact (appends_attach _ _ first rest).trans appends

end Joins

/-- Paths to dimensions that links lead to exist, and where two of them meet they have come there by
the same hops. Joining along one after another, where it succeeds, adds to FROM one inner join for
each node on the paths and nothing else: on the columns of the hop that leads there, and after the
join of the node that the hop leaves. -/
theorem joins_follow_paths_once {databases : List Database} {nodes start : List Node}
    (built : Catalog.build databases nodes = .ok catalog) (inside : start ⊆ catalog.nodes)
    {select : Select} {first : Source} {rest : List Source}
    (listed : select.sources = some (first :: rest)) {names : NodeNames}
    (known : ∀ entry ∈ names, entry.1 ∈ start.map Node.name) {dimensions : List String}
    (outside : ∀ dimension ∈ dimensions, dimension ∉ start.map Node.name)
    (reachable : ∀ dimension ∈ dimensions, catalog.LeadsTo start dimension) :
    ∃ paths : List (List Hop), dimensions.map (catalog.dimensionPath start) = paths.map some ∧
      (∀ path ∈ paths, ∀ other ∈ paths, Catalog.Agree path other) ∧
      ∀ database (after : Joins),
        paths.foldlM (Joins.addPath catalog database) (Joins.start select names) = .ok after →
        ∃ hops joins sources, after.select = Joins.withSources select (some sources) ∧
          Appends joins (first :: rest) sources ∧
          List.Forall₂ (IsJoinOf catalog database names) hops joins ∧
          (hops.map Hop.dimension).Nodup ∧
          (∀ hop, hop ∈ hops ↔ ∃ path ∈ paths, hop ∈ path) ∧
          Catalog.Linked (start.map Node.name) hops := by
  have accepted := Catalog.accepted_of_build built
  have exist : ∀ dimension ∈ dimensions, (catalog.dimensionPath start dimension).isSome :=
    fun dimension member => (accepted.isSome_dimensionPath_iff inside (outside dimension member)).2
      (reachable dimension member)
  obtain ⟨paths, found⟩ := Catalog.exists_paths exist
  have agree := accepted.agree_of_paths inside found
  have unnamed : ∀ hop ∈ paths.flatten, hop.dimension ∉ names.map Prod.fst := by
    intro hop onPath isKey
    obtain ⟨entry, isEntry, same⟩ := List.mem_map.1 isKey
    exact Catalog.avoids_of_paths found hop onPath (same ▸ known entry isEntry)
  refine ⟨paths, found, agree, fun database after done => ?_⟩
  rw [Joins.foldlM_addPath] at done
  obtain ⟨joins, sources, same, appends, joined⟩ := Joins.appends_of_addHops done listed unnamed
  refine ⟨_, joins, sources, same, appends, joined, Catalog.nodup_newHops _ _, fun hop => ?_, ?_⟩
  · rw [(Catalog.Unambiguous.of_agree agree).mem_newHops, List.mem_flatten]
    exact and_iff_left_of_imp fun onPath => unnamed hop (List.mem_flatten.2 onPath)
  · refine (Catalog.linked_of_paths found).newHops fun name isKey => ?_
    obtain ⟨entry, isEntry, rfl⟩ := List.mem_map.1 isKey
    exact known entry isEntry

/-- Orders of customers at shops; both a customer and a shop have a region. -/
def deliveries : Catalog :=
  { databases := [{ id := 1, name := "main", uri := "" }]
    nodes :=
      [{ name := "orders", kind := .source, tables := [{ database := 1, table := "orders" }]
         columns := [{ name := "customer", dimension := some "customers" },
           { name := "shop", dimension := some "shops" }] },
       { name := "customers", kind := .dimension
         tables := [{ database := 1, table := "customers" }]
         columns := [{ name := "id" }, { name := "region", dimension := some "regions" }] },
       { name := "shops", kind := .dimension, tables := [{ database := 1, table := "shops" }]
         columns := [{ name := "id" }, { name := "region", dimension := some "regions" }] },
       { name := "regions", kind := .dimension, tables := [{ database := 1, table := "regions" }]
         columns := [{ name := "id" }] }] }

/-- The rows of the table of orders. -/
def orderRows : Select :=
  { projection := []
    sources := some [{ primary := .table { name := { value := "orders" } } }] }

/-- The customers on the way to the regions are joined once, also where they are asked for. -/
theorem joins_follow_paths_once_deliveries :
    ∃ (paths : List (List Hop)) (after : Joins) (hops : List Hop) (joins : List Join)
        (sources : List Source),
      ["regions", "customers", "shops"].map
        (deliveries.dimensionPath [deliveries.nodes[0]]) = paths.map some ∧
      paths.foldlM (Joins.addPath deliveries deliveries.databases[0])
        (Joins.start orderRows [("orders", { value := "o" })]) = .ok after ∧
      after.select = Joins.withSources orderRows (some sources) ∧
      Appends joins (orderRows.sources.getD []) sources ∧
      List.Forall₂ (IsJoinOf deliveries deliveries.databases[0] [("orders", { value := "o" })])
        hops joins ∧
      (hops.map Hop.dimension).Nodup ∧ ∀ hop, hop ∈ hops ↔ ∃ path ∈ paths, hop ∈ path := by
  have built : Catalog.build deliveries.databases deliveries.nodes = .ok deliveries := by
    decide +kernel
  have inside : [deliveries.nodes[0]] ⊆ deliveries.nodes := by simp
  have outside : ∀ dimension ∈ ["regions", "customers", "shops"],
      dimension ∉ [deliveries.nodes[0]].map Node.name := by decide
  have reachable : ∀ dimension ∈ ["regions", "customers", "shops"],
      deliveries.LeadsTo [deliveries.nodes[0]] dimension := fun dimension member =>
    ((Catalog.accepted_of_build built).isSome_dimensionPath_iff inside
      (outside dimension member)).1 (by revert dimension; decide +kernel)
  have listed : orderRows.sources =
      some [{ primary := .table { name := { value := "orders" } } }] := rfl
  have known : ∀ entry ∈ ([("orders", { value := "o" })] : NodeNames),
      entry.1 ∈ [deliveries.nodes[0]].map Node.name := by decide
  obtain ⟨paths, found, _, joined⟩ :=
    joins_follow_paths_once built inside listed known outside reachable
  have ways : ["regions", "customers", "shops"].filterMap
      (deliveries.dimensionPath [deliveries.nodes[0]]) = paths := by
    have same := congrArg (List.filterMap id) found
    rwa [List.filterMap_map, List.filterMap_map, Function.id_comp, Function.id_comp,
      List.filterMap_some] at same
  have isSome : ((["regions", "customers", "shops"].filterMap
      (deliveries.dimensionPath [deliveries.nodes[0]])).foldlM
        (Joins.addPath deliveries deliveries.databases[0])
        (Joins.start orderRows [("orders", { value := "o" })])).toOption.isSome := by
    decide +kernel
  rw [ways] at isSome
  obtain ⟨after, succeeds⟩ := Option.isSome_iff_exists.1 isSome
  have done := Result.eq_ok_of_toOption succeeds
  obtain ⟨hops, joins, sources, same, appends, each, nodup, members, _⟩ := joined _ after done
  exact ⟨paths, after, hops, joins, sources, found, done, same, appends, each, nodup, members⟩

end Planner
end SemanticLayer
