import Mathlib.Data.Option.Basic
import SemanticLayer.Proofs.Naming
import SemanticLayer.Proofs.Overlaps
import SemanticLayer.Proofs.Promises
import SemanticLayer.Proofs.Requests

/-!
# What a request adds

A request is answered by the query of its node with more in four of its clauses. Each entry of FROM
gets the joins of dimensions that are asked for, WHERE a comparison for each filter, and the
projection and GROUP BY the columns to group by that they do not have yet.
-/

namespace SemanticLayer.Planner

open SemanticLayer.Sql
open Catalog (Node Database Hop)

variable {catalog : Catalog} {database : Database} {node : Node} {names : NodeNames}

/-! ## Names and paths -/

/-- The nodes that have names in the query of a node are those that links are followed from. -/
theorem mem_roots_of_namesInQuery {query : Query}
    (calls : namesInQuery catalog node query = .ok names) :
    ∀ entry ∈ names, entry.1 ∈ (catalog.roots node).map Node.name := by
  have parents : ∀ parent ∈ catalog.parents node, parent ∈ catalog.roots node := by
    intro parent isParent
    rw [Catalog.roots, if_neg]
    · exact isParent
    · intro orphan
      rw [Catalog.parents_eq_nil (List.isEmpty_iff.1 orphan)] at isParent
      cases isParent
  obtain ⟨select, rfl⟩ : ∃ select, names = NodeNames.ofSelect select (catalog.parents node) := by
    rw [namesInQuery] at calls
    split at calls
    · obtain ⟨written, _, last⟩ := Result.bind_eq_ok.1 calls
      exact ⟨written.select, (Result.pure_eq_ok.1 last).symm⟩
    · exact ⟨query.select, (Result.pure_eq_ok.1 calls).symm⟩
  intro entry member
  obtain ⟨parent, isParent, same⟩ := (NodeNames.for_ofSelect select _).known entry member
  exact same ▸ List.mem_map_of_mem (parents parent isParent)

/-- A path to the node of one of some full names. -/
def IsPathFor (catalog : Catalog) (start : List Node) (asked : List String) (path : List Hop) :
    Prop :=
  ∃ name ∈ asked, ∃ dimension column, Text.splitLastDot? name = some (dimension, column) ∧
    catalog.dimensionPath start dimension = some path

/-- Only paths to what is asked for are demanded. -/
theorem isPathFor_of_demandDimensions {start : List Node} {asked : List String}
    {demand after : Demand} {paths : List (List Hop)}
    (done : asked.foldlM (demandDimension catalog node start) (demand, []) = .ok (after, paths)) :
    ∀ path ∈ paths, IsPathFor catalog start asked path := by
  refine Result.foldlM_induction (fun found : Demand × List (List Hop) =>
    ∀ path ∈ found.2, IsPathFor catalog start asked path)
    (fun _ none => absurd none List.not_mem_nil) ?_ done
  rintro name isAsked ⟨demand, paths⟩ after known step
  obtain ⟨⟨dimension, column⟩, split, rest⟩ := Result.bind_eq_ok.1 step
  dsimp only at rest
  split at rest
  next =>
    cases Result.pure_eq_ok.1 rest
    exact known
  next =>
    split at rest
    next => cases rest
    next path way =>
      obtain ⟨demanded, _, last⟩ := Result.bind_eq_ok.1 rest
      cases Result.pure_eq_ok.1 last
      rw [List.forall_mem_append, List.forall_mem_singleton]
      exact ⟨known, name, isAsked, dimension, column, splitLastDot?_of_splitName split, way⟩

/-! ## Joins -/

namespace Joins

variable {begun after : Joins} {hops : List Hop}

/-- Where there is no FROM nothing can be joined. -/
theorem newHops_of_no_sources (none : begun.select.sources = none)
    (done : hops.foldlM (addHop catalog database) begun = .ok after) :
    after = begun ∧ Catalog.newHops begun.joined hops = [] := by
  induction hops with
  | nil => exact ⟨(Result.pure_eq_ok.1 done).symm, rfl⟩
  | cons hop hops ih =>
      rw [List.foldlM_cons, Result.bind_eq_ok] at done
      obtain ⟨next, step, later⟩ := done
      by_cases joined : hop.dimension ∈ begun.joined
      · rw [addHop_of_joined joined] at step
        cases step
        rw [Catalog.newHops, if_pos joined]
        exact ih later
      · obtain ⟨_, _, _, _, _, _, some, _⟩ := addHop_eq_ok joined step
        rw [none] at some
        cases some

/-- Joining along hops adds to FROM the joins of those that are new, and nothing else. -/
theorem rel_appends_of_addHops (done : hops.foldlM (addHop catalog database) begun = .ok after)
    (unnamed : ∀ hop ∈ hops, hop.dimension ∉ begun.names.map Prod.fst) :
    ∃ added, List.Forall₂ (IsJoinOf catalog database begun.names)
        (Catalog.newHops begun.joined hops) added ∧
      Option.Rel (Appends added) begun.select.sources after.select.sources := by
  cases listed : begun.select.sources with
  | none =>
      obtain ⟨rfl, new⟩ := newHops_of_no_sources listed done
      rw [new, listed]
      exact ⟨[], .nil, .none⟩
  | some sources =>
      obtain ⟨added, nexts, same, appends, each⟩ := appends_of_addHops done listed unnamed
      rw [same]
      exact ⟨added, each, .some appends⟩

end Joins

/-! ## Columns and comparisons -/

/-- Full names of columns that are taken apart stand for columns. -/
theorem forall₂_groupColumns {groupBys : List String}
    (split : ∀ name ∈ groupBys, (Text.splitLastDot? name).isSome) :
    List.Forall₂ (fun name column => columnNamed? names name = some column) groupBys
      (groupColumns names groupBys) := by
  induction groupBys with
  | nil => exact .nil
  | cons name groupBys ih =>
      rw [List.forall_mem_cons] at split
      obtain ⟨pair, found⟩ := Option.isSome_iff_exists.1 split.1
      rw [groupColumns_cons found]
      exact .cons (columnNamed?_eq_some found) (ih split.2)

/-- Each filter restricts by one comparison. -/
theorem forall₂_conditions {filters : List Filter}
    (split : ∀ filter ∈ filters, (Text.splitLastDot? filter.name).isSome) :
    List.Forall₂ (fun filter comparison => ∃ column, columnNamed? names filter.name = some column ∧
      comparison = filter.toExpr column) filters (conditions names filters) := by
  induction filters with
  | nil => exact .nil
  | cons filter filters ih =>
      rw [List.forall_mem_cons] at split
      obtain ⟨pair, found⟩ := Option.isSome_iff_exists.1 split.1
      rw [conditions_cons found]
      exact .cons ⟨_, columnNamed?_eq_some found, rfl⟩ (ih split.2)

/-- A column is there once it is added. -/
theorem Added.present {exprs added : List Expr} {columns : List Column}
    (fits : Added exprs columns added) {column : Column} (member : column ∈ columns) :
    (exprs ++ added).any (· == .column column) = true := by
  rw [any_beq_column_iff, List.map_append, List.mem_append, fits.members]
  by_cases known : (Expr.column column).byValue ∈ exprs.map Expr.byValue
  · exact .inl known
  · exact .inr ⟨List.mem_map_of_mem (List.mem_map_of_mem member), known⟩

/-! ## Synthesis -/

/-- How a compiled query comes from the query of its node. All clauses but four are those of the
query of the node. -/
structure Synthesis (catalog : Catalog) (node : Node) (groupBys texts : List String)
    (compiled : Compiled) (own : Query) where
  filters : List Filter
  parses : texts.mapM Filter.ofText = .ok filters
  names : NodeNames
  calls : namesInQuery catalog node own = .ok names
  sources : Option (List Source)
  shown : List Expr
  grouped : List Expr
  comparisons : List Expr
  whole : compiled.query =
    { own with
      select :=
        { own.select with
          projection := own.select.projection ++ shown
          sources
          filter := conjoin own.select.filter comparisons
          groupBy := own.select.groupBy ++ grouped } }
  /-- The columns that are asked for, one for each name to group by. -/
  columns : List Column
  asks : List.Forall₂ (fun name column => columnNamed? names name = some column) groupBys columns
  shows : Added own.select.projection columns shown
  groups : Added own.select.groupBy columns grouped
  present : ∀ column ∈ columns,
    (own.select.projection ++ shown).any (· == .column column) = true ∧
      (own.select.groupBy ++ grouped).any (· == .column column) = true
  compares : List.Forall₂ (fun filter comparison => ∃ column,
    columnNamed? names filter.name = some column ∧ comparison = filter.toExpr column)
      filters comparisons
  /-- The hops to the dimensions that are joined. -/
  hops : List Hop
  joins : List Join
  follows : ∀ hop ∈ hops, ∃ path, hop ∈ path ∧
    IsPathFor catalog (catalog.roots node) (askedNames groupBys filters) path
  once : (hops.map Hop.dimension).Nodup
  joined : List.Forall₂ (IsJoinOf catalog compiled.database names) hops joins
  appends : Option.Rel (Appends joins) own.select.sources sources

section

variable {groupBys texts : List String} {requested : Option Int} {compiled : Compiled}

/-- What a plan restricts and groups by. -/
theorem NodePlan.select_of_joins
    (plan : NodePlan catalog node groupBys texts requested compiled) :
    plan.select =
      { plan.joins.select with
        projection := addColumns plan.joins.select.projection (groupColumns plan.names groupBys)
        filter := conjoin plan.joins.select.filter (conditions plan.names plan.parsed)
        groupBy := addColumns plan.joins.select.groupBy (groupColumns plan.names groupBys) } := by
  have split := isSome_splitLastDot?_of_demandDimensions plan.demands
  simp only [askedNames, Catalog.mem_sortedSet, List.mem_append] at split
  have restricts := foldlM_addFilter plan.names
    (fun filter member => split _ (.inr (List.mem_map_of_mem member))) plan.joins.select
  have groups := plan.groups
  rw [← Except.ok.inj (restricts.symm.trans plan.restricts), foldlM_addGroupBy plan.names
    fun name member => split name (.inl member)] at groups
  exact (Except.ok.inj groups).symm

theorem NodePlan.nonempty_synthesis
    (plan : NodePlan catalog node groupBys texts requested compiled) :
    Nonempty (Synthesis catalog node groupBys texts compiled plan.query) := by
  have split := isSome_splitLastDot?_of_demandDimensions plan.demands
  simp only [askedNames, Catalog.mem_sortedSet, List.mem_append] at split
  have ways := isPathFor_of_demandDimensions plan.demands
  -- A node that goes by another name is one to start from, and no path leads back to these.
  have unnamed : ∀ hop ∈ plan.paths.flatten, hop.dimension ∉ plan.names.map Prod.fst := by
    intro hop member isKey
    obtain ⟨path, onPaths, onPath⟩ := List.mem_flatten.1 member
    obtain ⟨_, _, _, _, _, found⟩ := ways path onPaths
    obtain ⟨entry, isEntry, same⟩ := List.mem_map.1 isKey
    exact Catalog.avoids_dimensionPath found hop onPath
      (same ▸ mem_roots_of_namesInQuery plan.calls entry isEntry)
  have joins := plan.joined
  rw [Joins.foldlM_addPath] at joins
  obtain ⟨added, joined, appends⟩ := Joins.rel_appends_of_addHops joins unnamed
  obtain ⟨shown, projection, shows⟩ :=
    exists_added plan.query.select.projection (groupColumns plan.names groupBys)
  obtain ⟨grouped, groupBy, groups⟩ :=
    exists_added plan.query.select.groupBy (groupColumns plan.names groupBys)
  refine ⟨{
    filters := plan.parsed
    parses := plan.parses
    names := plan.names
    calls := plan.calls
    sources := plan.joins.select.sources
    shown, grouped
    comparisons := conditions plan.names plan.parsed
    whole := ?_
    columns := groupColumns plan.names groupBys
    asks := forall₂_groupColumns fun name member => split name (.inl member)
    shows, groups
    present := fun column member => ⟨shows.present member, groups.present member⟩
    compares := forall₂_conditions fun filter member => split _ (.inr (List.mem_map_of_mem member))
    hops := Catalog.newHops (plan.names.map Prod.fst) plan.paths.flatten
    joins := added
    follows := fun hop new => ?_
    once := Catalog.nodup_newHops _ _
    joined, appends }⟩
  · rw [plan.compiles, plan.select_of_joins, Joins.select_of_addPaths plan.joined, ← projection,
      ← groupBy]
    rfl
  · obtain ⟨path, onPaths, onPath⟩ := List.mem_flatten.1 (Catalog.missing_of_mem_newHops new).1
    exact ⟨path, onPath, ways path onPaths⟩

end

theorem isEmpty_askedNames {groupBys texts : List String} {filters : List Filter}
    (parses : texts.mapM Filter.ofText = .ok filters) :
    (askedNames groupBys filters).isEmpty = (groupBys.isEmpty && texts.isEmpty) := by
  have length := (Result.mapM_eq_ok_iff.1 parses).length_eq
  have none : filters = [] ↔ texts = [] := by
    rw [← List.length_eq_zero_iff, ← length, List.length_eq_zero_iff]
  rw [Bool.eq_iff_iff, Bool.and_eq_true, List.isEmpty_iff, List.isEmpty_iff, List.isEmpty_iff,
    ← none, List.eq_nil_iff_forall_not_mem]
  simp only [askedNames, Catalog.mem_sortedSet, ← List.eq_nil_iff_forall_not_mem,
    List.append_eq_nil_iff, List.map_eq_nil_iff]

/-- Synthesis only adds. A query that is compiled for a node is the query of the node in the
database that was chosen, with dimensions joined, comparisons conjoined, and columns shown and
grouped by. -/
theorem synthesis_only_adds (catalog : Catalog) (node : Node) (groupBys texts : List String)
    (requested : Option Int) {compiled : Compiled}
    (compiles : nodeQuery catalog node groupBys texts requested = .ok compiled) :
    ∃ own, queryOf catalog compiled.database node (groupBys.isEmpty && texts.isEmpty) = .ok own ∧
      Nonempty (Synthesis catalog node groupBys texts compiled own) := by
  obtain ⟨plan⟩ := nonempty_nodePlan compiles
  refine ⟨plan.query, ?_, plan.nonempty_synthesis⟩
  rw [← isEmpty_askedNames plan.parses]
  exact plan.computes

/-- The revenue by country is the revenue with a column, a comparison and a join more. -/
theorem synthesis_only_adds_purchases :
    ∃ compiled own,
      nodeQuery purchases paidSales ["customers.country"] ["orders.amount>10"] none =
        .ok compiled ∧
      queryOf purchases compiled.database paidSales false = .ok own ∧
      Nonempty (Synthesis purchases paidSales ["customers.country"] ["orders.amount>10"]
        compiled own) := by
  obtain ⟨compiled, compiles⟩ := Result.exists_eq_ok (by decide +kernel :
    (nodeQuery purchases paidSales ["customers.country"] ["orders.amount>10"]
      none).toOption.isSome)
  obtain ⟨own, computes, synthesis⟩ := synthesis_only_adds purchases paidSales _ _ none compiles
  exact ⟨compiled, own, compiles, computes, synthesis⟩

end SemanticLayer.Planner
