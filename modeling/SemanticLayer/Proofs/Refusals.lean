import SemanticLayer.Proofs.Blame
import SemanticLayer.Proofs.Reachability

/-!
# Refused requests

A request is refused for the names that are not dimensions of its node, and for nothing else that
its query could fail with. The names are checked before anything is looked up, read or joined, and
the dimensions of a node of an accepted catalog are always known, so a request with such a name is
refused whatever else is wrong with it.
-/

namespace SemanticLayer

open Result (FailsWith)

/-- The fault of a request for names that are not dimensions. -/
def Error.OfRefusal : Error → Prop
  | .invalidDimensions _ => True
  | _ => False

/-- A computation that refuses no names. -/
abbrev Accepts {α : Type} (run : Result α) : Prop :=
  run.FailsWith fun error => ¬ error.OfRefusal

theorem Error.OfBuilding.not_ofRefusal {error : Error} (fault : error.OfBuilding) :
    ¬ error.OfRefusal := by
  cases error with
  | invalidDimensions _ => exact fault.elim
  | _ => exact id

/-- What only builds refuses no names. -/
theorem Builds.accepts {α : Type} {run : Result α} (builds : Builds run) : Accepts run :=
  builds.mono fun _ => Error.OfBuilding.not_ofRefusal

namespace Result

variable {α β : Type}

theorem accepts_foldlM {items : List α} {step : β → α → Result β}
    (each : ∀ item ∈ items, ∀ state, Accepts (step state item)) (start : β) :
    Accepts (items.foldlM step start) :=
  .foldlM (fun _ => True) trivial (fun item member state _ => each item member state)
    fun _ _ _ _ _ _ => trivial

/-- Where later steps refuse no names, names are refused exactly if the first step refuses them. -/
theorem refuses_bind_iff {run : Result α} {next : α → Result β}
    (later : ∀ value, Accepts (next value)) (names : List String) :
    run >>= next = .error (.invalidDimensions names) ↔
      run = .error (.invalidDimensions names) := by
  cases run with
  | ok value =>
      refine iff_of_false (fun refused => ?_) nofun
      exact later value _ refused trivial
  | error failure =>
      refine ⟨fun refused => ?_, fun refused => ?_⟩
      · cases refused
        rfl
      · cases refused
        rfl

end Result

namespace Planner

open SemanticLayer.Sql
open Catalog (Node Hop Database)

variable {catalog : Catalog} {node : Node} {groupBys : List String} {parsed : List Filter}

/-! ## Steps behind the check -/

theorem accepts_splitName (name : String) : Accepts (splitName name) := by
  rw [splitName]
  split
  · exact .ok _
  · exact .error id

theorem accepts_demandDimension (node : Node) (start : List Node)
    (found : Demand × List (List Hop)) (name : String) :
    Accepts (demandDimension catalog node start found name) := by
  refine (accepts_splitName name).bind fun pair _ => ?_
  dsimp only
  split
  · exact .pure _
  · split
    · exact .error id
    · exact (builds_demand _ _).accepts.bind fun _ _ => .pure _

theorem accepts_addFilter (names : NodeNames) (select : Select) (filter : Filter) :
    Accepts (addFilter names select filter) := by
  refine FailsWith.bind ?_ fun _ _ => .pure _
  rw [Filter.dimension]
  split
  · exact .ok _
  · exact .error id

theorem accepts_addGroupBy (names : NodeNames) (select : Select) (name : String) :
    Accepts (addGroupBy names select name) :=
  (accepts_splitName name).bind fun _ _ => .pure _

/-- A query for a node refuses names exactly if the check of the names that it asks for does. -/
theorem refuses_nodeQuery_iff {texts : List String} (parses : texts.mapM Filter.ofText = .ok parsed)
    (requested : Option Int) (names : List String) :
    nodeQuery catalog node groupBys texts requested = .error (.invalidDimensions names) ↔
      checkDimensions catalog node (askedNames groupBys parsed) =
        .error (.invalidDimensions names) := by
  rw [nodeQuery, Result.bind_of_ok parses]
  refine Result.refuses_bind_iff (fun _ => ?_) names
  refine (Catalog.builds_nodeReferences node).accepts.bind fun references _ => ?_
  refine FailsWith.bind (Result.accepts_foldlM
    (fun name _ found => accepts_demandDimension node _ found name) _) fun demanded _ => ?_
  refine (Catalog.builds_databaseFor _ _ _).accepts.bind fun database _ => ?_
  refine (builds_queryOf node _).accepts.bind fun query _ => ?_
  refine (builds_namesInQuery node query).accepts.bind fun nodeNames _ => ?_
  refine (builds_addPaths _ _).accepts.bind fun joins _ => ?_
  refine (Result.accepts_foldlM (fun filter _ select =>
    accepts_addFilter nodeNames select filter) _).bind fun restricted _ => ?_
  exact (Result.accepts_foldlM (fun name _ select =>
    accepts_addGroupBy nodeNames select name) _).bind fun _ _ => .pure _

/-! ## The check -/

/-- Whether a request names something, to group by it or to filter by it. -/
def AsksFor (groupBys : List String) (filters : List Filter) (name : String) : Prop :=
  name ∈ groupBys ∨ ∃ filter ∈ filters, filter.name = name

theorem mem_askedNames {filters : List Filter} {name : String} :
    name ∈ askedNames groupBys filters ↔ AsksFor groupBys filters name := by
  rw [askedNames, Catalog.mem_sortedSet, List.mem_append, List.mem_map, AsksFor]

/-- The names that a request asks for in vain, in order. -/
def refused (groupBys : List String) (filters : List Filter) (valid : List String) : List String :=
  (askedNames groupBys filters).filter fun name => !valid.contains name

theorem mem_refused {filters : List Filter} {valid : List String} {name : String} :
    name ∈ refused groupBys filters valid ↔ AsksFor groupBys filters name ∧ name ∉ valid := by
  rw [refused, List.mem_filter, mem_askedNames, Bool.not_eq_true', ← Bool.not_eq_true,
    List.contains_iff_mem]

theorem pairwise_refused (groupBys : List String) (filters : List Filter) (valid : List String) :
    (refused groupBys filters valid).Pairwise (· < ·) :=
  (Catalog.pairwise_sortedSet _).filter _

/-- Where the dimensions are known, the check refuses all names that are asked for in vain, if there
are any. -/
theorem checkDimensions_eq_error_iff {valid names : List String}
    (known : catalog.dimensions node = .ok valid) :
    checkDimensions catalog node (askedNames groupBys parsed) =
        .error (.invalidDimensions names) ↔
      names = refused groupBys parsed valid ∧ names ≠ [] := by
  rw [checkDimensions, Result.bind_of_ok known]
  split
  next none => exact iff_of_false nofun fun both => both.2 (both.1.trans none)
  next some =>
    constructor
    · intro same
      cases same
      exact ⟨rfl, some⟩
    · rintro ⟨rfl, _⟩
      rfl

theorem exists_dimensions (accepted : catalog.Accepted) (member : node ∈ catalog.nodes) :
    ∃ valid, catalog.dimensions node = .ok valid := by
  obtain ⟨reached, collected, _⟩ := accepted.reachable (Catalog.roots_subset member)
  exact ⟨_, Result.bind_of_ok collected _⟩

/-- In a catalog that is accepted the dimensions of a node are known. A query for the node whose
filters are read is refused exactly if one of the names that it asks for is not among them, whatever
else it would fail with. It is then refused for all of these names at once, in order and each of them
once. -/
theorem invalid_names_are_refused_first {databases : List Database} {nodes : List Node}
    (built : Catalog.build databases nodes = .ok catalog) (member : node ∈ catalog.nodes)
    {texts : List String} (parses : texts.mapM Filter.ofText = .ok parsed)
    (groupBys : List String) (requested : Option Int) :
    ∃ valid, catalog.dimensions node = .ok valid ∧
      ((∃ names, nodeQuery catalog node groupBys texts requested =
          .error (.invalidDimensions names)) ↔
        ∃ name, AsksFor groupBys parsed name ∧ name ∉ valid) ∧
      ∀ names, nodeQuery catalog node groupBys texts requested =
          .error (.invalidDimensions names) →
        names.Pairwise (· < ·) ∧
          ∀ name, name ∈ names ↔ AsksFor groupBys parsed name ∧ name ∉ valid := by
  obtain ⟨valid, known⟩ := exists_dimensions (Catalog.accepted_of_build built) member
  have refuses : ∀ names, nodeQuery catalog node groupBys texts requested =
      .error (.invalidDimensions names) ↔
        names = refused groupBys parsed valid ∧ names ≠ [] := fun names =>
    (refuses_nodeQuery_iff parses requested names).trans (checkDimensions_eq_error_iff known)
  refine ⟨valid, known, ?_, fun names failed => ?_⟩
  · simp only [refuses, exists_eq_left]
    constructor
    · intro some
      obtain ⟨name, isRefused⟩ := List.exists_mem_of_ne_nil _ some
      exact ⟨name, mem_refused.1 isRefused⟩
    · rintro ⟨name, isRefused⟩
      exact List.ne_nil_of_mem (mem_refused.2 isRefused)
  · obtain ⟨rfl, _⟩ := (refuses names).1 failed
    exact ⟨pairwise_refused groupBys parsed valid, fun name => mem_refused⟩

/-- A query that could not be computed anywhere is refused for its names first. -/
theorem invalid_names_are_refused_first_managedRegions :
    ∃ revenue ∈ Catalog.managedRegions.nodes,
      nodeQuery Catalog.managedRegions revenue ["customers.id"] [] none =
        .error .noValidDatabase ∧
      ∃ names, nodeQuery Catalog.managedRegions revenue ["regions.name", "customers.id", "age"]
          ["regions.name>1"] none = .error (.invalidDimensions names) ∧
        names.Pairwise (· < ·) ∧ "age" ∈ names ∧ "regions.name" ∈ names ∧
          "customers.id" ∉ names := by
  have built : Catalog.build Catalog.managedRegions.databases Catalog.managedRegions.nodes =
      .ok Catalog.managedRegions := by decide +kernel
  have parses : ["regions.name>1"].mapM Filter.ofText = .ok [⟨"regions.name", .gt, .int 1⟩] :=
    Result.eq_ok_of_toOption (by decide +kernel)
  have revenue : Catalog.managedRegions.nodes[3] ∈ Catalog.managedRegions.nodes :=
    List.getElem_mem (n := 3) (by decide)
  have dimensions : Catalog.managedRegions.dimensions Catalog.managedRegions.nodes[3] =
      .ok ["customers.id", "customers.region", "orders.customer", "regions.id",
        "regions.manager"] := Result.eq_ok_of_toOption (by decide +kernel)
  obtain ⟨valid, known, fails, lists⟩ := invalid_names_are_refused_first built revenue parses
    ["regions.name", "customers.id", "age"] none
  cases dimensions.symm.trans known
  obtain ⟨names, failed⟩ := fails.2 ⟨"age", .inl (by simp), by simp⟩
  obtain ⟨sorted, members⟩ := lists names failed
  refine ⟨_, revenue, Result.eq_error_of_failure? (by decide +kernel), names, failed, sorted, ?_⟩
  refine ⟨(members _).2 ⟨.inl (by simp), by simp⟩, (members _).2 ⟨.inl (by simp), by simp⟩, ?_⟩
  exact fun there => ((members _).1 there).2 (by simp)

end Planner
end SemanticLayer
