import SemanticLayer.Proofs.Blame
import SemanticLayer.Proofs.Origins
import SemanticLayer.Proofs.Reachability
import SemanticLayer.Proofs.Routes

/-!
# Valid dimensions are joined

The dimensions of a node are full names. To join one, a full name is taken apart again at its last
dot, and a path is searched to the node in front of it. Both give back what the full name was made
of if the name of the column has no dot; otherwise the node may be one that no link leads to. A
metric without parents has its own columns as dimensions, but no node to start a path from.
-/

namespace SemanticLayer

open Result (FailsWith)

/-- The faults of a full name that cannot be taken apart, and of a node that no link leads to. -/
def Error.OfLink : Error → Prop
  | .noDimensionLink _ _ | .invalidColumnName _ => True
  | _ => False

/-- A computation that does not fail for want of a link. -/
abbrev Clear {α : Type} (run : Result α) : Prop :=
  run.FailsWith fun error => ¬ error.OfLink

theorem Error.OfBuilding.not_ofLink {error : Error} (fault : error.OfBuilding) :
    ¬ error.OfLink := by
  cases error with
  | noDimensionLink _ _ | invalidColumnName _ => exact fault.elim
  | _ => exact id

/-- What only builds is clear. -/
theorem Builds.clear {α : Type} {run : Result α} (builds : Builds run) : Clear run :=
  builds.mono fun _ => Error.OfBuilding.not_ofLink

namespace Result

variable {α β : Type}

/-- What a run of clear steps gives is clear. -/
theorem clear_foldlM {items : List α} {step : β → α → Result β}
    (each : ∀ item ∈ items, ∀ state, Clear (step state item)) (start : β) :
    Clear (items.foldlM step start) :=
  .foldlM (fun _ => True) trivial (fun item member state _ => each item member state)
    fun _ _ _ _ _ _ => trivial

end Result

namespace Catalog

open SemanticLayer.Sql

variable {catalog : Catalog}

/-! ## Full names -/

/-- A full name in front of whose last dot is the name of a node that links lead to. -/
def Joinable (catalog : Catalog) (roots : List Node) (name : String) : Prop :=
  ∃ node column, Text.splitLastDot? name = some (node, column) ∧ catalog.LeadsTo roots node

/-- The full name of a column without a dot can be joined. -/
theorem Joinable.of_undotted {roots : List Node} {node : Node} {column : NodeColumn}
    (reached : catalog.Reached roots node) (undotted : '.' ∉ column.name.toList) :
    catalog.Joinable roots (Text.dotted [node.name, column.name]) :=
  ⟨node.name, column.name, Text.splitLastDot?_dotted undotted, node, reached, rfl⟩

/-- A catalog without dots in the names of nodes and columns. -/
structure Undotted (catalog : Catalog) : Prop where
  nodes : ∀ node ∈ catalog.nodes, '.' ∉ node.name.toList
  columns : ∀ node ∈ catalog.nodes, ∀ column ∈ node.columns, '.' ∉ column.name.toList

theorem LeadsTo.of_any {roots : List Node} {name : String}
    (start : (roots.any fun other => other.name == name) = true) : catalog.LeadsTo roots name := by
  obtain ⟨node, isRoot, same⟩ := List.any_eq_true.1 start
  exact ⟨node, .root isRoot, beq_iff_eq.1 same⟩

end Catalog

namespace Planner

open SemanticLayer.Sql
open Catalog (Node Database Hop References)

variable {catalog : Catalog} {node : Node}

/-! ## Demands of paths -/

/-- A path that was found is demanded without failure. -/
theorem exists_addPath (accepted : catalog.Accepted) {start : List Node} {dimension : String}
    {path : List Hop} (found : catalog.dimensionPath start dimension = some path)
    (demand : Demand) : ∃ after, demand.addPath catalog path = .ok after := by
  have route := (Catalog.route_dimensionPath found).1
  refine Result.foldlM_ok (fun hop onPath demand => ?_) demand
  obtain ⟨target, member, same⟩ := route.known hop onPath
  have known : catalog.node hop.dimension = .ok target := by
    rw [Catalog.node, ← same, accepted.node?_name member]
  exact ⟨_, Result.bind_of_ok known _⟩

/-- A run that fails since no link leads to a dimension. -/
def Unlinked {α : Type} (run : Result α) : Prop :=
  ∃ subject dimension, run = .error (.noDimensionLink subject dimension)

theorem Unlinked.not_clear {α : Type} {run : Result α} (unlinked : Unlinked run) : ¬ Clear run := by
  obtain ⟨subject, dimension, failed⟩ := unlinked
  exact fun clear => clear _ failed trivial

theorem Unlinked.bind {α β : Type} {run : Result α} (unlinked : Unlinked run)
    (next : α → Result β) : Unlinked (run >>= next) := by
  obtain ⟨subject, dimension, failed⟩ := unlinked
  exact ⟨subject, dimension, by rw [failed]; rfl⟩

/-- What comes after a clear step fails for want of a link only if the step succeeds. -/
theorem unlinked_bind_iff {α β : Type} {run : Result α} {next : α → Result β} (clear : Clear run) :
    Unlinked (run >>= next) ↔ ∃ value, run = .ok value ∧ Unlinked (next value) := by
  cases run with
  | ok value =>
      constructor
      · exact fun unlinked => ⟨value, rfl, unlinked⟩
      · rintro ⟨_, ⟨⟩, unlinked⟩
        exact unlinked
  | error failure =>
      constructor
      · rintro ⟨subject, dimension, same⟩
        cases same
        exact absurd trivial (clear _ rfl)
      · rintro ⟨_, ⟨⟩, _⟩

/-- A run whose steps fail for want of a link alone fails so exactly if one of its steps does. -/
theorem unlinked_foldlM_iff {α β : Type} {items : List α} {step : β → α → Result β}
    {good : α → Prop}
    (succeeds : ∀ item ∈ items, good item → ∀ state, ∃ next, step state item = .ok next)
    (fails : ∀ item ∈ items, ¬ good item → ∀ state, Unlinked (step state item)) (start : β) :
    Unlinked (items.foldlM step start) ↔ ∃ item ∈ items, ¬ good item := by
  constructor
  · intro unlinked
    by_contra none
    simp only [not_exists, not_and, not_not] at none
    obtain ⟨final, done⟩ := Result.foldlM_ok
      (fun item member => succeeds item member (none item member)) start
    obtain ⟨subject, dimension, failed⟩ := unlinked
    cases done.symm.trans failed
  · intro bad
    induction items generalizing start with
    | nil =>
        obtain ⟨_, none, _⟩ := bad
        cases none
    | cons item rest ih =>
        rw [List.foldlM_cons]
        by_cases here : good item
        · obtain ⟨next, done⟩ := succeeds item List.mem_cons_self here start
          rw [Result.bind_of_ok done]
          refine ih (fun later member => succeeds later (List.mem_cons_of_mem item member))
            (fun later member => fails later (List.mem_cons_of_mem item member)) next ?_
          obtain ⟨other, member, lost⟩ := bad
          rcases List.mem_cons.1 member with rfl | later
          · exact absurd here lost
          · exact ⟨other, later, lost⟩
        · exact (fails item List.mem_cons_self here start).bind _

/-- What is clear does not matter to whether the step in front of it fails for want of a link. -/
theorem unlinked_bind_of_clear {α β : Type} {run : Result α} {next : α → Result β}
    (later : ∀ value, run = .ok value → Clear (next value)) :
    Unlinked (run >>= next) ↔ Unlinked run := by
  refine ⟨fun unlinked => ?_, fun unlinked => unlinked.bind next⟩
  cases run with
  | ok value => exact absurd (later value rfl) unlinked.not_clear
  | error failure =>
      obtain ⟨subject, dimension, same⟩ := unlinked
      cases same
      exact ⟨subject, dimension, rfl⟩

section

variable {start : List Node} {dimension : String}

/-- A path is found to a dimension that links lead to. -/
theorem exists_demandJoin (accepted : catalog.Accepted) (inside : start ⊆ catalog.nodes)
    (outside : dimension ∉ start.map Node.name) (leads : catalog.LeadsTo start dimension)
    (subject : String) (state : Demand × List (List Hop)) :
    ∃ next, demandJoin catalog subject start state dimension = .ok next := by
  obtain ⟨path, found⟩ := Option.isSome_iff_exists.1
    ((accepted.isSome_dimensionPath_iff inside outside).2 leads)
  obtain ⟨demand, added⟩ := exists_addPath accepted found state.1
  rw [demandJoin, found]
  exact ⟨_, Result.bind_of_ok added _⟩

theorem unlinked_demandJoin (accepted : catalog.Accepted) (inside : start ⊆ catalog.nodes)
    (outside : dimension ∉ start.map Node.name) (lost : ¬ catalog.LeadsTo start dimension)
    (subject : String) (state : Demand × List (List Hop)) :
    Unlinked (demandJoin catalog subject start state dimension) := by
  rw [demandJoin]
  split
  next => exact ⟨subject, dimension, rfl⟩
  next path found =>
    have some := Option.isSome_of_eq_some found
    exact absurd ((accepted.isSome_dimensionPath_iff inside outside).1 some) lost

end

/-! ## Queries for nodes -/

section

variable {start : List Node} {name : String}

/-- The demand of a full name is that of its node, unless that is one to start from. -/
theorem demandDimension_eq {dimension column : String}
    (split : Text.splitLastDot? name = some (dimension, column)) (node : Node)
    (state : Demand × List (List Hop)) :
    demandDimension catalog node start state name =
      if start.any fun other => other.name == dimension then
        .ok (state.1.addColumn dimension column, state.2)
      else
        demandJoin catalog node.name start (state.1.addColumn dimension column, state.2)
          dimension := by
  rw [demandDimension, splitName, split]
  rfl

theorem not_mem_names_of_any {dimension : String}
    (none : ¬ (start.any fun other => other.name == dimension) = true) :
    dimension ∉ start.map Node.name := by
  intro there
  obtain ⟨other, member, same⟩ := List.mem_map.1 there
  exact none (List.any_eq_true.2 ⟨other, member, beq_iff_eq.2 same⟩)

theorem exists_demandDimension (accepted : catalog.Accepted) (inside : start ⊆ catalog.nodes)
    (joinable : catalog.Joinable start name) (node : Node) (state : Demand × List (List Hop)) :
    ∃ next, demandDimension catalog node start state name = .ok next := by
  obtain ⟨dimension, column, split, leads⟩ := joinable
  rw [demandDimension_eq split]
  split
  next => exact ⟨_, rfl⟩
  next none => exact exists_demandJoin accepted inside (not_mem_names_of_any none) leads _ _

theorem unlinked_demandDimension (accepted : catalog.Accepted) (inside : start ⊆ catalog.nodes)
    (splits : (Text.splitLastDot? name).isSome) (lost : ¬ catalog.Joinable start name)
    (node : Node) (state : Demand × List (List Hop)) :
    Unlinked (demandDimension catalog node start state name) := by
  obtain ⟨⟨dimension, column⟩, split⟩ := Option.isSome_iff_exists.1 splits
  have unled : ¬ catalog.LeadsTo start dimension := fun leads =>
    lost ⟨dimension, column, split, leads⟩
  rw [demandDimension_eq split]
  split
  next root => exact absurd (Catalog.LeadsTo.of_any root) unled
  next none => exact unlinked_demandJoin accepted inside (not_mem_names_of_any none) unled _ _

end

theorem clear_filterOfText (text : String) : Clear (Filter.ofText text) := by
  have literal : ∀ raw, Clear (Filter.literal raw) := by
    intro raw
    rw [Filter.literal]
    dsimp only
    repeat' split
    all_goals first | exact .ok _ | exact .error id
  rw [Filter.ofText]
  split
  · exact .error id
  · exact (literal _).bind fun _ _ => .ok _

theorem clear_dimensions (accepted : catalog.Accepted) (member : node ∈ catalog.nodes) :
    Clear (catalog.dimensions node) := by
  obtain ⟨found, done, _⟩ := accepted.reachable (Catalog.roots_subset member)
  rw [Catalog.dimensions, done]
  exact .pure _

/-- The dimensions of a node are columns of what links lead to. -/
theorem exists_of_mem_dimensions (accepted : catalog.Accepted) (member : node ∈ catalog.nodes)
    {names : List String} (done : catalog.dimensions node = .ok names) {name : String}
    (among : name ∈ names) : ∃ other, catalog.Reached (catalog.roots node) other ∧
      ∃ column ∈ other.columns, Text.dotted [other.name, column.name] = name := by
  obtain ⟨found, collected, reached⟩ := accepted.reachable (Catalog.roots_subset member)
  rw [Catalog.dimensions, Result.bind_of_ok collected] at done
  cases Result.pure_eq_ok.1 done
  obtain ⟨other, there, shown⟩ := List.mem_flatMap.1 (Catalog.mem_sortedSet.1 among)
  obtain ⟨column, isColumn, same⟩ := List.mem_map.1 shown
  exact ⟨other, (reached other).1 there, column, isColumn, same⟩

theorem clear_checkDimensions (accepted : catalog.Accepted) (member : node ∈ catalog.nodes)
    (names : List String) : Clear (checkDimensions catalog node names) := by
  refine (clear_dimensions accepted member).bind fun valid _ => ?_
  split
  · exact .pure _
  · exact .error id

/-- Names that are not refused are columns of what links lead to. -/
theorem exists_of_valid (accepted : catalog.Accepted) (member : node ∈ catalog.nodes)
    {names : List String} (valid : checkDimensions catalog node names = .ok ()) {name : String}
    (asked : name ∈ names) : ∃ other, catalog.Reached (catalog.roots node) other ∧
      ∃ column ∈ other.columns, Text.dotted [other.name, column.name] = name := by
  obtain ⟨known, done, rest⟩ := Result.bind_eq_ok.1 valid
  split at rest
  next none =>
    have all := List.filter_eq_nil_iff.1 none name asked
    exact exists_of_mem_dimensions accepted member done (by simpa using all)
  next => cases rest

theorem isSome_splitLastDot?_of_valid (accepted : catalog.Accepted) (member : node ∈ catalog.nodes)
    {names : List String} (valid : checkDimensions catalog node names = .ok ()) :
    ∀ name ∈ names, (Text.splitLastDot? name).isSome := by
  intro name asked
  obtain ⟨other, _, column, _, rfl⟩ := exists_of_valid accepted member valid asked
  exact Text.isSome_splitLastDot?_dotted _ _

section

variable {groupBys filters : List String} {parsed : List Filter} {requested : Option Int}

theorem clear_addFilters (names : NodeNames)
    (splits : ∀ filter ∈ parsed, (Text.splitLastDot? filter.name).isSome) (select : Select) :
    Clear (parsed.foldlM (addFilter names) select) := by
  refine Result.clear_foldlM (fun filter member select => ?_) select
  obtain ⟨pair, split⟩ := Option.isSome_iff_exists.1 (splits filter member)
  rw [addFilter, Filter.dimension, split]
  exact .pure _

theorem clear_addGroupBys (names : NodeNames)
    (splits : ∀ name ∈ groupBys, (Text.splitLastDot? name).isSome) (select : Select) :
    Clear (groupBys.foldlM (addGroupBy names) select) := by
  refine Result.clear_foldlM (fun name member select => ?_) select
  obtain ⟨pair, split⟩ := Option.isSome_iff_exists.1 (splits name member)
  rw [addGroupBy, splitName, split]
  exact .pure _

/-- A query for a node whose dimensions were demanded is finished without a fault of a link. -/
theorem NodeStart.clear_finish (accepted : catalog.Accepted) (member : node ∈ catalog.nodes)
    (start : NodeStart catalog node groupBys filters) (chosen : Database) :
    Clear (start.finish chosen) := by
  have splits := isSome_splitLastDot?_of_valid accepted member start.valid
  refine (builds_queryOf node _).clear.bind fun query _ => ?_
  refine (builds_namesInQuery node query).clear.bind fun names _ => ?_
  refine (builds_addPaths _ _).clear.bind fun joins _ => ?_
  refine (clear_addFilters names (fun filter there => ?_) _).bind fun select _ => ?_
  · apply splits
    rw [askedNames, Catalog.mem_sortedSet]
    exact List.mem_append_right _ (List.mem_map_of_mem there)
  · refine (clear_addGroupBys names (fun name there => ?_) select).bind fun _ _ => .pure _
    apply splits
    rw [askedNames, Catalog.mem_sortedSet]
    exact List.mem_append_left _ there

/-- A request for a node that is valid, but names a dimension that cannot be joined. -/
def AsksUnlinked (catalog : Catalog) (node : Node) (groupBys filters : List String) : Prop :=
  ∃ parsed, filters.mapM Filter.ofText = .ok parsed ∧
    checkDimensions catalog node (askedNames groupBys parsed) = .ok () ∧
      (∃ references, catalog.nodeReferences node = .ok references) ∧
        ∃ name ∈ askedNames groupBys parsed, ¬ catalog.Joinable (catalog.roots node) name

/-- A query for a node, once its request was found valid. -/
theorem NodeStart.clear_rest (accepted : catalog.Accepted) (member : node ∈ catalog.nodes)
    (start : NodeStart catalog node groupBys filters) :
    Clear (start.choose requested >>= start.finish) :=
  FailsWith.bind (Catalog.builds_databaseFor _ _ _).clear fun chosen _ =>
    start.clear_finish accepted member chosen

/-- A query for a node fails for want of a link exactly if the request is valid and names a
dimension that cannot be joined. -/
theorem unlinked_nodeQuery_iff (accepted : catalog.Accepted) (member : node ∈ catalog.nodes)
    (groupBys filters : List String) (requested : Option Int) :
    Unlinked (nodeQuery catalog node groupBys filters requested) ↔
      AsksUnlinked catalog node groupBys filters := by
  have inside := Catalog.roots_subset member
  rw [nodeQuery, unlinked_bind_iff (FailsWith.mapM fun text _ => clear_filterOfText text)]
  refine exists_congr fun parsed => and_congr_right fun parses => ?_
  rw [unlinked_bind_iff (clear_checkDimensions accepted member _)]
  refine Unique.exists_iff.trans (and_congr_right fun valid => ?_)
  have splits := isSome_splitLastDot?_of_valid accepted member valid
  rw [unlinked_bind_iff (Catalog.builds_nodeReferences node).clear, ← exists_and_right]
  refine exists_congr fun references => and_congr_right fun refers => ?_
  rw [unlinked_bind_of_clear]
  · exact unlinked_foldlM_iff
      (fun name _ joinable => exists_demandDimension accepted inside joinable node)
      (fun name asked lost => unlinked_demandDimension accepted inside (splits name asked) lost node)
      _
  · rintro ⟨demand, paths⟩ demands
    exact NodeStart.clear_rest accepted member
      { parsed, parses, valid, references, refers, demand, paths, demands }

/-- A full name that a query for a node asks for can always be taken apart. -/
theorem nodeQuery_ne_invalidColumnName (accepted : catalog.Accepted) (member : node ∈ catalog.nodes)
    (groupBys filters : List String) (requested : Option Int) (name : String) :
    nodeQuery catalog node groupBys filters requested ≠ .error (.invalidColumnName name) := by
  have inside := Catalog.roots_subset member
  have other {α : Type} {run : Result α} (clear : Clear run) :
      run.FailsWith fun error => error ≠ .invalidColumnName name :=
    clear.mono fun error elsewhere same => elsewhere (same ▸ trivial)
  suffices fails : (nodeQuery catalog node groupBys filters requested).FailsWith
      fun error => error ≠ .invalidColumnName name from
    fun failed => fails _ failed rfl
  refine (other (FailsWith.mapM fun text _ => clear_filterOfText text)).bind fun parsed parses => ?_
  refine (other (clear_checkDimensions accepted member _)).bind fun _ valid => ?_
  refine (other (Catalog.builds_nodeReferences node).clear).bind fun references refers => ?_
  refine (FailsWith.foldlM (fun _ => True) trivial (fun asked isAsked state _ => ?_)
    fun _ _ _ _ _ _ => trivial).bind ?_
  · by_cases joinable : catalog.Joinable (catalog.roots node) asked
    · obtain ⟨next, done⟩ := exists_demandDimension accepted inside joinable node state
      exact done ▸ .ok next
    · have splits := isSome_splitLastDot?_of_valid accepted member valid asked isAsked
      obtain ⟨subject, dimension, failed⟩ :=
        unlinked_demandDimension accepted inside splits joinable node state
      exact failed ▸ .error nofun
  · rintro ⟨demand, paths⟩ demands
    exact other (NodeStart.clear_rest accepted member
      { parsed, parses, valid, references, refers, demand, paths, demands })

end

/-! ## SQL over metrics -/

/-- Whether a column is one of a dimension to join: the node that it names is none of those in FROM,
and its full name is a dimension. -/
def Scope.Joins (scope : Scope) (column : Column) (dimension : String) : Prop :=
  ¬ (column.table.isSome ∨ scope.IsAlias column) ∧
    ∃ name, nodeAndColumn? column = some (dimension, name) ∧
      dimension ∉ scope.parents.map Node.name ∧ Text.dotted [dimension, name] ∈ scope.dimensions

section

variable {scope : Scope} {column : Column} {dimension : String}

/-- A node is one of a dimension to join exactly if it is not in FROM. -/
theorem owner_joined_iff {node name : String} :
    (∃ label, owner catalog scope node name = .ok (label, true)) ↔
      node ∉ scope.parents.map Node.name ∧ Text.dotted [node, name] ∈ scope.dimensions := by
  rw [owner]
  split
  next parent found =>
    have among : node ∈ scope.parents.map Node.name :=
      List.mem_map.2 ⟨parent, List.mem_of_find?_eq_some found, by simpa using List.find?_some found⟩
    refine iff_of_false ?_ fun both => both.1 among
    split <;> rintro ⟨label, ⟨⟩⟩
  next none =>
    have outside : node ∉ scope.parents.map Node.name := by
      intro among
      obtain ⟨parent, member, same⟩ := List.mem_map.1 among
      exact List.find?_eq_none.1 none parent member (beq_iff_eq.2 same)
    split
    next valid => exact iff_of_true ⟨_, rfl⟩ ⟨outside, by simpa using valid⟩
    next invalid =>
      refine iff_of_false ?_ fun both => invalid (by simpa using both.2)
      split <;> rintro ⟨label, ⟨⟩⟩

theorem Scope.joins_iff (catalog : Catalog)
    (moves : ¬ (column.table.isSome ∨ scope.IsAlias column)) {node name : String}
    (named : nodeAndColumn? column = some (node, name)) :
    scope.Joins column dimension ↔
      node = dimension ∧ ∃ label, owner catalog scope node name = .ok (label, true) := by
  rw [owner_joined_iff, Scope.Joins, named]
  constructor
  · rintro ⟨-, other, same, joins⟩
    cases same
    exact ⟨rfl, joins⟩
  · rintro ⟨rfl, joins⟩
    exact ⟨moves, name, rfl, joins⟩

/-- What is to be joined once a column is noted. -/
theorem mem_joined_note {found : Found} :
    dimension ∈ (found.note catalog scope column).joined ↔
      dimension ∈ found.joined ∨ scope.Joins column dimension := by
  rw [Found.note]
  split
  next stays => simp [Scope.Joins, stays]
  next moves =>
    split
    next none => simp [Scope.Joins, none]
    next node name named =>
      rw [Scope.joins_iff catalog moves named]
      split
      next failure failed => simp [failed]
      next label isJoined done =>
        cases isJoined with
        | false => simp [done]
        | true =>
            by_cases there : node ∈ found.joined
            · simp only [done, List.contains_iff_mem.2 there, Bool.not_true, Bool.and_false,
                Bool.false_eq_true, if_false]
              exact ⟨.inl, fun either => either.elim id fun same => same.1 ▸ there⟩
            · simp [done, there, eq_comm]

/-- What is to be joined once some columns are noted. -/
theorem mem_joined_foldl_note {columns : List Column} {found : Found} :
    dimension ∈ (columns.foldl (Found.note catalog scope) found).joined ↔
      dimension ∈ found.joined ∨ ∃ column ∈ columns, scope.Joins column dimension := by
  induction columns generalizing found with
  | nil => simp
  | cons first rest ih =>
      rw [List.foldl_cons, ih, mem_joined_note, List.exists_mem_cons_iff, or_assoc]

end

theorem clear_items (items : List Expr) (start : Items) :
    Clear (items.foldlM (Items.add catalog) start) := by
  refine Result.clear_foldlM (fun item _ items => ?_) start
  have metric : ∀ node, Clear (Metric.ofNode catalog node) := by
    intro node
    rw [Metric.ofNode]
    split
    · exact .error id
    · refine (builds_ofText _).clear.bind fun query _ => ?_
      refine (builds_qualifyColumns _ _).clear.bind fun select _ => ?_
      split
      · exact .error id
      · exact .pure _
  rw [Items.add]
  dsimp only
  split
  · exact .error id
  · exact .pure _
  · split
    · exact (metric _).bind fun _ _ => .pure _
    · exact .error id

theorem clear_scopeOf (accepted : catalog.Accepted) {metrics : List Metric}
    (known : ∀ metric ∈ metrics, metric.node ∈ catalog.nodes) (select : Select) :
    Clear (scopeOf catalog metrics select) := by
  rw [scopeOf.eq_def]
  dsimp only
  split
  next metric _ =>
    exact (clear_dimensions accepted (known metric List.mem_cons_self)).bind fun _ _ => .pure _
  next =>
    have subject : Clear (subject? catalog select) := by
      refine (FailsWith.mapM fun name _ => ?_).bind fun nodes _ => ?_
      · rw [identifiedNode]
        split
        · exact .ok _
        · exact .error id
      · split
        · exact .pure _
        · exact .pure _
        · exact .error id
    refine subject.bind fun found _ => ?_
    split <;> exact .pure _

/-- The metrics of a projection are those of nodes that are metrics. -/
theorem metrics_of_items {items : List Expr} {found : Items}
    (done : items.foldlM (Items.add catalog) {} = .ok found) :
    ∀ metric ∈ found.metrics, metric.node ∈ catalog.nodes ∧ metric.node.isMetric = true := by
  refine Result.foldlM_induction (fun found : Items =>
    ∀ metric ∈ found.metrics, metric.node ∈ catalog.nodes ∧ metric.node.isMetric = true)
    (fun _ none => absurd none List.not_mem_nil) ?_ done
  intro item _ before after known step
  rcases Items.add_cases step with ⟨_, rfl⟩ | ⟨node, own, name, named, isMetric, made, rfl⟩
  · exact known
  · obtain ⟨made⟩ := Metric.nonempty_of made
    have member := (Catalog.mem_of_node? (Items.node?_of_nodeOf? named)).1
    intro metric there
    rcases List.mem_append.1 there with before | last
    · exact known metric before
    · cases List.mem_singleton.1 last
      exact (made.isOf ▸ ⟨member, isMetric⟩ :
        own.node ∈ catalog.nodes ∧ own.node.isMetric = true)

section

variable {sql : String} {logical : Logical} {requested : Option Int}

theorem clear_logicalOf (accepted : catalog.Accepted) (sql : String) :
    Clear (logicalOf catalog sql) := by
  refine (builds_ofText sql).clear.bind fun query _ => ?_
  split
  · exact .error id
  · have sources : Clear (checkSources query.select) := by
      rw [checkSources]
      split
      · exact .ok _
      · split
        · exact .ok _
        · exact .error id
    refine sources.bind fun _ _ => (clear_items _ _).bind fun items finds => ?_
    have parents : Clear (checkParents items.metrics) := by
      rw [checkParents.eq_def]
      split
      · exact .ok _
      · split
        · exact .ok _
        · exact .error id
    have known := fun metric member => (metrics_of_items finds metric member).1
    refine parents.bind fun _ _ => (clear_scopeOf accepted known _).bind ?_
    rintro ⟨sources, scope⟩ _
    refine (Result.clear_foldlM (fun metric _ _ => ?_) _).bind fun _ _ => .pure _
    exact (Catalog.builds_nodeReferences _).clear.bind fun _ _ => .pure _

theorem clear_resolve (logical : Logical) : Clear (logical.resolve catalog) := by
  have column : ∀ column, Clear (ownedColumn catalog logical.scope column) := by
    intro column
    have owner : ∀ node name, Clear (owner catalog logical.scope node name) := by
      intro node name
      rw [Planner.owner]
      repeat' split
      all_goals first | exact .ok _ | exact .error id
    rw [ownedColumn]
    split
    · exact .ok _
    · split
      · exact .error id
      · exact (owner _ _).bind fun _ _ => .pure _
  have expr : ∀ item, Clear (Expr.mapColumnsM (ownedColumn catalog logical.scope) item) :=
    fun _ => Expr.mapColumnsM_failsWith fun found _ => column found
  have select := logical.select.mapExprsM_failsWith fun item _ => expr item
  have notes := logical.select.notes_mapExprsM (notes_resolveColumn catalog logical.scope)
  rw [Logical.resolve, notes]
  exact select.map _

/-- SQL over metrics fails for want of a link exactly if its columns are resolved and one of them is
of a dimension that no link leads to. -/
theorem unlinked_metricQuery_iff (accepted : catalog.Accepted) (sql : String)
    (requested : Option Int) :
    Unlinked (metricQuery catalog sql requested) ↔
      ∃ logical, logicalOf catalog sql = .ok logical ∧
        (∃ resolved, logical.resolve catalog = .ok resolved) ∧
          ∃ column ∈ logical.columns, ∃ dimension, logical.scope.Joins column dimension ∧
            ¬ catalog.LeadsTo logical.scope.parents dimension := by
  rw [metricQuery_eq, unlinked_bind_iff (clear_logicalOf accepted sql)]
  refine exists_congr fun logical => and_congr_right fun begun => ?_
  rw [unlinked_bind_iff (clear_resolve logical), ← exists_and_right]
  refine exists_congr fun ⟨select, found⟩ => and_congr_right fun resolved => ?_
  have inside : logical.scope.parents ⊆ catalog.nodes := fun parent isParent =>
    (Catalog.mem_of_node? (named_scope (Logical.of_logicalOf begun).scopes parent isParent)).1
  have noted : ∀ dimension, dimension ∈ found.joined ↔
      ∃ column ∈ logical.columns, logical.scope.Joins column dimension := by
    intro dimension
    have notes := logical.select.notes_mapExprsM (notes_resolveColumn catalog logical.scope)
    rw [(notes.of_ok resolved).2]
    exact mem_joined_foldl_note.trans (by simp [Logical.columns])
  have outside : ∀ dimension ∈ found.joined, dimension ∉ logical.scope.parents.map Node.name := by
    intro dimension met
    obtain ⟨column, _, _, _, _, foreign, _⟩ := (noted dimension).1 met
    exact foreign
  dsimp only
  rw [Logical.finish, unlinked_bind_of_clear, unlinked_foldlM_iff
    (fun dimension met leads => exists_demandJoin accepted inside (outside dimension met) leads _)
    (fun dimension met lost => unlinked_demandJoin accepted inside (outside dimension met) lost _)]
  · simp only [noted]
    constructor
    · rintro ⟨dimension, ⟨column, member, joins⟩, lost⟩
      exact ⟨column, member, dimension, joins, lost⟩
    · rintro ⟨column, member, dimension, joins, lost⟩
      exact ⟨dimension, ⟨column, member, joins⟩, lost⟩
  · rintro ⟨demand, paths⟩ _
    refine (Catalog.builds_databaseFor _ _ _).clear.bind fun database _ => ?_
    refine (builds_addPaths paths _).clear.bind fun joins _ => ?_
    exact (bindRelations_failsWith (fun node _ aliasName =>
      (builds_relationOf node aliasName).clear) _).bind fun _ _ => .pure _

end

/-- Without dots in names every valid request can be joined. -/
theorem not_asksUnlinked (accepted : catalog.Accepted) (undotted : catalog.Undotted)
    (member : node ∈ catalog.nodes) (groupBys filters : List String) :
    ¬ AsksUnlinked catalog node groupBys filters := by
  rintro ⟨parsed, _, valid, _, name, asked, lost⟩
  obtain ⟨other, reached, column, isColumn, rfl⟩ := exists_of_valid accepted member valid asked
  have known := reached.mem (Catalog.roots_subset member)
  exact lost (.of_undotted reached (undotted.columns other known column isColumn))

/-- Without dots in names, links lead from the parents of a metric to each of its dimensions. -/
theorem leadsTo_of_joins (accepted : catalog.Accepted) (undotted : catalog.Undotted)
    (derived : ∀ node ∈ catalog.nodes, node.isMetric = true → node.parents ≠ []) {sql : String}
    {logical : Logical} (begun : logicalOf catalog sql = .ok logical) {column : Column}
    {dimension : String} (joins : logical.scope.Joins column dimension) :
    catalog.LeadsTo logical.scope.parents dimension := by
  have known := Logical.of_logicalOf begun
  obtain ⟨_, name, _, _, valid⟩ := joins
  cases listed : logical.items.metrics with
  | nil =>
      have scopes := known.scopes
      rw [scopeOf.eq_def, listed] at scopes
      obtain ⟨subject, _, last⟩ := Result.bind_eq_ok.1 scopes
      split at last
      all_goals
        rw [← (Prod.mk.inj (Result.pure_eq_ok.1 last)).2] at valid
        cases valid
  | cons first rest =>
      have isFirst : first ∈ logical.items.metrics := by
        rw [listed]
        exact List.mem_cons_self
      obtain ⟨member, isMetric⟩ := metrics_of_items known.finds first isFirst
      have start : catalog.roots first.node = logical.scope.parents := by
        rw [(known.first listed).2, Catalog.roots, if_neg]
        exact fun orphan => derived _ member isMetric (List.isEmpty_iff.1 orphan)
      have scopes := known.scopes
      rw [scopeOf.eq_def, listed] at scopes
      obtain ⟨dimensions, collected, last⟩ := Result.bind_eq_ok.1 scopes
      rw [← (Prod.mk.inj (Result.pure_eq_ok.1 last)).2] at valid
      obtain ⟨other, reached, shown, isColumn, same⟩ :=
        exists_of_mem_dimensions accepted member collected valid
      have inside := reached.mem (Catalog.roots_subset member)
      have parts := Text.eq_of_dotted_eq (undotted.nodes other inside)
        (undotted.columns other inside shown isColumn) same
      exact start ▸ ⟨other, reached, parts.1⟩

/-- In a catalog that is accepted, a query for a node never fails on a full name that cannot be taken
apart. It fails for want of a link exactly if its request is valid but has a full name in front of
whose last dot is the name of no node that links lead to; SQL over metrics does exactly if one of its
columns is of a dimension by its full name, but no link leads to the node it names from those in
FROM. Neither happens without dots in names, if metrics have parents. -/
theorem valid_dimensions_are_joined_iff {databases : List Database} {nodes : List Node}
    (built : Catalog.build databases nodes = .ok catalog) :
    (∀ node ∈ catalog.nodes, ∀ groupBys filters requested,
      (∀ name, nodeQuery catalog node groupBys filters requested ≠
        .error (.invalidColumnName name)) ∧
      ((∃ subject dimension, nodeQuery catalog node groupBys filters requested =
          .error (.noDimensionLink subject dimension)) ↔
        ∃ parsed, filters.mapM Filter.ofText = .ok parsed ∧
          checkDimensions catalog node (askedNames groupBys parsed) = .ok () ∧
          (∃ references, catalog.nodeReferences node = .ok references) ∧
          ∃ name ∈ askedNames groupBys parsed, ¬ catalog.Joinable (catalog.roots node) name)) ∧
    (∀ sql requested,
      (∃ subject dimension, metricQuery catalog sql requested =
          .error (.noDimensionLink subject dimension)) ↔
        ∃ logical, logicalOf catalog sql = .ok logical ∧
          (∃ resolved, logical.resolve catalog = .ok resolved) ∧
          ∃ column ∈ logical.columns, ∃ dimension, logical.scope.Joins column dimension ∧
            ¬ catalog.LeadsTo logical.scope.parents dimension) ∧
    (catalog.Undotted →
      (∀ node ∈ catalog.nodes, ∀ groupBys filters requested subject dimension,
        nodeQuery catalog node groupBys filters requested ≠
          .error (.noDimensionLink subject dimension)) ∧
      ((∀ node ∈ catalog.nodes, node.isMetric = true → node.parents ≠ []) →
        ∀ sql requested subject dimension,
          metricQuery catalog sql requested ≠ .error (.noDimensionLink subject dimension))) := by
  have accepted := Catalog.accepted_of_build built
  refine ⟨?_, unlinked_metricQuery_iff accepted, fun undotted => ⟨?_, ?_⟩⟩
  · intro node member groupBys filters requested
    exact ⟨nodeQuery_ne_invalidColumnName accepted member groupBys filters requested,
      unlinked_nodeQuery_iff accepted member groupBys filters requested⟩
  · intro node member groupBys filters requested subject dimension failed
    refine not_asksUnlinked accepted undotted member groupBys filters ?_
    exact (unlinked_nodeQuery_iff accepted member _ _ requested).1 ⟨subject, dimension, failed⟩
  · intro derived sql requested subject dimension failed
    obtain ⟨logical, begun, _, column, _, other, joins, lost⟩ :=
      (unlinked_metricQuery_iff accepted sql requested).1 ⟨subject, dimension, failed⟩
    exact lost (leadsTo_of_joins accepted undotted derived begun joins)

/-- Orders with a column whose name has a dot, and their number, which is a metric without parents
that has a column. -/
def dottedOrders : Catalog :=
  { databases := [{ id := 1, name := "a", uri := "duckdb://x" }]
    nodes :=
      [{ name := "orders", kind := .source, columns := [{ name := "amount" }, { name := "a.b" }]
         tables := [{ database := 1, table := "orders" }] },
       { name := "number", kind := .metric, columns := [{ name := "day" }]
         expression := some "SELECT COUNT(*)" }] }

/-- A column that orders have themselves is said to need a link, since its name has a dot, and so is
a column of a metric without parents. -/
theorem valid_dimensions_are_joined_iff_dottedOrders :
    Catalog.build dottedOrders.databases dottedOrders.nodes = .ok dottedOrders ∧
      (∃ orders ∈ dottedOrders.nodes,
        dottedOrders.dimensions orders = .ok ["orders.a.b", "orders.amount"] ∧
        (∃ subject dimension, nodeQuery dottedOrders orders ["orders.a.b"] [] none =
          .error (.noDimensionLink subject dimension)) ∧
        ¬ dottedOrders.Joinable (dottedOrders.roots orders) "orders.a.b") ∧
      ∃ number ∈ dottedOrders.nodes, dottedOrders.dimensions number = .ok ["number.day"] ∧
        ∃ subject dimension,
          metricQuery dottedOrders "SELECT number, number.day FROM metrics" none =
            .error (.noDimensionLink subject dimension) := by
  have built : Catalog.build dottedOrders.databases dottedOrders.nodes = .ok dottedOrders := by
    decide +kernel
  obtain ⟨queries, -, -⟩ := valid_dimensions_are_joined_iff built
  have orders : dottedOrders.nodes[0] ∈ dottedOrders.nodes := List.getElem_mem (n := 0) (by decide)
  have number : dottedOrders.nodes[1] ∈ dottedOrders.nodes := List.getElem_mem (n := 1) (by decide)
  have failed : nodeQuery dottedOrders dottedOrders.nodes[0] ["orders.a.b"] [] none =
      .error (.noDimensionLink "orders" "orders.a") :=
    Result.eq_error_of_failure? (by decide +kernel)
  obtain ⟨parsed, parses, _, _, name, asked, lost⟩ :=
    (queries _ orders ["orders.a.b"] [] none).2.1 ⟨_, _, failed⟩
  cases Result.pure_eq_ok.1 parses
  cases List.mem_singleton.1 asked
  refine ⟨built, ⟨_, orders, Result.eq_ok_of_toOption (by decide +kernel), ⟨_, _, failed⟩, lost⟩, ?_⟩
  refine ⟨_, number, Result.eq_ok_of_toOption (by decide +kernel), "number", "number", ?_⟩
  exact Result.eq_error_of_failure? (by decide +kernel)

end Planner
end SemanticLayer
