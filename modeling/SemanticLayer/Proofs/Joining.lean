import SemanticLayer.Planner.NodeQuery
import SemanticLayer.Proofs.Demands

/-!
# Joining before and after binding

A dimension is joined once, whatever paths lead over it, and it makes no difference to FROM whether
the tables of the parents are bound before the dimensions are joined or afterwards.
-/

namespace SemanticLayer

/-! ## Paths leave the nodes they start from -/

namespace Catalog

variable {catalog : Catalog} {dimension : String} {start : List String}

/-- No hop of a path leads to one of some nodes. -/
def Avoids (names : List String) (path : List Hop) : Prop :=
  ∀ hop ∈ path, hop.dimension ∉ names

/-- The nodes to start from count as seen, and no way that was found leads to one of them. -/
structure Frontier.Leaves (start : List String) (frontier : Frontier) : Prop where
  seen : ∀ name ∈ start, name ∈ frontier.seen
  ways : ∀ entry ∈ frontier.queue, Avoids start entry.2

theorem leaves_expand (catalog : Catalog) (dimension : String) (node : Node) {path : List Hop}
    (avoids : Avoids start path) (columns : List NodeColumn) {frontier : Frontier}
    (leaves : frontier.Leaves start) :
    (expand catalog dimension node path columns frontier).elim (Avoids start)
      (Frontier.Leaves start) := by
  induction columns generalizing frontier with
  | nil => exact leaves
  | cons column columns ih =>
      rw [expand]
      split
      next => exact ih leaves
      next target found =>
        obtain ⟨name, _, unseen⟩ := Option.bind_eq_some_iff.1 found
        split at unseen
        next => cases unseen
        next new =>
          have called : target.name = name := by simpa using List.find?_some unseen
          have outside : target.name ∉ start := by
            intro member
            apply new
            rw [List.contains_iff_mem, ← called]
            exact leaves.seen _ member
          have way : Avoids start (path ++
              [{ source := node.name, column := column.name, dimension := target.name
                 dimensionColumn := column.joinColumn }]) := by
            intro hop member
            rcases List.mem_append.1 member with before | last
            · exact avoids hop before
            · cases List.mem_singleton.1 last
              exact outside
          dsimp only
          split
          next => exact way
          next =>
            apply ih
            constructor
            · intro other member
              exact List.mem_cons_of_mem _ (leaves.seen other member)
            · intro entry member
              rcases List.mem_append.1 member with before | last
              · exact leaves.ways entry before
              · cases List.mem_singleton.1 last
                exact way

theorem avoids_searchPath {fuel : Nat} {frontier : Frontier} {path : List Hop}
    (leaves : frontier.Leaves start)
    (found : searchPath catalog dimension fuel frontier = some path) : Avoids start path := by
  induction fuel generalizing frontier with
  | zero => cases found
  | succ fuel ih =>
      rw [searchPath] at found
      split at found
      next => cases found
      next node way queue entries =>
        have avoids : Avoids start way := leaves.ways (node, way) (by rw [entries]; simp)
        have rest : Frontier.Leaves start { frontier with queue } :=
          ⟨leaves.seen, fun entry member =>
            leaves.ways entry (by rw [entries]; exact List.mem_cons_of_mem _ member)⟩
        have next := leaves_expand catalog dimension node avoids node.columns rest
        split at found
        next ending step =>
          rw [step] at next
          cases found
          exact next
        next after step =>
          rw [step] at next
          exact ih next found

/-- A path never leads back to a node it might have started from. -/
theorem avoids_dimensionPath {nodes : List Node} {path : List Hop}
    (found : catalog.dimensionPath nodes dimension = some path) :
    Avoids (nodes.map Node.name) path := by
  apply avoids_searchPath _ found
  constructor
  · intro name member
    exact member
  · intro entry member
    obtain ⟨node, _, rfl⟩ := List.mem_map.1 member
    intro hop none
    cases none

end Catalog

namespace Planner

open SemanticLayer.Sql
open Catalog (Node Database Hop Materialization)

variable {catalog : Catalog} {database : Database}

/-! ## Joining along paths -/

namespace Joins

variable {joins after : Joins} {hop : Hop} {path : List Hop}

theorem addPath_eq_foldlM (joins : Joins) (path : List Hop) :
    joins.addPath catalog database path = path.foldlM (addHop catalog database) joins := by
  induction path generalizing joins with
  | nil => rfl
  | cons hop path ih =>
      rw [List.foldlM_cons, addPath, along]
      cases joins.addHop catalog database hop with
      | error failure => rfl
      | ok next => exact ih next

/-- The join that a hop adds. -/
def joinOf (joins : Joins) (hop : Hop) (relation : Relation) : Join :=
  { kind := .inner, relation, on := some (joins.condition hop) }

/-- A hop to what is part of the SELECT does nothing. -/
theorem addHop_of_joined (joined : hop.dimension ∈ joins.joined) :
    joins.addHop catalog database hop = .ok joins := by
  rw [addHop, if_pos (by simpa using joined)]
  rfl

/-- Any other hop adds one join. -/
theorem addHop_eq_ok (new : hop.dimension ∉ joins.joined)
    (done : joins.addHop catalog database hop = .ok after) :
    ∃ dimension relation first rest, catalog.node hop.dimension = .ok dimension ∧
      relationOf catalog database dimension none = .ok relation ∧
      joins.select.sources = some (first :: rest) ∧
      after =
        { joins with
          select :=
            { joins.select with
              sources := some (attach (joins.names.nameOf hop.source) (joins.joinOf hop relation)
                (first :: rest)) }
          joined := hop.dimension :: joins.joined } := by
  rw [addHop, if_neg (by simpa using new)] at done
  obtain ⟨dimension, known, rest⟩ := Result.bind_eq_ok.1 done
  obtain ⟨relation, bound, last⟩ := Result.bind_eq_ok.1 rest
  split at last
  next => cases last
  next first others entries =>
    cases Result.pure_eq_ok.1 last
    refine ⟨dimension, relation, first, others, known, bound, ?_, rfl⟩
    cases sources : joins.select.sources with
    | none =>
        rw [sources] at entries
        cases entries
    | some listed =>
        rw [sources, Option.getD_some] at entries
        rw [entries]

/-- What is part of the SELECT stays part of it, and so does what a hop leads to. -/
theorem joined_of_addHop (done : joins.addHop catalog database hop = .ok after) :
    hop.dimension ∈ after.joined ∧ ∀ name ∈ joins.joined, name ∈ after.joined := by
  by_cases joined : hop.dimension ∈ joins.joined
  · rw [addHop_of_joined joined] at done
    cases done
    exact ⟨joined, fun _ member => member⟩
  · obtain ⟨_, _, _, _, _, _, _, rfl⟩ := addHop_eq_ok joined done
    exact ⟨List.mem_cons_self, fun _ member => List.mem_cons_of_mem _ member⟩

theorem joined_of_addPath (done : joins.addPath catalog database path = .ok after) :
    (∀ hop ∈ path, hop.dimension ∈ after.joined) ∧
      ∀ name ∈ joins.joined, name ∈ after.joined := by
  rw [addPath_eq_foldlM] at done
  induction path generalizing joins with
  | nil =>
      cases Result.pure_eq_ok.1 done
      exact ⟨fun _ none => (List.not_mem_nil none).elim, fun _ member => member⟩
  | cons hop path ih =>
      rw [List.foldlM_cons, Result.bind_eq_ok] at done
      obtain ⟨next, step, later⟩ := done
      obtain ⟨here, kept⟩ := joined_of_addHop step
      obtain ⟨others, keptLater⟩ := ih later
      constructor
      · intro other member
        rcases List.mem_cons.1 member with rfl | member
        · exact keptLater _ here
        · exact others other member
      · intro name member
        exact keptLater name (kept name member)

/-- Every dimension on a path is joined, and what was joined stays so. -/
theorem joined_of_addPaths {paths : List (List Hop)}
    (done : paths.foldlM (Joins.addPath catalog database) joins = .ok after) :
    (∀ name ∈ joins.joined, name ∈ after.joined) ∧
      ∀ path ∈ paths, ∀ hop ∈ path, hop.dimension ∈ after.joined := by
  induction paths generalizing joins with
  | nil =>
      cases Result.pure_eq_ok.1 done
      exact ⟨fun _ member => member, nofun⟩
  | cons path paths ih =>
      rw [List.foldlM_cons, Result.bind_eq_ok] at done
      obtain ⟨next, first, later⟩ := done
      obtain ⟨here, kept⟩ := joined_of_addPath first
      obtain ⟨keptLater, others⟩ := ih later
      refine ⟨fun name member => keptLater name (kept name member), ?_⟩
      rw [List.forall_mem_cons]
      exact ⟨fun hop onPath => keptLater _ (here hop onPath), others⟩

/-- A path over dimensions that are all joined does nothing. -/
theorem addPath_of_joined (joined : ∀ hop ∈ path, hop.dimension ∈ joins.joined) :
    joins.addPath catalog database path = .ok joins := by
  rw [addPath_eq_foldlM]
  induction path with
  | nil => rfl
  | cons hop path ih =>
      rw [List.foldlM_cons, addHop_of_joined (joined hop List.mem_cons_self)]
      exact ih fun other member => joined other (List.mem_cons_of_mem hop member)

/-! ## Repeated dimensions -/

/-- The dimensions met so far with one more, unless it was met before. -/
def meet (met : List String) (dimension : String) : List String :=
  if met.contains dimension then met else met ++ [dimension]

theorem mem_foldl_meet {met dimensions : List String} {dimension : String} :
    dimension ∈ dimensions.foldl meet met ↔ dimension ∈ met ∨ dimension ∈ dimensions := by
  induction dimensions generalizing met with
  | nil => simp
  | cons first rest ih =>
      rw [List.foldl_cons, ih, meet, List.mem_cons]
      split
      next known =>
        rw [List.contains_iff_mem] at known
        constructor
        · rintro (before | later)
          · exact .inl before
          · exact .inr (.inr later)
        · rintro (before | rfl | later)
          · exact .inl before
          · exact .inl known
          · exact .inr later
      next => simp [or_assoc]

/-- Dimensions that were all met before add nothing. -/
theorem foldl_meet_of_subset {met dimensions : List String}
    (known : ∀ dimension ∈ dimensions, dimension ∈ met) : dimensions.foldl meet met = met := by
  induction dimensions with
  | nil => rfl
  | cons first rest ih =>
      have contained : met.contains first := by simpa using known first List.mem_cons_self
      rw [List.foldl_cons, meet, if_pos contained]
      exact ih fun dimension member => known dimension (List.mem_cons_of_mem first member)

/-- Once the dimensions met before are joined, a run over all paths ends as one over the paths to
dimensions that were not met before. -/
theorem exists_fresh_of_addPaths
    {start : List Node} (met : List String) {dimensions : List String} {paths : List (List Hop)}
    (joined : ∀ dimension ∈ met, ∀ path, catalog.dimensionPath start dimension = some path →
      ∀ hop ∈ path, hop.dimension ∈ joins.joined)
    (ways : dimensions.map (catalog.dimensionPath start) = paths.map some)
    (done : paths.foldlM (addPath catalog database) joins = .ok after) :
    ∃ fresh, dimensions.foldl meet met = met ++ fresh ∧
      ∀ few : List (List Hop), fresh.map (catalog.dimensionPath start) = few.map some →
        few.foldlM (addPath catalog database) joins = .ok after := by
  induction dimensions generalizing joins met paths with
  | nil =>
      cases List.map_eq_nil_iff.1 ways.symm
      refine ⟨[], by simp, fun few none => ?_⟩
      cases List.map_eq_nil_iff.1 none.symm
      exact done
  | cons dimension dimensions ih =>
      obtain ⟨path, others, rfl, way, ways⟩ := List.map_eq_cons_iff.1 ways.symm
      rw [List.foldlM_cons, Result.bind_eq_ok] at done
      obtain ⟨next, step, later⟩ := done
      rw [List.foldl_cons, meet]
      by_cases known : dimension ∈ met
      · rw [addPath_of_joined (joined dimension known path way.symm)] at step
        cases step
        rw [if_pos (by simpa using known)]
        exact ih met joined ways.symm later
      · obtain ⟨here, kept⟩ := joined_of_addPath step
        have joinedNext : ∀ other ∈ met ++ [dimension], ∀ path,
            catalog.dimensionPath start other = some path →
              ∀ hop ∈ path, hop.dimension ∈ next.joined := by
          intro other member path found hop onPath
          rcases List.mem_append.1 member with before | last
          · exact kept _ (joined other before path found hop onPath)
          · cases List.mem_singleton.1 last
            cases Option.some.inj (found.symm.trans way.symm)
            exact here hop onPath
        obtain ⟨fresh, met_eq, runs⟩ := ih (met ++ [dimension]) joinedNext ways.symm later
        rw [if_neg (by simpa using known)]
        refine ⟨dimension :: fresh, by rw [met_eq, List.append_assoc]; rfl, fun few found => ?_⟩
        obtain ⟨first, rest, rfl, same, restWays⟩ := List.map_eq_cons_iff.1 found.symm
        cases Option.some.inj (same.trans way.symm)
        rw [List.foldlM_cons, step]
        exact runs rest restWays.symm

/-- A SELECT with another FROM. -/
def withSources (select : Select) (sources : Option (List Source)) : Select :=
  { select with sources }

theorem withSources_self (select : Select) : withSources select select.sources = select := by
  cases select
  rfl

/-- A hop changes nothing of a SELECT but its FROM. -/
theorem select_of_addHop (done : joins.addHop catalog database hop = .ok after) :
    after.select = withSources joins.select after.select.sources := by
  by_cases joined : hop.dimension ∈ joins.joined
  · rw [addHop_of_joined joined] at done
    cases done
    exact (withSources_self joins.select).symm
  · obtain ⟨_, _, _, _, _, _, _, rfl⟩ := addHop_eq_ok joined done
    rfl

/-- Joining changes nothing of a SELECT but its FROM. -/
theorem select_of_addPaths {paths : List (List Hop)}
    (done : paths.foldlM (addPath catalog database) joins = .ok after) :
    after.select = withSources joins.select after.select.sources := by
  refine Result.foldlM_induction
    (fun state => state.select = withSources joins.select state.select.sources)
    (withSources_self joins.select).symm ?_ done
  intro path _ before next kept step
  rw [addPath_eq_foldlM] at step
  refine Result.foldlM_induction
    (fun state => state.select = withSources joins.select state.select.sources) kept ?_ step
  intro hop _ before next kept step
  rw [select_of_addHop step, kept]
  rfl

/-! ## Binding -/

variable {bind : Relation → Result Relation} {sources bounds : List Source} {join : Join}

/-- An entry of FROM with one more join. -/
def withJoin (join : Join) (source : Source) : Source :=
  { source with joins := source.joins ++ [join] }

theorem holds_withJoin (name : Name) (source : Source) :
    holds name (withJoin join source) =
      (holds name source || join.relation.referenceName? == some name) := by
  simp [holds, withJoin, Source.relations, List.any_append, ← Bool.or_assoc]

/-- A join whose relation is kept is the same on an entry before and after binding. -/
theorem mapRelationsM_withJoin {source bound : Source}
    (done : source.mapRelationsM bind = .ok bound)
    (fixed : bind join.relation = .ok join.relation) :
    (withJoin join source).mapRelationsM bind = .ok (withJoin join bound) := by
  obtain ⟨primary, first, rest⟩ := Result.bind_eq_ok.1 done
  obtain ⟨joined, others, last⟩ := Result.bind_eq_ok.1 rest
  cases Result.pure_eq_ok.1 last
  rw [withJoin, Source.mapRelationsM, Result.bind_eq_ok]
  refine ⟨primary, first, Result.bind_eq_ok.2 ⟨joined ++ [join], ?_, rfl⟩⟩
  rw [List.mapM_append, Result.bind_eq_ok]
  refine ⟨joined, others, Result.bind_eq_ok.2 ⟨[join], ?_, rfl⟩⟩
  rw [List.mapM_cons, fixed]
  cases join
  rfl

theorem forall₂_addAt {related : Source → Source → Prop}
    (keeps : ∀ source bound, related source bound →
      related (withJoin join source) (withJoin join bound))
    (each : List.Forall₂ related sources bounds) (position : Nat) :
    List.Forall₂ related (addAt join position sources) (addAt join position bounds) := by
  induction each generalizing position with
  | nil =>
      cases position with
      | zero => exact .nil
      | succ position => exact .nil
  | cons here others ih =>
      cases position with
      | zero => exact .cons (keeps _ _ here) others
      | succ position => exact .cons here (ih position)

/-- Joins go to the same entries before and after binding: there is one entry, or entries hold
relations of the same names. -/
def Steady (sources bounds : List Source) : Prop :=
  sources.length ≤ 1 ∨
    List.Forall₂ (fun source bound => ∀ name, holds name source = holds name bound) sources bounds

theorem findIdx?_of_forall₂ {name : Name}
    (each : List.Forall₂ (fun source bound => ∀ name, holds name source = holds name bound)
      sources bounds) :
    sources.findIdx? (holds name) = bounds.findIdx? (holds name) := by
  induction each with
  | nil => rfl
  | cons here _ ih => rw [List.findIdx?_cons, List.findIdx?_cons, here, ih]

/-- The position of the only entry. -/
theorem findIdx?_getD_of_length {listed : List Source} (one : listed.length ≤ 1)
    (name : Name) : (listed.findIdx? (holds name)).getD 0 = 0 := by
  match listed, one with
  | [], _ => rfl
  | [source], _ =>
      rw [List.findIdx?_cons]
      split <;> rfl

/-- Entries of FROM, and the same entries with their relations bound. -/
structure Binds (bind : Relation → Result Relation) (sources bounds : List Source) : Prop where
  each : List.Forall₂ (fun source bound => source.mapRelationsM bind = .ok bound) sources bounds
  steady : Steady sources bounds

theorem length_addAt (join : Join) (position : Nat) (listed : List Source) :
    (addAt join position listed).length = listed.length := by
  induction listed generalizing position with
  | nil => cases position <;> rfl
  | cons source rest ih =>
      cases position with
      | zero => rfl
      | succ position => exact congrArg (· + 1) (ih position)

/-- A join of a kept relation goes to the same place before and after binding. -/
theorem Binds.attach (binds : Binds bind sources bounds)
    (fixed : bind join.relation = .ok join.relation) (name : Name) :
    Binds bind (attach name join sources) (attach name join bounds) := by
  have position : (sources.findIdx? (holds name)).getD 0 = (bounds.findIdx? (holds name)).getD 0 := by
    rcases binds.steady with one | same
    · have also : bounds.length ≤ 1 := binds.each.length_eq ▸ one
      rw [findIdx?_getD_of_length one, findIdx?_getD_of_length also]
    · rw [findIdx?_of_forall₂ same]
  rw [Joins.attach, Joins.attach, position]
  constructor
  · have keeps : ∀ source bound, source.mapRelationsM bind = .ok bound →
        (withJoin join source).mapRelationsM bind = .ok (withJoin join bound) :=
      fun _ _ done => mapRelationsM_withJoin done fixed
    exact forall₂_addAt keeps binds.each _
  · rcases binds.steady with one | same
    · exact .inl (by rw [length_addAt]; exact one)
    · refine .inr (forall₂_addAt (fun source bound here name => ?_) same _)
      rw [holds_withJoin, holds_withJoin, here]

/-- Joins onto a SELECT, and the same joins onto the SELECT with its relations bound. -/
structure Mirrors (bind : Relation → Result Relation) (joins bound : Joins) : Prop where
  names : joins.names = bound.names
  joined : joins.joined = bound.joined
  sources : Option.Rel (Binds bind) joins.select.sources bound.select.sources

variable {bound : Joins}

/-- A hop to a dimension whose relation is kept can be joined before binding as well. -/
theorem Mirrors.addHop (mirrors : Mirrors bind joins bound)
    (fixed : ∀ dimension relation, catalog.node hop.dimension = .ok dimension →
      relationOf catalog database dimension none = .ok relation → bind relation = .ok relation)
    (done : bound.addHop catalog database hop = .ok after) :
    ∃ next, joins.addHop catalog database hop = .ok next ∧ Mirrors bind next after := by
  by_cases known : hop.dimension ∈ bound.joined
  · rw [addHop_of_joined known] at done
    cases done
    rw [← mirrors.joined] at known
    exact ⟨joins, addHop_of_joined known, mirrors⟩
  · obtain ⟨dimension, relation, first, rest, found, related, entries, rfl⟩ :=
      addHop_eq_ok known done
    have sources := mirrors.sources
    rw [entries] at sources
    cases listed : joins.select.sources with
    | none =>
        rw [listed] at sources
        cases sources
    | some all =>
        rw [listed] at sources
        cases sources with
        | some binds =>
            cases all with
            | nil => cases binds.each
            | cons source others =>
                have step : joins.addHop catalog database hop = .ok
                    { joins with
                      select :=
                        { joins.select with
                          sources := some (Joins.attach (joins.names.nameOf hop.source)
                            (joins.joinOf hop relation) (source :: others)) }
                      joined := hop.dimension :: joins.joined } := by
                  rw [Joins.addHop, if_neg (by simpa [mirrors.joined] using known),
                    Result.bind_eq_ok]
                  refine ⟨dimension, found, Result.bind_eq_ok.2 ⟨relation, related, ?_⟩⟩
                  rw [listed]
                  rfl
                have same : joins.joinOf hop relation = bound.joinOf hop relation := by
                  rw [joinOf, joinOf, condition, condition, mirrors.names]
                refine ⟨_, step, mirrors.names, congrArg (hop.dimension :: ·) mirrors.joined, ?_⟩
                rw [same, mirrors.names]
                exact .some (binds.attach (fixed dimension relation found related) _)

/-- A path to dimensions whose relations are kept can be joined before binding as well. -/
theorem Mirrors.addPath (mirrors : Mirrors bind joins bound)
    (fixed : ∀ hop ∈ path, ∀ dimension relation, catalog.node hop.dimension = .ok dimension →
      relationOf catalog database dimension none = .ok relation → bind relation = .ok relation)
    (done : bound.addPath catalog database path = .ok after) :
    ∃ next, joins.addPath catalog database path = .ok next ∧ Mirrors bind next after := by
  rw [addPath_eq_foldlM] at done ⊢
  induction path generalizing joins bound with
  | nil =>
      cases Result.pure_eq_ok.1 done
      exact ⟨joins, rfl, mirrors⟩
  | cons hop path ih =>
      rw [List.foldlM_cons, Result.bind_eq_ok] at done
      obtain ⟨middle, step, later⟩ := done
      obtain ⟨next, stepToo, also⟩ := mirrors.addHop (fixed hop List.mem_cons_self) step
      obtain ⟨final, laterToo, last⟩ :=
        ih also (fun other member => fixed other (List.mem_cons_of_mem hop member)) later
      refine ⟨final, ?_, last⟩
      rw [List.foldlM_cons, stepToo]
      exact laterToo

/-- Paths to dimensions whose relations are kept can be joined before binding as well. -/
theorem Mirrors.addPaths {paths : List (List Hop)} (mirrors : Mirrors bind joins bound)
    (fixed : ∀ path ∈ paths, ∀ hop ∈ path, ∀ dimension relation,
      catalog.node hop.dimension = .ok dimension →
        relationOf catalog database dimension none = .ok relation → bind relation = .ok relation)
    (done : paths.foldlM (Joins.addPath catalog database) bound = .ok after) :
    ∃ next, paths.foldlM (Joins.addPath catalog database) joins = .ok next ∧
      Mirrors bind next after := by
  induction paths generalizing joins bound with
  | nil =>
      cases Result.pure_eq_ok.1 done
      exact ⟨joins, rfl, mirrors⟩
  | cons path paths ih =>
      rw [List.foldlM_cons, Result.bind_eq_ok] at done
      obtain ⟨middle, step, later⟩ := done
      obtain ⟨next, stepToo, also⟩ := mirrors.addPath (fixed path List.mem_cons_self) step
      obtain ⟨final, laterToo, last⟩ :=
        ih also (fun other member => fixed other (List.mem_cons_of_mem path member)) later
      refine ⟨final, ?_, last⟩
      rw [List.foldlM_cons, stepToo]
      exact laterToo

/-- The FROM of joins that mirror others binds to theirs. -/
theorem Mirrors.mapRelationsM (mirrors : Mirrors bind joins bound) :
    joins.select.mapRelationsM bind = .ok (withSources joins.select bound.select.sources) := by
  have sources := mirrors.sources
  rw [Select.mapRelationsM]
  cases listed : joins.select.sources with
  | none =>
      rw [listed] at sources
      cases other : bound.select.sources with
      | none =>
          have same : withSources joins.select none = joins.select := by
            rw [← listed, withSources_self]
          rw [same]
          rfl
      | some bounds =>
          rw [other] at sources
          cases sources
  | some entries =>
      rw [listed] at sources
      cases other : bound.select.sources with
      | none =>
          rw [other] at sources
          cases sources
      | some bounds =>
          rw [other] at sources
          cases sources with
          | some binds =>
              rw [Result.bind_eq_ok]
              exact ⟨bounds, Result.mapM_eq_ok_iff.2 binds.each, rfl⟩

end Joins
end Planner
end SemanticLayer
