import Mathlib.Data.String.Basic
import SemanticLayer.Planner.MetricQuery
import SemanticLayer.Proofs.Outcomes

/-!
# What a demand decides

Which database is chosen depends on which nodes take part and which columns are taken from each of
them, and on nothing else: not on their order, and not on how often they were met.
-/

namespace SemanticLayer

namespace Catalog

theorem mem_insertSorted {text other : String} {sorted : List String} :
    other ∈ insertSorted text sorted ↔ other = text ∨ other ∈ sorted := by
  induction sorted with
  | nil => simp [insertSorted]
  | cons first rest ih =>
      unfold insertSorted
      split
      next same =>
        subst same
        simp
      next =>
        split
        · simp
        · rw [List.mem_cons, ih, List.mem_cons]
          exact or_left_comm

theorem mem_sortedSet {text : String} {texts : List String} :
    text ∈ sortedSet texts ↔ text ∈ texts := by
  have general : ∀ sorted : List String,
      text ∈ texts.foldl (fun all other => insertSorted other all) sorted ↔
        text ∈ sorted ∨ text ∈ texts := by
    induction texts with
    | nil => simp
    | cons first rest ih =>
        intro sorted
        rw [List.foldl_cons, ih, mem_insertSorted, List.mem_cons]
        tauto
  exact (general []).trans (by simp)

/-! ## References -/

namespace References

/-- Nodes stand in order, each one once. -/
def Ordered (references : References) : Prop :=
  references.Pairwise fun entry later => entry.1 < later.1

theorem of_cons (entry : String × List String) (rest : References) (node : String) :
    References.of (entry :: rest) node =
      if entry.1 = node then entry.2 else References.of rest node := by
  rw [References.of, List.find?_cons]
  by_cases same : entry.1 = node
  · simp [same]
  · have other : (entry.1 == node) = false := by simpa using same
    rw [other, if_neg same]
    rfl

/-- Nothing is referenced of a node that would stand before all others. -/
theorem of_eq_nil {references : References} {node : String}
    (before : ∀ entry ∈ references, node < entry.1) : references.of node = [] := by
  induction references with
  | nil => rfl
  | cons entry rest ih =>
      have differs : entry.1 ≠ node := (before entry List.mem_cons_self).ne'
      rw [of_cons, if_neg differs]
      exact ih fun other member => before other (List.mem_cons_of_mem entry member)

theorem fst_of_mem_add {references : References} {node column : String}
    {entry : String × List String} (member : entry ∈ references.add node column) :
    entry.1 = node ∨ ∃ old ∈ references, old.1 = entry.1 := by
  induction references with
  | nil =>
      rw [add, List.mem_singleton] at member
      exact .inl (by rw [member])
  | cons first rest ih =>
      rw [add] at member
      split at member
      next same =>
        rcases List.mem_cons.1 member with rfl | later
        · exact .inl same.symm
        · exact .inr ⟨entry, List.mem_cons_of_mem first later, rfl⟩
      next =>
        split at member
        · rcases List.mem_cons.1 member with rfl | later
          · exact .inl rfl
          · exact .inr ⟨entry, later, rfl⟩
        · rcases List.mem_cons.1 member with rfl | later
          · exact .inr ⟨_, List.mem_cons_self, rfl⟩
          · rcases ih later with same | ⟨old, there, same⟩
            · exact .inl same
            · exact .inr ⟨old, List.mem_cons_of_mem first there, same⟩

theorem Ordered.add {references : References} (ordered : references.Ordered)
    (node column : String) : (references.add node column).Ordered := by
  induction references with
  | nil => exact List.pairwise_singleton _ _
  | cons first rest ih =>
      obtain ⟨before, rest_ordered⟩ := List.pairwise_cons.1 ordered
      rw [References.add]
      split
      next => exact List.pairwise_cons.2 ⟨before, rest_ordered⟩
      next differs =>
        split
        next less =>
          apply List.pairwise_cons.2 ⟨_, ordered⟩
          intro later member
          rcases List.mem_cons.1 member with rfl | member
          · exact less
          · exact less.trans (before later member)
        next notLess =>
          have greater : first.1 < node := lt_of_le_of_ne (not_lt.1 notLess) (Ne.symm differs)
          apply List.pairwise_cons.2 ⟨_, ih rest_ordered⟩
          intro later member
          rcases fst_of_mem_add member with same | ⟨old, there, same⟩
          · rw [same]
            exact greater
          · rw [← same]
            exact before old there

/-- One more column is referenced of one node. -/
theorem Ordered.mem_of_add {references : References} (ordered : references.Ordered)
    {node column other name : String} :
    name ∈ (references.add node column).of other ↔
      (other = node ∧ name = column) ∨ name ∈ references.of other := by
  induction references with
  | nil =>
      rw [References.add, of_cons]
      by_cases same : node = other
      · simp [same, References.of]
      · simp [same, Ne.symm same, References.of]
  | cons first rest ih =>
      obtain ⟨before, rest_ordered⟩ := List.pairwise_cons.1 ordered
      rw [References.add]
      split
      next same =>
        rw [of_cons, of_cons]
        by_cases this : first.1 = other
        · rw [if_pos this, if_pos this, mem_insertSorted]
          simp [same, this]
        · rw [if_neg this, if_neg this]
          simp [same, Ne.symm this]
      next differs =>
        split
        next less =>
          rw [of_cons]
          by_cases this : node = other
          · have absent : References.of (first :: rest) other = [] := by
              apply of_eq_nil
              intro entry member
              rw [← this]
              rcases List.mem_cons.1 member with rfl | member
              · exact less
              · exact less.trans (before entry member)
            rw [absent, if_pos this]
            simp [this]
          · simp [this, Ne.symm this]
        next =>
          rw [of_cons, of_cons]
          by_cases this : first.1 = other
          · have no : ¬ other = node := fun same => differs (same.symm.trans this.symm)
            simp [this, no]
          · rw [if_neg this, if_neg this]
            exact ih rest_ordered

/-- Several columns of a node are added. -/
theorem Ordered.foldl_add {references : References} (ordered : references.Ordered)
    (node : String) (columns : List String) :
    (columns.foldl (fun all column => References.add node column all) references).Ordered ∧
      ∀ other name, name ∈ (columns.foldl (fun all column => References.add node column all)
        references).of other ↔ name ∈ references.of other ∨ (node = other ∧ name ∈ columns) := by
  induction columns generalizing references with
  | nil => exact ⟨ordered, by simp⟩
  | cons column columns ih =>
      obtain ⟨kept, members⟩ := ih (ordered.add node column)
      refine ⟨kept, fun other name => ?_⟩
      rw [List.foldl_cons, members, ordered.mem_of_add, List.mem_cons]
      grind

/-- What is referenced in either place is referenced in both together. -/
theorem Ordered.merge {references others : References} (ordered : references.Ordered)
    (others_ordered : others.Ordered) :
    (references.merge others).Ordered ∧
      ∀ node name, name ∈ (references.merge others).of node ↔
        name ∈ references.of node ∨ name ∈ others.of node := by
  induction others generalizing references with
  | nil => exact ⟨ordered, by simp [References.merge, References.of]⟩
  | cons entry rest ih =>
      obtain ⟨before, rest_ordered⟩ := List.pairwise_cons.1 others_ordered
      obtain ⟨added_ordered, added⟩ := ordered.foldl_add entry.1 entry.2
      obtain ⟨kept, members⟩ := ih added_ordered rest_ordered
      refine ⟨kept, fun node name => ?_⟩
      rw [References.merge] at members ⊢
      rw [List.foldl_cons, members, added, of_cons]
      by_cases this : entry.1 = node
      · have absent : References.of rest node = [] := of_eq_nil (this ▸ before)
        simp [this, absent]
      · simp [this]

end References

/-! ## References of an expression -/

variable {parents : List Node}

/-- The owner that a list of names gives to a column with a qualifier. -/
def RelationNames.owner? (names : RelationNames) (parts : List String) : Option String :=
  (names.meaning? (Text.dotted parts.dropLast)).getD (some (Text.dotted parts.dropLast))

theorem addQualified_eq {names : RelationNames} {parts : List String} {column : String}
    (last : parts.getLast? = some column) (start : References) :
    addQualified names parents start parts = (names.owner? parts).elim (.ok start) fun owner =>
      if parents.any fun parent => parent.name == owner then .ok (start.add owner column)
      else .error (.invalidIdentifier (Text.dotted parts.dropLast)) := by
  simp only [addQualified, last, RelationNames.owner?]
  rcases names.meaning? (Text.dotted parts.dropLast) with _ | _ | table <;> rfl

/-- A column with a qualifier is charged to its owner, which is a parent. -/
theorem addQualified_eq_ok {names : RelationNames} {parts : List String} {start after : References}
    (done : addQualified names parents start parts = .ok after) :
    (∃ column owner, parts.getLast? = some column ∧ names.owner? parts = some owner ∧
      (∃ parent ∈ parents, parent.name = owner) ∧ after = start.add owner column) ∨
      after = start ∧ ∀ column owner, parts.getLast? = some column →
        names.owner? parts ≠ some owner := by
  cases last : parts.getLast? with
  | none =>
      rw [addQualified, last] at done
      cases done
      exact .inr ⟨rfl, fun column owner found => by cases found⟩
  | some column =>
      rw [addQualified_eq last] at done
      cases owned : names.owner? parts with
      | none =>
          rw [owned] at done
          cases done
          exact .inr ⟨rfl, fun _ owner _ found => by cases found⟩
      | some owner =>
          rw [owned, Option.elim_some] at done
          split at done
          next isParent =>
            cases done
            obtain ⟨parent, member, named⟩ := List.any_eq_true.1 isParent
            exact .inl ⟨column, owner, rfl, rfl, ⟨parent, member, by simpa using named⟩, rfl⟩
          next => cases done

/-- Each column with a qualifier is charged to its owner, and nothing else is charged. -/
theorem mem_of_addQualified {names : RelationNames} {columns : List (List String)}
    {start after : References} (ordered : start.Ordered)
    (done : columns.foldlM (addQualified names parents) start = .ok after) :
    after.Ordered ∧
      (∀ owner column, column ∈ after.of owner ↔ column ∈ start.of owner ∨
        ∃ parts ∈ columns, parts.getLast? = some column ∧ names.owner? parts = some owner) ∧
      ∀ parts ∈ columns, ∀ column owner, parts.getLast? = some column →
        names.owner? parts = some owner → ∃ parent ∈ parents, parent.name = owner := by
  induction columns generalizing start with
  | nil =>
      cases Result.pure_eq_ok.1 done
      exact ⟨ordered, by simp, by simp⟩
  | cons parts rest ih =>
      rw [List.foldlM_cons, Result.bind_eq_ok] at done
      obtain ⟨next, first, later⟩ := done
      rcases addQualified_eq_ok first with ⟨column, owner, last, owned, isParent, rfl⟩ | ⟨rfl, free⟩
      · obtain ⟨orderedAfter, members, known⟩ := ih (ordered.add owner column) later
        refine ⟨orderedAfter, fun other name => ?_, ?_⟩
        · rw [members, ordered.mem_of_add]
          simp only [List.mem_cons, exists_eq_or_imp, last, owned, Option.some.injEq]
          tauto
        · refine List.forall_mem_cons.2 ⟨fun name other lastName ownedOther => ?_, known⟩
          rw [owned] at ownedOther
          exact Option.some.inj ownedOther ▸ isParent
      · obtain ⟨orderedAfter, members, known⟩ := ih ordered later
        refine ⟨orderedAfter, fun other name => ?_, ?_⟩
        · rw [members]
          have none : ¬ (parts.getLast? = some name ∧ names.owner? parts = some other) :=
            fun ⟨last, owned⟩ => free name other last owned
          simp only [List.mem_cons, exists_eq_or_imp, none, false_or]
        · exact List.forall_mem_cons.2 ⟨fun name other last owned => absurd owned (free name other last),
            known⟩

/-- Each column without a qualifier is charged to the only parent that has it. -/
theorem mem_of_addBare {columns : List String} {start after : References} (ordered : start.Ordered)
    (done : columns.foldlM (addBare parents) start = .ok after) :
    after.Ordered ∧
      (∀ owner column, column ∈ after.of owner ↔ column ∈ start.of owner ∨
        column ∈ columns ∧ ∃ parent,
          (parents.filter fun node => node.hasColumn column) = [parent] ∧ parent.name = owner) ∧
      ∀ column ∈ columns, ∃ parent, (parents.filter fun node => node.hasColumn column) = [parent] := by
  induction columns generalizing start with
  | nil =>
      cases Result.pure_eq_ok.1 done
      exact ⟨ordered, by simp, by simp⟩
  | cons first rest ih =>
      rw [List.foldlM_cons, Result.bind_eq_ok] at done
      obtain ⟨next, here, later⟩ := done
      rw [addBare] at here
      split at here
      next => cases here
      next parent only =>
        cases here
        obtain ⟨orderedAfter, members, known⟩ := ih (ordered.add parent.name first) later
        refine ⟨orderedAfter, fun owner column => ?_, List.forall_mem_cons.2 ⟨⟨parent, only⟩, known⟩⟩
        rw [members, ordered.mem_of_add, List.mem_cons]
        constructor
        · rintro ((⟨rfl, rfl⟩ | before) | ⟨member, charged⟩)
          · exact .inr ⟨.inl rfl, parent, only, rfl⟩
          · exact .inl before
          · exact .inr ⟨.inr member, charged⟩
        · rintro (before | ⟨rfl | member, charged⟩)
          · exact .inl (.inr before)
          · obtain ⟨other, onlyOther, rfl⟩ := charged
            rw [only] at onlyOther
            cases onlyOther
            exact .inl (.inl ⟨rfl, rfl⟩)
          · exact .inr ⟨member, charged⟩
      next => cases here

theorem ordered_documentReferences {document : Document} {references : References}
    (done : documentReferences document parents = .ok references) : references.Ordered := by
  obtain ⟨qualified, first, later⟩ := Result.bind_eq_ok.1 done
  exact (mem_of_addBare (mem_of_addQualified List.Pairwise.nil first).1 later).1

theorem ordered_nodeReferences {catalog : Catalog} {node : Node} {references : References}
    (done : catalog.nodeReferences node = .ok references) : references.Ordered := by
  rw [nodeReferences] at done
  split at done
  · obtain ⟨statements, _, found⟩ := Result.bind_eq_ok.1 done
    exact ordered_documentReferences found
  · cases done
    exact List.Pairwise.nil

/-! ## Databases -/

variable {catalog : Catalog} {nodes others : List Node} {references more : References}

theorem holds_congr {columns names : List String} (same : ∀ name, name ∈ columns ↔ name ∈ names)
    (table : Materialization) : table.holds columns = table.holds names := by
  rw [Bool.eq_iff_iff, Materialization.holds, Materialization.holds, List.all_eq_true,
    List.all_eq_true]
  exact ⟨fun each name member => each name ((same name).2 member),
    fun each name member => each name ((same name).1 member)⟩

/-- Where columns can be computed does not depend on how they are listed. -/
theorem computableIds_congr {columns names : List String}
    (same : ∀ name, name ∈ columns ↔ name ∈ names) (node : Node) :
    catalog.computableIds node columns = catalog.computableIds node names := by
  have tables : (node.tables.filter fun table => table.holds columns) =
      node.tables.filter fun table => table.holds names :=
    List.filter_congr fun table _ => holds_congr same table
  rw [computableIds, computableIds, computableWithin, computableWithin, tables]

/-- Whether a node can be computed in a database as far as it is referenced. -/
def computes (catalog : Catalog) (references : References) (database : Database) (node : Node) :
    Bool :=
  match catalog.computableIds node (references.of node.name) with
  | .ok ids => ids.contains database.id
  | .error _ => false

/-- The candidates are the databases that every one of the nodes can be computed in. -/
theorem eq_filter_of_candidates {found : List Database}
    (done : catalog.candidates nodes references = .ok found) :
    found = catalog.databases.filter fun database =>
      nodes.all (catalog.computes references database) := by
  rw [candidates] at done
  generalize catalog.databases = start at done ⊢
  induction nodes generalizing start with
  | nil =>
      cases Result.pure_eq_ok.1 done
      simp
  | cons node rest ih =>
      rw [List.foldlM_cons, Result.bind_eq_ok] at done
      obtain ⟨next, first, later⟩ := done
      obtain ⟨ids, known, step⟩ := Result.bind_eq_ok.1 first
      cases Result.pure_eq_ok.1 step
      rw [ih _ later, List.filter_filter]
      apply List.filter_congr
      intro database _
      rw [List.all_cons, computes, known, Bool.and_comm]

/-- Two demands of the same nodes and columns are met by the same database. -/
theorem databaseFor_congr {requested : Option Int} {database other : Database}
    (sameNodes : ∀ node, node ∈ nodes ↔ node ∈ others)
    (sameColumns : ∀ node name, name ∈ references.of node ↔ name ∈ more.of node)
    (chosen : catalog.databaseFor nodes references requested = .ok database)
    (chosenToo : catalog.databaseFor others more requested = .ok other) : database = other := by
  have computed (found : Database) : nodes.all (catalog.computes references found) =
      others.all (catalog.computes more found) := by
    rw [Bool.eq_iff_iff, List.all_eq_true, List.all_eq_true]
    have each (node : Node) :
        catalog.computes references found node = catalog.computes more found node := by
      rw [computes, computes, computableIds_congr (sameColumns node.name)]
    constructor
    · intro all node member
      rw [← each]
      exact all node ((sameNodes node).2 member)
    · intro all node member
      rw [each]
      exact all node ((sameNodes node).1 member)
  obtain ⟨found, first, rest⟩ := Result.bind_eq_ok.1 chosen
  obtain ⟨foundToo, firstToo, restToo⟩ := Result.bind_eq_ok.1 chosenToo
  have same : found = foundToo := by
    rw [eq_filter_of_candidates first, eq_filter_of_candidates firstToo]
    exact List.filter_congr fun database _ => computed database
  rw [same] at rest
  exact Except.ok.inj (rest.symm.trans restToo)

end Catalog

namespace Planner

open Catalog (Node Hop)

variable {catalog : Catalog}

/-! ## Demands -/

namespace Demand

/-- A demand whose columns are in order, of nodes that are those of their names. -/
structure Sound (catalog : Catalog) (demand : Demand) : Prop where
  ordered : demand.references.Ordered
  named : ∀ node ∈ demand.nodes, catalog.node? node.name = some node

/-- The columns that a hop takes: one of the node it leaves, one of the dimension. -/
def takes (hop : Hop) (node column : String) : Prop :=
  (node = hop.source ∧ column = hop.column) ∨
    (node = hop.dimension ∧ column = hop.dimensionColumn)

/-- A demand with some columns and that of some hops added to it. -/
structure Extends (catalog : Catalog) (hops : List Hop) (taken : List (String × String))
    (demand after : Demand) : Prop where
  sound : after.Sound catalog
  nodes : ∀ node, node ∈ after.nodes ↔
    node ∈ demand.nodes ∨ ∃ hop ∈ hops, catalog.node? hop.dimension = some node
  columns : ∀ node column, column ∈ after.references.of node ↔
    column ∈ demand.references.of node ∨ (node, column) ∈ taken ∨ ∃ hop ∈ hops, takes hop node column

variable {demand after : Demand}

theorem Sound.addColumn (sound : demand.Sound catalog) (node column : String) :
    (demand.addColumn node column).Sound catalog :=
  ⟨sound.ordered.add node column, sound.named⟩

theorem Sound.mem_addColumn (sound : demand.Sound catalog) {node column other name : String} :
    name ∈ (demand.addColumn node column).references.of other ↔
      (other = node ∧ name = column) ∨ name ∈ demand.references.of other :=
  sound.ordered.mem_of_add

/-- The node of a name has that name. -/
theorem name_of_node? {name : String} {node : Node} (found : catalog.node? name = some node) :
    node.name = name := by
  simpa using List.find?_some found

/-- A node is not added twice. -/
theorem Sound.mem_addNode (sound : demand.Sound catalog) {node other : Node}
    (named : catalog.node? node.name = some node) :
    other ∈ (demand.addNode node).nodes ↔ other ∈ demand.nodes ∨ other = node := by
  rw [addNode]
  split
  next met =>
    obtain ⟨old, there, same⟩ := List.any_eq_true.1 met
    have this : old = node := by
      have known := sound.named old there
      rw [beq_iff_eq.1 same, named] at known
      exact (Option.some.inj known).symm
    constructor
    · exact .inl
    · rintro (there' | rfl)
      · exact there'
      · exact this ▸ there
  next => simp

theorem Sound.addNode (sound : demand.Sound catalog) {node : Node}
    (named : catalog.node? node.name = some node) : (demand.addNode node).Sound catalog := by
  constructor
  · rw [Demand.addNode]
    split
    · exact sound.ordered
    · exact sound.ordered
  · intro other member
    rcases (sound.mem_addNode named).1 member with there | rfl
    · exact sound.named other there
    · exact named

theorem references_addNode (node : Node) :
    (demand.addNode node).references = demand.references := by
  rw [addNode]
  split <;> rfl

/-- A demand extends itself by nothing. -/
theorem Sound.extends_self (sound : demand.Sound catalog) : Extends catalog [] [] demand demand :=
  ⟨sound, by simp, by simp⟩

theorem Sound.extends_addColumn (sound : demand.Sound catalog) (node column : String) :
    Extends catalog [] [(node, column)] demand (demand.addColumn node column) := by
  constructor
  · exact sound.addColumn node column
  · intro other
    simp [Demand.addColumn]
  · intro other name
    rw [sound.mem_addColumn, or_comm]
    simp

theorem extends_addHop (sound : demand.Sound catalog) {hop : Hop}
    (done : demand.addHop catalog hop = .ok after) : Extends catalog [hop] [] demand after := by
  obtain ⟨dimension, found, rest⟩ := Result.bind_eq_ok.1 done
  cases Result.pure_eq_ok.1 rest
  have known : catalog.node? hop.dimension = some dimension := by
    rw [Catalog.node] at found
    split at found
    · cases found
      assumption
    · cases found
  have named : catalog.node? dimension.name = some dimension := by
    rw [name_of_node? known, known]
  have source := sound.addColumn hop.source hop.column
  have target := source.addColumn hop.dimension hop.dimensionColumn
  constructor
  · exact target.addNode named
  · intro node
    rw [target.mem_addNode named]
    simp [known, addColumn, eq_comm]
  · intro node column
    rw [references_addNode, source.mem_addColumn, sound.mem_addColumn]
    simp only [takes, List.mem_singleton, exists_eq_left, List.not_mem_nil, false_or]
    tauto

theorem Extends.trans
    {hops later : List Hop} {taken more : List (String × String)} {middle : Demand}
    (here : Extends catalog hops taken demand middle)
    (there : Extends catalog later more middle after) :
    Extends catalog (hops ++ later) (taken ++ more) demand after := by
  constructor
  · exact there.sound
  · intro node
    rw [there.nodes, here.nodes]
    simp only [List.mem_append, or_and_right, exists_or, or_assoc]
  · intro node column
    rw [there.columns, here.columns]
    simp only [List.mem_append, or_and_right, exists_or]
    grind

/-- A path adds the demand of its hops. -/
theorem extends_addPath (sound : demand.Sound catalog) {path : List Hop}
    (done : demand.addPath catalog path = .ok after) : Extends catalog path [] demand after := by
  rw [addPath] at done
  induction path generalizing demand with
  | nil =>
      cases Result.pure_eq_ok.1 done
      exact sound.extends_self
  | cons hop path ih =>
      rw [List.foldlM_cons, Result.bind_eq_ok] at done
      obtain ⟨next, first, later⟩ := done
      have here := extends_addHop sound first
      exact here.trans (ih here.sound later)

/-- Demands that are extended alike are met by the same database. -/
theorem database_congr
    {hops hopsToo : List Hop} {taken takenToo : List (String × String)}
    {start startToo other : Demand} {requested : Option Int} {database databaseToo : Catalog.Database}
    (here : Extends catalog hops taken start after)
    (there : Extends catalog hopsToo takenToo startToo other)
    (sameNodes : ∀ node, node ∈ start.nodes ↔ node ∈ startToo.nodes)
    (sameColumns : ∀ node name,
      name ∈ start.references.of node ↔ name ∈ startToo.references.of node)
    (sameHops : ∀ hop, hop ∈ hops ↔ hop ∈ hopsToo)
    (sameTaken : ∀ pair, pair ∈ taken ↔ pair ∈ takenToo)
    (chosen : after.database catalog requested = .ok database)
    (chosenToo : other.database catalog requested = .ok databaseToo) : database = databaseToo := by
  apply Catalog.databaseFor_congr _ _ chosen chosenToo
  · intro node
    simp only [here.nodes, there.nodes, sameNodes, sameHops]
  · intro node name
    simp only [here.columns, there.columns, sameColumns, sameHops, sameTaken]

end Demand

/-- The parents of a node are the nodes of their names. -/
theorem named_parents (node : Node) :
    ∀ parent ∈ catalog.parents node, catalog.node? parent.name = some parent := by
  intro parent member
  obtain ⟨name, _, found⟩ := List.mem_filterMap.1 member
  rw [Demand.name_of_node? found, found]

/-! ## Demands of dimensions -/

variable {start : List Node} {demand after : Demand} {paths found : List (List Hop)}

/-- A full name that is split is one with a dot. -/
theorem splitLastDot?_of_splitName {name : String} {pair : String × String}
    (split : splitName name = .ok pair) : Text.splitLastDot? name = some pair := by
  rw [splitName] at split
  split at split
  next found =>
    cases split
    exact found
  next => cases split

/-- Whether a node is among those that columns can be taken from without a join. -/
def isStart (start : List Node) (name : String) : Bool :=
  start.any fun node => node.name == name

/-- Dimensions of a node demand their columns, and the hops to those that are joined. -/
theorem extends_demandDimensions {node : Node} {names : List String}
    (sound : demand.Sound catalog)
    (done : names.foldlM (demandDimension catalog node start) (demand, paths) = .ok (after, found)) :
    ∃ pairs more, names.map Text.splitLastDot? = pairs.map some ∧ found = paths ++ more ∧
      ((pairs.map Prod.fst).filter fun name => !isStart start name).map
        (catalog.dimensionPath start) = more.map some ∧
      Demand.Extends catalog more.flatten pairs demand after := by
  induction names generalizing demand paths with
  | nil =>
      cases Result.pure_eq_ok.1 done
      exact ⟨[], [], rfl, by simp, rfl, sound.extends_self⟩
  | cons name names ih =>
      rw [List.foldlM_cons, Result.bind_eq_ok] at done
      obtain ⟨⟨middle, met⟩, first, later⟩ := done
      obtain ⟨⟨dimension, column⟩, split, step⟩ := Result.bind_eq_ok.1 first
      have pair := splitLastDot?_of_splitName split
      have here := sound.extends_addColumn dimension column
      by_cases known : isStart start dimension
      · rw [isStart] at known
        simp only [known, if_true] at step
        cases Result.pure_eq_ok.1 step
        obtain ⟨pairs, more, splits, all, ways, there⟩ := ih here.sound later
        refine ⟨(dimension, column) :: pairs, more, ?_, all, ?_, here.trans there⟩
        · rw [List.map_cons, List.map_cons, pair, splits]
        · rw [List.map_cons, List.filter_cons_of_neg, ways]
          simpa [isStart] using known
      · rw [isStart, Bool.not_eq_true] at known
        simp only [known, Bool.false_eq_true, if_false] at step
        split at step
        next => cases step
        next path way =>
          obtain ⟨joined, added, last⟩ := Result.bind_eq_ok.1 step
          cases Result.pure_eq_ok.1 last
          have along := here.trans (Demand.extends_addPath here.sound added)
          obtain ⟨pairs, more, splits, all, ways, there⟩ := ih along.sound later
          refine ⟨(dimension, column) :: pairs, path :: more, ?_, ?_, ?_, along.trans there⟩
          · rw [List.map_cons, List.map_cons, pair, splits]
          · rw [all, List.append_assoc]
            rfl
          · rw [List.map_cons, List.filter_cons_of_pos, List.map_cons, way, ways, List.map_cons]
            simp [isStart, known]

/-- Joined dimensions demand the hops to them. -/
theorem extends_demandJoins {subject : String} {dimensions : List String}
    (sound : demand.Sound catalog)
    (done : dimensions.foldlM (demandJoin catalog subject start) (demand, paths) =
      .ok (after, found)) :
    ∃ more, found = paths ++ more ∧
      dimensions.map (catalog.dimensionPath start) = more.map some ∧
      Demand.Extends catalog more.flatten [] demand after := by
  induction dimensions generalizing demand paths with
  | nil =>
      cases Result.pure_eq_ok.1 done
      exact ⟨[], by simp, rfl, sound.extends_self⟩
  | cons dimension dimensions ih =>
      rw [List.foldlM_cons, Result.bind_eq_ok] at done
      obtain ⟨⟨middle, met⟩, step, later⟩ := done
      rw [demandJoin] at step
      split at step
      next => cases step
      next path way =>
        obtain ⟨joined, added, last⟩ := Result.bind_eq_ok.1 step
        cases Result.pure_eq_ok.1 last
        have along := Demand.extends_addPath sound added
        obtain ⟨more, all, ways, there⟩ := ih along.sound later
        refine ⟨path :: more, ?_, ?_, along.trans there⟩
        · rw [all, List.append_assoc]
          rfl
        · rw [List.map_cons, way, ways, List.map_cons]

end Planner
end SemanticLayer
