import SemanticLayer.Proofs.Qualifiers
import SemanticLayer.Proofs.Routes
import SemanticLayer.Proofs.Sources
import SemanticLayer.Proofs.Values

/-!
# Columns belong to relations of FROM

A qualified column belongs to the relation of FROM that goes by its qualifier. In a compiled query
every qualified column belongs to exactly one relation, and every joined dimension is joined on
columns of its own entry of FROM, as long as names are clear: the expression and the catalog use no
name twice and no name for a relation that it loses when it is bound.
-/

namespace SemanticLayer

namespace Sql

/-! ## Names of relations -/

/-- The names by which columns refer to a relation: its alias, or else its namespace and its own
name. -/
def Relation.path? : Relation → Option (List String)
  | .table t => some (t.reference.map Name.value)
  | .derived _ aliasName => aliasName.map fun name => [name.value]

/-- The full name of a table. -/
def Relation.tableName? : Relation → Option String
  | .table t => some t.fullName
  | .derived _ _ => none

/-- The last of the names of a relation. -/
def Relation.called? (relation : Relation) : Option String :=
  relation.path?.bind List.getLast?

/-- Whether a column is qualified by the names of a relation. -/
def Relation.owns (column : Column) (relation : Relation) : Bool :=
  relation.path? == some (column.qualifier.map Name.value)

/-- Every qualified column belongs to exactly one relation of FROM. -/
def Select.Scoped (select : Select) : Prop :=
  ∀ column ∈ select.columns, column.qualifier ≠ [] →
    select.relations.countP (Relation.owns column) = 1

instance (select : Select) : Decidable select.Scoped :=
  inferInstanceAs (Decidable (∀ column ∈ select.columns, column.qualifier ≠ [] →
    select.relations.countP (Relation.owns column) = 1))

theorem Relation.called?_eq (relation : Relation) :
    relation.called? = relation.referenceName?.map Name.value := by
  cases relation with
  | derived query aliasName => cases aliasName <;> rfl
  | table table =>
      rw [called?, path?, referenceName?, Table.reference]
      cases table.aliasName with
      | some aliasName => rfl
      | none => simp

theorem Relation.called?_of_path? {relation : Relation} {name : String}
    (path : relation.path? = some [name]) : relation.called? = some name := by
  rw [called?, path]
  rfl

/-- No two relations of FROM are called alike. -/
def Distinct (relations : List Relation) : Prop :=
  (relations.filterMap Relation.called?).Nodup

theorem Distinct.eq {relations : List Relation} (distinct : Distinct relations)
    {first second : Relation} (member : first ∈ relations) (other : second ∈ relations)
    {name : String} (called : first.called? = some name) (same : second.called? = some name) :
    first = second := by
  induction relations with
  | nil => cases member
  | cons relation rest ih =>
      have later {found : Relation} (there : found ∈ rest) (known : found.called? = some name) :
          relation.called? ≠ some name := by
        intro clash
        rw [Distinct, List.filterMap_cons_some clash, List.nodup_cons] at distinct
        exact distinct.1 (List.mem_filterMap.2 ⟨found, there, known⟩)
      have others : Distinct rest :=
        distinct.sublist ((List.sublist_cons_self relation rest).filterMap Relation.called?)
      rcases List.mem_cons.1 member with rfl | here <;> rcases List.mem_cons.1 other with rfl | there
      · rfl
      · exact absurd called (later there same)
      · exact absurd same (later here called)
      · exact ih others here there

/-- One more relation may be called what no other one is. -/
theorem Distinct.of_perm {relations others : List Relation} {relation : Relation}
    (distinct : Distinct relations) (perm : others.Perm (relation :: relations)) {name : String}
    (called : relation.called? = some name)
    (absent : ∀ other ∈ relations, other.called? ≠ some name) : Distinct others := by
  rw [Distinct, (perm.filterMap Relation.called?).nodup_iff, List.filterMap_cons_some called,
    List.nodup_cons]
  refine ⟨fun clash => ?_, distinct⟩
  obtain ⟨other, member, same⟩ := List.mem_filterMap.1 clash
  exact absent other member same

/-- Where no two relations are called alike, a column belongs to one of them at most. -/
theorem Distinct.countP_owns {relations : List Relation} (distinct : Distinct relations)
    {column : Column} (owned : column.qualifier ≠ [])
    {relation : Relation} (member : relation ∈ relations) (owns : relation.owns column = true) :
    relations.countP (Relation.owns column) = 1 := by
  have called {found : Relation} (has : found.owns column = true) :
      found.called? = (column.qualifier.map Name.value).getLast? := by
    rw [Relation.called?, beq_iff_eq.1 has]
    rfl
  obtain ⟨name, last⟩ : ∃ name, (column.qualifier.map Name.value).getLast? = some name := by
    exact ⟨_, List.getLast?_eq_some_getLast (by simpa using owned)⟩
  induction relations with
  | nil => cases member
  | cons first rest ih =>
      by_cases here : first.owns column = true
      · have none : rest.countP (Relation.owns column) = 0 := by
          rw [List.countP_eq_zero]
          intro other there has
          rw [Distinct, List.filterMap_cons_some ((called here).trans last), List.nodup_cons]
            at distinct
          exact distinct.1 (List.mem_filterMap.2 ⟨other, there, (called has).trans last⟩)
        rw [List.countP_cons_of_pos here, none]
      · rw [List.countP_cons_of_neg here]
        have there : relation ∈ rest := by
          rcases List.mem_cons.1 member with rfl | later
          · exact absurd owns here
          · exact later
        exact ih (distinct.sublist
          ((List.sublist_cons_self first rest).filterMap Relation.called?)) there

end Sql

namespace Catalog

/-- No table in a schema is called like its node in full. -/
def PlainlyStored (catalog : Catalog) : Prop :=
  ∀ node ∈ catalog.nodes, ∀ table ∈ node.tables,
    table.toTable.fullName = node.name → table.toTable.path = none

instance (catalog : Catalog) : Decidable catalog.PlainlyStored :=
  inferInstanceAs (Decidable (∀ node ∈ catalog.nodes, ∀ table ∈ node.tables,
    table.toTable.fullName = node.name → table.toTable.path = none))

end Catalog

namespace Planner

open SemanticLayer.Sql
open Catalog (Node Database Hop)

variable {catalog : Catalog} {database : Database} {node : Node}

/-! ## Names that survive binding -/

theorem path?_tableOf {stored : Catalog.Materialization} {aliasName : Option Name}
    (plain : stored.toTable.fullName = node.name → stored.toTable.path = none) :
    (Relation.table (tableOf node stored aliasName)).path? =
      some [(aliasName.getD { value := node.name }).value] := by
  rw [Relation.path?, tableOf]
  cases aliasName with
  | some given => rfl
  | none =>
      by_cases same : stored.toTable.fullName = node.name
      · have path := plain same
        rw [Table.fullName, path] at same
        simp [Table.reference, Table.fullName, path, same]
      · simp [Table.reference, same]

/-- A node is referred to by its alias, or else by its name. -/
theorem path?_relationOf (plain : catalog.PlainlyStored) (member : node ∈ catalog.nodes)
    {aliasName : Option Name} {relation : Relation}
    (done : relationOf catalog database node aliasName = .ok relation) :
    relation.path? = some [(aliasName.getD { value := node.name }).value] := by
  rcases relationOf_cases done with ⟨stored, there, rfl⟩ | ⟨query, rfl⟩
  · exact path?_tableOf (plain node member stored there)
  · rfl

/-- The names that a written relation has once it is bound. -/
def boundPath? (parents : List Node) : Relation → Option (List String)
  | .table table =>
    match parents.find? fun parent => parent.name == table.fullName with
    | some parent => some [(table.aliasName.getD { value := parent.name }).value]
    | none => (Relation.table table).path?
  | .derived query aliasName => (Relation.derived query aliasName).path?

theorem path?_bindRelation (plain : catalog.PlainlyStored) {parents : List Node}
    (known : ∀ parent ∈ parents, parent ∈ catalog.nodes) {relation bound : Relation}
    (done : bindRelation (relationOf catalog database) parents relation = .ok bound) :
    bound.path? = boundPath? parents relation := by
  cases relation with
  | derived query aliasName =>
      cases done
      rfl
  | table table =>
      cases found : parents.find? fun parent => parent.name == table.fullName with
      | some parent =>
          rw [bindRelation, found] at done
          rw [boundPath?, found]
          exact path?_relationOf plain (known parent (List.mem_of_find?_eq_some found)) done
      | none =>
          rw [bindRelation, found] at done
          cases done
          rw [boundPath?, found]

/-! ## Names of nodes stand for relations -/

namespace NodeNames

variable {nodes : List Node} {select : Select}

/-- Every name is that of a table of FROM that is called like its node. -/
theorem exists_table_of_mem {entry : String × Name} (member : entry ∈ ofSelect select nodes) :
    ∃ table, .table table ∈ select.relations ∧
      (∃ node ∈ nodes, node.name = table.fullName) ∧ entry.1 = table.fullName ∧
        entry.2 = table.aliasName.getD { value := entry.1 } := by
  have general : ∀ (relations : List Relation) (names : NodeNames),
      entry ∈ relations.foldl (addRelation nodes) names →
        entry ∈ names ∨ ∃ table, .table table ∈ relations ∧
          (∃ node ∈ nodes, node.name = table.fullName) ∧ entry.1 = table.fullName ∧
            entry.2 = table.aliasName.getD { value := entry.1 } := by
    intro relations
    induction relations with
    | nil => exact fun names member => .inl member
    | cons relation rest ih =>
        intro names member
        rcases ih _ member with before | ⟨table, later, found⟩
        · cases relation with
          | derived query aliasName => exact .inl before
          | table table =>
              rw [addRelation] at before
              split at before
              next node found =>
                have called : node.name = table.fullName := by simpa using List.find?_some found
                rcases List.mem_append.1 before with kept | last
                · exact .inl (List.mem_filter.1 kept).1
                · cases List.mem_singleton.1 last
                  exact .inr ⟨table, List.mem_cons_self,
                    ⟨node, List.mem_of_find?_eq_some found, called⟩, called, rfl⟩
              next => exact .inl before
        · exact .inr ⟨table, List.mem_cons_of_mem relation later, found⟩
  exact (general select.relations [] member).resolve_left List.not_mem_nil

/-- A node in FROM has a name. -/
theorem isSome_get?_of_table {table : Table} (member : .table table ∈ select.relations)
    (among : node ∈ nodes) (called : node.name = table.fullName) :
    ((ofSelect select nodes).get? node.name).isSome := by
  have kept : ∀ (relations : List Relation) (names : NodeNames), (names.get? node.name).isSome →
      ((relations.foldl (addRelation nodes) names).get? node.name).isSome := by
    intro relations
    induction relations with
    | nil => exact fun names there => there
    | cons relation rest ih =>
        intro names there
        apply ih
        cases relation with
        | derived query aliasName => exact there
        | table other =>
            rw [addRelation]
            split
            next found _ =>
              rw [get?, Option.isSome_map, List.find?_isSome] at there ⊢
              obtain ⟨entry, inside, same⟩ := there
              by_cases replaced : entry.1 = found.name
              · refine ⟨_, List.mem_append_right _ List.mem_cons_self, ?_⟩
                simpa [replaced] using same
              · refine ⟨entry, List.mem_append_left _ (List.mem_filter.2 ⟨inside, ?_⟩), same⟩
                simpa using replaced
            next => exact there
  have general : ∀ (relations : List Relation) (names : NodeNames), .table table ∈ relations →
      ((relations.foldl (addRelation nodes) names).get? node.name).isSome := by
    intro relations
    induction relations with
    | nil => exact fun names member => (List.not_mem_nil member).elim
    | cons relation rest ih =>
        intro names member
        rcases List.mem_cons.1 member with rfl | later
        · rw [List.foldl_cons]
          apply kept rest
          obtain ⟨found, first⟩ : ∃ found,
              nodes.find? (fun other => other.name == table.fullName) = some found := by
            rw [← Option.isSome_iff_exists, List.find?_isSome]
            exact ⟨node, among, by simpa using called⟩
          have same : found.name = table.fullName := by simpa using List.find?_some first
          rw [addRelation, first]
          have there : ((names.put found.name (table.aliasName.getD { value := found.name })).get?
              found.name).isSome :=
            get?_of_mem (List.mem_append_right _ List.mem_cons_self)
          rw [called, ← same]
          exact there
        · exact ih _ later
  exact general select.relations [] member

/-- The name of a node is the name by which its table in FROM is referred to once it is bound. -/
theorem exists_boundPath?_of_mem {entry : String × Name} (member : entry ∈ ofSelect select nodes) :
    ∃ relation ∈ select.relations, boundPath? nodes relation = some [entry.2.value] := by
  obtain ⟨table, inFrom, ⟨node, among, called⟩, same, named⟩ := exists_table_of_mem member
  refine ⟨.table table, inFrom, ?_⟩
  rw [boundPath?]
  split
  next other known =>
    have alike : other.name = table.fullName := by simpa using List.find?_some known
    rw [named, same, alike]
  next none =>
    have differs := List.find?_eq_none.1 none node among
    simp [called] at differs

theorem exists_boundPath?_of_get? {parent : String} {name : Name}
    (found : (ofSelect select nodes).get? parent = some name) :
    ∃ relation ∈ select.relations, boundPath? nodes relation = some [name.value] := by
  obtain ⟨entry, first, rfl⟩ := Option.map_eq_some_iff.1 found
  exact exists_boundPath?_of_mem (List.mem_of_find?_eq_some first)

end NodeNames

/-! ## Joins on their own entry -/

namespace Joins

variable {joins after : Joins} {hop : Hop} {join : Join}

/-- An entry of FROM with dimensions joined to it, each of them on columns of relations in front of
it and of its own. -/
inductive Extends (source : Source) : Source → Prop where
  | refl : Extends source source
  | join {entry : Source} {join : Join} (before : Extends source entry)
      (own : ∀ on ∈ join.on, ∀ column ∈ on.columns,
        ∃ relation ∈ entry.relations ++ [join.relation], relation.owns column = true) :
      Extends source (withJoin join entry)

theorem relations_withJoin (join : Join) (source : Source) :
    (withJoin join source).relations = source.relations ++ [join.relation] := by
  simp [withJoin, Source.relations]

/-- A join that is added brings its relation. -/
theorem perm_addAt {position : Nat} {sources : List Source} (inside : position < sources.length) :
    ((addAt join position sources).flatMap Source.relations).Perm
      (join.relation :: sources.flatMap Source.relations) := by
  induction sources generalizing position with
  | nil => cases inside
  | cons source rest ih =>
      cases position with
      | zero =>
          rw [addAt, List.flatMap_cons, List.flatMap_cons]
          show ((withJoin join source).relations ++ _).Perm _
          rw [relations_withJoin, List.append_assoc]
          exact List.perm_middle
      | succ position =>
          rw [addAt, List.flatMap_cons, List.flatMap_cons]
          refine ((ih (by simpa using inside)).append_left source.relations).trans ?_
          exact List.perm_middle

theorem mem_conditions_of_addAt {position : Nat} {sources : List Source} {expr : Expr}
    (member : expr ∈ (addAt join position sources).flatMap Source.conditions) :
    expr ∈ sources.flatMap Source.conditions ∨ join.on = some expr := by
  induction sources generalizing position with
  | nil =>
      rw [addAt] at member
      cases member
  | cons source rest ih =>
      cases position with
      | zero =>
          rw [addAt, List.flatMap_cons, List.mem_append, Source.conditions, List.filterMap_append,
            List.mem_append] at member
          rw [List.flatMap_cons, List.mem_append]
          rcases member with (before | last) | later
          · exact .inl (.inl before)
          · obtain ⟨other, only, on⟩ := List.mem_filterMap.1 last
            cases List.mem_singleton.1 only
            exact .inr on
          · exact .inl (.inr later)
      | succ position =>
          rw [addAt, List.flatMap_cons, List.mem_append] at member
          rw [List.flatMap_cons, List.mem_append, or_assoc]
          exact member.imp_right ih

/-- A join that is added adds the columns of its condition. -/
theorem mem_columns_of_addAt {select : Select} {sources : List Source} {position : Nat}
    (listed : select.sources = some sources) {column : Column}
    (member : column ∈ (withSources select (some (addAt join position sources))).columns) :
    column ∈ select.columns ∨ ∃ on ∈ join.on, column ∈ on.columns := by
  rcases Select.mem_columns.1 member with outside | ⟨expr, inside, there⟩
  · exact .inl (Select.mem_columns.2 (.inl outside))
  · rcases mem_conditions_of_addAt inside with before | last
    · refine .inl (Select.mem_columns.2 (.inr ⟨expr, ?_, there⟩))
      rw [Select.conditions, listed]
      exact before
    · exact .inr ⟨expr, last, there⟩

/-- Entries stay extended if a join is added to one that its columns belong to. -/
theorem forall₂_extends_addAt {sources entries : List Source} {position : Nat}
    (each : List.Forall₂ Extends sources entries)
    (own : ∀ entry, entries[position]? = some entry → ∀ on ∈ join.on, ∀ column ∈ on.columns,
      ∃ relation ∈ entry.relations ++ [join.relation], relation.owns column = true) :
    List.Forall₂ Extends sources (addAt join position entries) := by
  induction each generalizing position with
  | nil => cases position <;> exact .nil
  | @cons source entry _ _ here others ih =>
      cases position with
      | zero => exact .cons (here.join (own entry rfl)) others
      | succ position => exact .cons here (ih own)

/-! ## Clear names -/

theorem owns_columnOf {relation : Relation} {name : Name} (path : relation.path? = some [name.value])
    (column : String) : relation.owns (columnOf name column) = true := by
  rw [Relation.owns, path]
  exact beq_self_eq_true _

theorem columns_condition (joins : Joins) (hop : Hop) :
    (joins.condition hop).columns =
      [columnOf (joins.names.nameOf hop.source) hop.column,
       columnOf (joins.names.nameOf hop.dimension) hop.dimensionColumn] := rfl

theorem exists_of_holds {name : Name} {source : Source} (held : holds name source = true) :
    ∃ relation ∈ source.relations, relation.called? = some name.value := by
  obtain ⟨relation, member, same⟩ := List.any_eq_true.1 held
  refine ⟨relation, member, ?_⟩
  rw [Relation.called?_eq]
  cases refers : relation.referenceName? with
  | none =>
      rw [refers] at same
      cases same
  | some other =>
      rw [refers] at same
      exact congrArg some (Name.beq_iff.1 same)

theorem holds_of_path? {relation : Relation} {name : Name} {source : Source}
    (member : relation ∈ source.relations) (path : relation.path? = some [name.value]) :
    holds name source = true := by
  refine List.any_eq_true.2 ⟨relation, member, ?_⟩
  have called := Relation.called?_of_path? path
  rw [Relation.called?_eq] at called
  obtain ⟨other, refers, same⟩ := Option.map_eq_some_iff.1 called
  rw [refers]
  exact Name.beq_iff.2 same

/-- Joins in which names are clear: relations are called differently, by the names of FROM at first
or of dimensions joined since, nodes to start from and joined ones stand for a relation each, every
qualified column belongs to a relation, and joins stay on their own entry. -/
structure Clear (begun : Joins) (start : List String) (joins : Joins) : Prop where
  names : joins.names = begun.names
  distinct : Distinct joins.select.relations
  known : ∀ relation ∈ joins.select.relations, ∀ name, relation.called? = some name →
    name ∈ begun.select.relations.filterMap Relation.called? ∨ name ∈ joins.joined
  homes : ∀ name ∈ start ++ joins.joined, ∃ relation ∈ joins.select.relations,
    relation.path? = some [(joins.names.nameOf name).value]
  columns : ∀ column ∈ joins.select.columns, column.qualifier ≠ [] →
    ∃ relation ∈ joins.select.relations, relation.owns column = true
  entries : List.Forall₂ Extends (begun.select.sources.getD []) (joins.select.sources.getD [])

/-- A name that nothing in FROM is called by. -/
structure Fresh (begun : Joins) (start : List String) (name : String) : Prop where
  start : name ∉ start
  called : name ∉ begun.select.relations.filterMap Relation.called?
  named : ∀ entry ∈ begun.names, entry.1 ≠ name

variable {begun : Joins} {start : List String}

theorem Fresh.nameOf {name : String} (fresh : Fresh begun start name) :
    begun.names.nameOf name = { value := name } := by
  have none : begun.names.find? (fun entry => entry.1 == name) = none := by
    rw [List.find?_eq_none]
    exact fun entry member same => fresh.named entry member (beq_iff_eq.1 same)
  rw [NodeNames.nameOf, NodeNames.get?, none]
  rfl

/-- The entry that a join goes to holds the one relation that its hop leaves. -/
theorem Clear.own (clear : Clear begun start joins) {sources : List Source} {relation : Relation}
    (listed : joins.select.sources = some sources) (source : hop.source ∈ start ++ joins.joined)
    (path : relation.path? = some [(joins.names.nameOf hop.dimension).value]) :
    ∃ position, sources.findIdx? (holds (joins.names.nameOf hop.source)) = some position ∧
      position < sources.length ∧ ∀ entry, sources[position]? = some entry →
        ∀ column ∈ (joins.condition hop).columns,
          ∃ other ∈ entry.relations ++ [relation], other.owns column = true := by
  obtain ⟨home, member, refers⟩ := clear.homes hop.source source
  rw [Select.relations, listed] at member
  obtain ⟨held, inFrom, inside⟩ := List.mem_flatMap.1 member
  obtain ⟨position, found⟩ : ∃ position,
      sources.findIdx? (holds (joins.names.nameOf hop.source)) = some position := by
    rw [← Option.isSome_iff_exists, List.findIdx?_isSome, List.any_eq_true]
    exact ⟨held, inFrom, holds_of_path? inside refers⟩
  obtain ⟨less, holding, _⟩ := List.findIdx?_eq_some_iff_getElem.1 found
  refine ⟨position, found, less, fun entry there column isColumn => ?_⟩
  rw [List.getElem?_eq_getElem less] at there
  cases Option.some.inj there
  rw [columns_condition, List.mem_cons, List.mem_singleton] at isColumn
  rcases isColumn with rfl | rfl
  · obtain ⟨other, within, called⟩ := exists_of_holds holding
    have among : other ∈ joins.select.relations := by
      rw [Select.relations, listed]
      exact List.mem_flatMap.2 ⟨_, List.getElem_mem less, within⟩
    have here : home ∈ joins.select.relations := by rwa [Select.relations, listed]
    have same := clear.distinct.eq among here called (Relation.called?_of_path? refers)
    exact ⟨other, List.mem_append_left _ within, owns_columnOf (same ▸ refers) _⟩
  · exact ⟨relation, List.mem_append_right _ List.mem_cons_self, owns_columnOf path _⟩

/-- A hop that leaves a known node for a fresh dimension keeps names clear. -/
theorem Clear.addHop (clear : Clear begun start joins) (plain : catalog.PlainlyStored)
    (source : hop.source ∈ start ++ joins.joined) (fresh : Fresh begun start hop.dimension)
    (done : joins.addHop catalog database hop = .ok after) : Clear begun start after := by
  by_cases joined : hop.dimension ∈ joins.joined
  · rw [addHop_of_joined joined] at done
    cases done
    exact clear
  · obtain ⟨dimension, relation, first, rest, known, read, listed, rfl⟩ :=
      addHop_eq_ok joined done
    have found := Demand.node?_of_node known
    have path : relation.path? = some [(joins.names.nameOf hop.dimension).value] := by
      rw [path?_relationOf plain (Catalog.mem_of_node? found).1 read, clear.names, fresh.nameOf,
        Option.getD_none, Demand.name_of_node? found]
    have called : relation.called? = some hop.dimension := by
      rw [Relation.called?_of_path? path, clear.names, fresh.nameOf]
    obtain ⟨position, found, inside, own⟩ := clear.own listed source path
    rw [attach, found, Option.getD_some]
    have old : (first :: rest).flatMap Source.relations = joins.select.relations := by
      rw [Select.relations, listed, Option.getD_some]
    have perm : ((addAt (joins.joinOf hop relation) position (first :: rest)).flatMap
        Source.relations).Perm (relation :: joins.select.relations) := old ▸ perm_addAt inside
    have stays : ∀ other ∈ joins.select.relations, other ∈
        (addAt (joins.joinOf hop relation) position (first :: rest)).flatMap Source.relations :=
      fun other member => perm.mem_iff.2 (List.mem_cons_of_mem _ member)
    have joined_it : relation ∈
        (addAt (joins.joinOf hop relation) position (first :: rest)).flatMap Source.relations :=
      perm.mem_iff.2 List.mem_cons_self
    constructor
    · exact clear.names
    · apply clear.distinct.of_perm perm called
      intro other member same
      exact (clear.known other member _ same).elim fresh.called joined
    · intro other member name same
      rcases List.mem_cons.1 (perm.mem_iff.1 member) with rfl | before
      · cases called.symm.trans same
        exact .inr List.mem_cons_self
      · exact (clear.known other before name same).imp_right (List.mem_cons_of_mem _)
    · intro name member
      have cases : name = hop.dimension ∨ name ∈ start ++ joins.joined := by
        simp only [List.mem_append, List.mem_cons] at member ⊢
        tauto
      rcases cases with rfl | before
      · exact ⟨relation, joined_it, path⟩
      · obtain ⟨other, there, refers⟩ := clear.homes name before
        exact ⟨other, stays other there, refers⟩
    · intro column member owned
      rcases mem_columns_of_addAt listed member with before | ⟨on, is, condition⟩
      · obtain ⟨other, there, owns⟩ := clear.columns column before owned
        exact ⟨other, stays other there, owns⟩
      · cases Option.some.inj is
        obtain ⟨other, there, owns⟩ := own _ (List.getElem?_eq_getElem inside) column condition
        rcases List.mem_append.1 there with within | last
        · refine ⟨other, stays other ?_, owns⟩
          rw [← old]
          exact List.mem_flatMap.2 ⟨_, List.getElem_mem inside, within⟩
        · cases List.mem_singleton.1 last
          exact ⟨relation, joined_it, owns⟩
    · have entries := clear.entries
      rw [listed, Option.getD_some] at entries
      refine forall₂_extends_addAt entries fun entry there on is => ?_
      cases Option.some.inj is
      exact own entry there

/-- A path of hops that leave known nodes for fresh dimensions keeps names clear. -/
theorem Clear.addPath (clear : Clear begun start joins) (plain : catalog.PlainlyStored)
    {known : List String} {path : List Hop} (linked : Catalog.Linked known path)
    (reached : ∀ name ∈ known, name ∈ start ++ joins.joined)
    (fresh : ∀ hop ∈ path, Fresh begun start hop.dimension)
    (done : joins.addPath catalog database path = .ok after) : Clear begun start after := by
  rw [addPath_eq_foldlM] at done
  induction path generalizing joins known with
  | nil =>
      cases Result.pure_eq_ok.1 done
      exact clear
  | cons hop path ih =>
      rw [List.foldlM_cons, Result.bind_eq_ok] at done
      obtain ⟨next, first, later⟩ := done
      obtain ⟨source, rest⟩ := linked
      obtain ⟨here, kept⟩ := joined_of_addHop first
      have clearNext :=
        clear.addHop plain (reached _ source) (fresh hop List.mem_cons_self) first
      refine ih clearNext rest ?_ (fun other member => fresh other (List.mem_cons_of_mem _ member))
        later
      intro name member
      rcases List.mem_cons.1 member with rfl | before
      · exact List.mem_append_right _ here
      · exact (List.mem_append.1 (reached name before)).elim (List.mem_append_left _)
          fun joined => List.mem_append_right _ (kept name joined)

/-- Paths that leave nodes to start from for fresh dimensions keep names clear. -/
theorem Clear.addPaths (clear : Clear begun start joins) (plain : catalog.PlainlyStored)
    {paths : List (List Hop)} (linked : ∀ path ∈ paths, Catalog.Linked start path)
    (fresh : ∀ path ∈ paths, ∀ hop ∈ path, Fresh begun start hop.dimension)
    (done : paths.foldlM (Joins.addPath catalog database) joins = .ok after) :
    Clear begun start after := by
  refine Result.foldlM_induction (Clear begun start) clear ?_ done
  intro path onPaths before next clearBefore step
  exact clearBefore.addPath plain (linked path onPaths)
    (fun name member => List.mem_append_left _ member) (fresh path onPaths) step

end Joins

/-! ## Filters and groups -/

theorem columns_nestBelow (op : BinaryOp) (expr : Expr) :
    (expr.nestBelow op).columns = expr.columns := by
  cases expr with
  | binary left inner right =>
      rw [Expr.nestBelow]
      split
      · rfl
      · rfl
  | _ => rfl

theorem columns_combine (left : Expr) (op : BinaryOp) (right : Expr) :
    (Expr.combine left op right).columns = left.columns ++ right.columns := by
  rw [Expr.combine, Expr.columns, columns_nestBelow, columns_nestBelow]

/-- A filter adds the columns of its condition. -/
theorem mem_columns_of_addFilter {select : Select} {predicate : Expr} {column : Column}
    (member : column ∈ (select.addFilter predicate).columns) :
    column ∈ select.columns ∨ column ∈ predicate.columns := by
  rw [Select.mem_columns] at member ⊢
  rcases member with ⟨expr, outside, there⟩ | inside
  · simp only [Select.addFilter, Select.exprs, Option.toList_some, List.mem_append,
      List.mem_singleton] at outside ⊢
    rcases outside with (((projected | rfl) | grouped) | having) | ordered
    · exact .inl (.inl ⟨expr, by tauto, there⟩)
    · cases filter : select.filter with
      | none =>
          rw [filter] at there
          exact .inr there
      | some old =>
          rw [filter] at there
          dsimp only at there
          rw [columns_combine, List.mem_append] at there
          refine there.imp_left fun before => .inl ⟨old, ?_, before⟩
          rw [Option.mem_toList]
          tauto
    · exact .inl (.inl ⟨expr, by tauto, there⟩)
    · exact .inl (.inl ⟨expr, by tauto, there⟩)
    · exact .inl (.inl ⟨expr, by tauto, there⟩)
  · exact .inl (.inr inside)

theorem mem_addOnce {exprs : List Expr} {expr other : Expr} (member : other ∈ addOnce exprs expr) :
    other ∈ exprs ∨ other = expr := by
  rw [addOnce] at member
  split at member
  · exact .inl member
  · simpa using member

/-- A dimension that is shown and grouped by adds its column. -/
theorem mem_columns_of_addGroupBy {select after : Select} {expr : Expr} {column : Column}
    (grouped : after =
      { select with
        projection := addOnce select.projection expr
        groupBy := addOnce select.groupBy expr })
    (member : column ∈ after.columns) : column ∈ select.columns ∨ column ∈ expr.columns := by
  subst grouped
  rw [Select.mem_columns] at member ⊢
  rcases member with ⟨other, outside, there⟩ | inside
  · have cases : other ∈ select.exprs ∨ other = expr := by
      simp only [Select.exprs, List.mem_append] at outside ⊢
      rcases outside with (((projected | filtered) | grouped) | having) | ordered
      · have projected := mem_addOnce projected
        tauto
      · tauto
      · have grouped := mem_addOnce grouped
        tauto
      · tauto
      · tauto
    rcases cases with before | rfl
    · exact .inl (.inl ⟨other, before, there⟩)
    · exact .inr there
  · exact .inl (.inr inside)

/-- Whether every qualified column belongs to one of some relations. -/
def Owned (relations : List Relation) (select : Select) : Prop :=
  ∀ column ∈ select.columns, column.qualifier ≠ [] →
    ∃ relation ∈ relations, relation.owns column = true

variable {names : NodeNames} {relations : List Relation} {select after : Select}

/-- A node that a relation of FROM goes by the name of. -/
def Housed (names : NodeNames) (relations : List Relation) (name : String) : Prop :=
  ∃ relation ∈ relations, relation.path? = some [(names.nameOf name).value]

theorem Owned.addFilter (owned : Owned relations select) {filter : Filter}
    (housed : ∀ dimension column, Text.splitLastDot? filter.name = some (dimension, column) →
      Housed names relations dimension)
    (done : addFilter names select filter = .ok after) : Owned relations after := by
  obtain ⟨⟨dimension, column⟩, split, last⟩ := Result.bind_eq_ok.1 done
  cases Result.pure_eq_ok.1 last
  have pair : Text.splitLastDot? filter.name = some (dimension, column) := by
    rw [Filter.dimension] at split
    split at split
    · cases split
      assumption
    · cases split
  intro other member qualified
  rcases mem_columns_of_addFilter member with before | added
  · exact owned other before qualified
  · rw [Filter.toExpr, columns_combine, Expr.columns, Expr.columns, List.append_nil,
      List.mem_singleton] at added
    obtain ⟨relation, there, path⟩ := housed dimension column pair
    exact ⟨relation, there, added ▸ Joins.owns_columnOf path column⟩

theorem Owned.addGroupBy (owned : Owned relations select) {name : String}
    (housed : ∀ dimension column, Text.splitLastDot? name = some (dimension, column) →
      Housed names relations dimension)
    (done : addGroupBy names select name = .ok after) : Owned relations after := by
  obtain ⟨⟨dimension, column⟩, split, last⟩ := Result.bind_eq_ok.1 done
  cases Result.pure_eq_ok.1 last
  have pair := splitLastDot?_of_splitName split
  intro other member qualified
  rcases mem_columns_of_addGroupBy rfl member with before | added
  · exact owned other before qualified
  · obtain ⟨relation, there, path⟩ := housed dimension column pair
    rw [dimensionExpr, Expr.columns, List.mem_singleton] at added
    exact ⟨relation, there, added ▸ Joins.owns_columnOf path column⟩

/-! ## Expressions with clear names -/

/-- What a written relation is called once it is bound. -/
def boundName? (parents : List Node) (relation : Relation) : Option String :=
  (boundPath? parents relation).bind List.getLast?

/-- An expression whose names are clear: the node has parents, each of them stands in FROM, relations
are called differently and like no other node, and qualified columns are written by the names that
relations have once they are bound. -/
structure ClearlyWritten (catalog : Catalog) (node : Node) (written : Select) : Prop where
  parents : catalog.parents node ≠ []
  present : ∀ parent ∈ catalog.parents node,
    ∃ relation ∈ written.relations, relation.tableName? = some parent.name
  distinct : (written.relations.filterMap (boundName? (catalog.parents node))).Nodup
  apart : ∀ other ∈ catalog.nodes, (∀ parent ∈ catalog.parents node, parent.name ≠ other.name) →
    ∀ relation ∈ written.relations, boundName? (catalog.parents node) relation ≠ some other.name
  columns : ∀ column ∈ written.columns, column.qualifier ≠ [] →
    ∃ relation ∈ written.relations,
      boundPath? (catalog.parents node) relation = some (column.qualifier.map Name.value)

instance (written : Select) : Decidable (ClearlyWritten catalog node written) :=
  decidable_of_iff
    (catalog.parents node ≠ [] ∧
      (∀ parent ∈ catalog.parents node,
        ∃ relation ∈ written.relations, relation.tableName? = some parent.name) ∧
      (written.relations.filterMap (boundName? (catalog.parents node))).Nodup ∧
      (∀ other ∈ catalog.nodes, (∀ parent ∈ catalog.parents node, parent.name ≠ other.name) →
        ∀ relation ∈ written.relations,
          boundName? (catalog.parents node) relation ≠ some other.name) ∧
      ∀ column ∈ written.columns, column.qualifier ≠ [] →
        ∃ relation ∈ written.relations,
          boundPath? (catalog.parents node) relation = some (column.qualifier.map Name.value))
    ⟨fun ⟨parents, present, distinct, apart, columns⟩ =>
      ⟨parents, present, distinct, apart, columns⟩,
      fun ⟨parents, present, distinct, apart, columns⟩ =>
        ⟨parents, present, distinct, apart, columns⟩⟩

namespace ExpressionPlan

variable {query : Query}

theorem select_eq (plan : ExpressionPlan catalog (relationOf catalog database) node query) :
    query.select = plan.bound :=
  congrArg Query.select plan.compiles

/-- Bound relations have the names that written ones are bound to. -/
theorem paths (plain : catalog.PlainlyStored)
    (plan : ExpressionPlan catalog (relationOf catalog database) node query) :
    query.select.relations.map Relation.path? =
      plan.written.select.relations.map (boundPath? (catalog.parents node)) := by
  have each := Select.relations_of_mapRelationsM plan.binds
  rw [relations_of_qualifyColumns plan.owned] at each
  rw [plan.select_eq]
  have known : ∀ parent ∈ catalog.parents node, parent ∈ catalog.nodes :=
    fun _ isParent => (Catalog.mem_of_mem_parents isParent).1
  generalize plan.bound.relations = bounds at each
  generalize plan.written.select.relations = relations at each
  induction each with
  | nil => rfl
  | cons here _ ih => rw [List.map_cons, List.map_cons, path?_bindRelation plain known here, ih]

/-- A relation is bound to one by the names that it has then. -/
theorem exists_path (plain : catalog.PlainlyStored)
    (plan : ExpressionPlan catalog (relationOf catalog database) node query)
    {relation : Relation} (member : relation ∈ plan.written.select.relations) :
    ∃ bound ∈ query.select.relations,
      bound.path? = boundPath? (catalog.parents node) relation := by
  have there := List.mem_map_of_mem (f := boundPath? (catalog.parents node)) member
  rw [← plan.paths plain] at there
  exact List.mem_map.1 there

theorem called (plain : catalog.PlainlyStored)
    (plan : ExpressionPlan catalog (relationOf catalog database) node query) :
    query.select.relations.filterMap Relation.called? =
      plan.written.select.relations.filterMap (boundName? (catalog.parents node)) := by
  have same := congrArg (List.filterMap fun path? : Option (List String) => path?.bind List.getLast?)
    (plan.paths plain)
  rwa [List.filterMap_map, List.filterMap_map] at same

/-- The names that parents go by in the expression. -/
def calls (plan : ExpressionPlan catalog (relationOf catalog database) node query) : NodeNames :=
  NodeNames.ofSelect plan.written.select (catalog.parents node)

/-- A node with a name is housed by a bound relation. -/
theorem housed (plain : catalog.PlainlyStored)
    (plan : ExpressionPlan catalog (relationOf catalog database) node query) {parent : String}
    (some : (plan.calls.get? parent).isSome) :
    Housed plan.calls query.select.relations parent := by
  obtain ⟨name, found⟩ := Option.isSome_iff_exists.1 some
  obtain ⟨relation, member, path⟩ := NodeNames.exists_boundPath?_of_get? found
  obtain ⟨bound, there, same⟩ := plan.exists_path plain member
  refine ⟨bound, there, ?_⟩
  rw [same, path, NodeNames.nameOf, found, Option.getD_some]

/-- Every qualified column of a bound expression belongs to a relation. -/
theorem owns (plain : catalog.PlainlyStored)
    (plan : ExpressionPlan catalog (relationOf catalog database) node query)
    (clear : ClearlyWritten catalog node plan.written.select) :
    Owned query.select.relations query.select := by
  have columns : query.select.columns = plan.qualified.columns := by
    rw [plan.select_eq]
    exact Select.columns_of_mapRelationsM plan.binds
  intro column member qualified
  rw [columns] at member
  obtain ⟨before, inWritten, changed⟩ :=
    Result.exists_of_forall₂ (columns_of_qualifyColumns plan.owned) member
  rcases qualifyColumn_cases changed with rfl | ⟨parent, _, owner, found, path⟩
  · obtain ⟨relation, there, path⟩ := clear.columns column inWritten qualified
    obtain ⟨bound, inFrom, same⟩ := plan.exists_path plain there
    exact ⟨bound, inFrom, beq_iff_eq.2 (same.trans path)⟩
  · obtain ⟨bound, inFrom, refers⟩ := plan.housed plain (Option.isSome_iff_exists.2 ⟨owner, found⟩)
    refine ⟨bound, inFrom, beq_iff_eq.2 ?_⟩
    have named : plan.calls.nameOf parent.name = owner := by
      rw [NodeNames.nameOf, calls, found, Option.getD_some]
    rw [refers, named, path]
    rfl

end ExpressionPlan

/-! ## Compiled queries -/

theorem Joins.clear_start {start : List String} (distinct : Distinct select.relations)
    (owned : Owned select.relations select)
    (housed : ∀ name ∈ start ++ names.map Prod.fst, Housed names select.relations name) :
    Clear (Joins.start select names) start (Joins.start select names) where
  names := rfl
  distinct := distinct
  known := fun relation member _ called =>
    .inl (List.mem_filterMap.2 ⟨relation, member, called⟩)
  homes := housed
  columns := owned
  entries := List.forall₂_same.2 fun _ _ => .refl

/-- What a query for a node is joined to: names are clear, no other node is called like a relation,
and only nodes to start from have names. -/
structure ClearlyBegun (catalog : Catalog) (node : Node) (select : Select) (names : NodeNames) :
    Prop where
  clear : Joins.Clear (Joins.start select names) ((catalog.roots node).map Node.name)
    (Joins.start select names)
  apart : ∀ other ∈ catalog.nodes, other.name ∉ (catalog.roots node).map Node.name →
    other.name ∉ select.relations.filterMap Relation.called?
  named : ∀ entry ∈ names, entry.1 ∈ (catalog.roots node).map Node.name

theorem ofSelect_eq_nil (select : Select) : NodeNames.ofSelect select [] = [] := by
  rw [List.eq_nil_iff_forall_not_mem]
  intro entry member
  obtain ⟨_, _, ⟨_, none, _⟩, _⟩ := NodeNames.exists_table_of_mem member
  cases none

/-- No column of a stored node is qualified. -/
theorem owned_storedQuery (stored : Catalog.Materialization) (relations : List Relation) :
    Owned relations (storedQuery node stored).select := by
  intro column member qualified
  exfalso
  apply qualified
  rcases Select.mem_columns.1 member with ⟨expr, outside, there⟩ | ⟨expr, inside, _⟩
  · have shown : expr ∈ (storedQuery node stored).select.projection := by
      simpa [Select.exprs, storedQuery] using outside
    obtain ⟨names, projection⟩ : ∃ names : List String,
        (storedQuery node stored).select.projection =
          if names.isEmpty then [Expr.star] else names.map Expr.col := ⟨_, rfl⟩
    rw [projection] at shown
    split at shown
    · cases List.mem_singleton.1 shown
      cases there
    · obtain ⟨name, _, rfl⟩ := List.mem_map.1 shown
      cases List.mem_singleton.1 there
      rfl
  · cases inside

/-- The table of a node without parents is joined to under the name of the node. -/
theorem clearlyBegun_of_stored (plain : catalog.PlainlyStored) (member : node ∈ catalog.nodes)
    (orphan : node.parents = []) {stored : Catalog.Materialization} (among : stored ∈ node.tables) :
    ClearlyBegun catalog node (storedQuery node stored).select [] := by
  have roots : (catalog.roots node).map Node.name = [node.name] := by
    rw [Catalog.roots, if_pos (List.isEmpty_iff.2 orphan)]
    rfl
  have path : (Relation.table (tableOf node stored none)).path? = some [node.name] :=
    path?_tableOf (plain node member stored among)
  have called : (storedQuery node stored).select.relations.filterMap Relation.called? =
      [node.name] :=
    List.filterMap_cons_some (Relation.called?_of_path? path)
  constructor
  · apply Joins.clear_start
    · rw [Distinct, called]
      exact List.nodup_singleton _
    · exact owned_storedQuery stored _
    · intro name isNode
      rw [roots, List.map_nil, List.append_nil, List.mem_singleton] at isNode
      exact ⟨_, List.mem_singleton_self _, isNode ▸ path⟩
  · intro other _ outside
    rwa [called, ← roots]
  · intro entry member
    cases member

/-- An expression with clear names is joined to under the names that its parents go by. -/
theorem ExpressionPlan.clearlyBegun (plain : catalog.PlainlyStored) {query : Query}
    (plan : ExpressionPlan catalog (relationOf catalog database) node query)
    (clear : ClearlyWritten catalog node plan.written.select) :
    ClearlyBegun catalog node query.select plan.calls := by
  have roots := roots_eq_parents clear.parents
  have known := (NodeNames.for_ofSelect plan.written.select (catalog.parents node)).known
  have named : ∀ entry ∈ plan.calls, entry.1 ∈ (catalog.roots node).map Node.name := by
    intro entry member
    obtain ⟨parent, isParent, same⟩ := known entry member
    exact roots ▸ same ▸ List.mem_map_of_mem isParent
  constructor
  · apply Joins.clear_start
    · rw [Distinct, plan.called plain]
      exact clear.distinct
    · exact plan.owns plain clear
    · intro name member
      apply plan.housed plain
      rcases List.mem_append.1 member with isRoot | isNamed
      · rw [roots] at isRoot
        obtain ⟨parent, isParent, rfl⟩ := List.mem_map.1 isRoot
        obtain ⟨relation, inFrom, same⟩ := clear.present parent isParent
        cases relation with
        | table table =>
            exact NodeNames.isSome_get?_of_table inFrom isParent (Option.some.inj same).symm
        | derived query aliasName => cases same
      · obtain ⟨entry, there, rfl⟩ := List.mem_map.1 isNamed
        exact NodeNames.get?_of_mem there
  · intro other isNode outside
    rw [plan.called plain]
    intro clash
    obtain ⟨relation, inFrom, same⟩ := List.mem_filterMap.1 clash
    refine clear.apart other isNode (fun parent isParent alike => outside ?_) relation inFrom same
    exact roots ▸ alike ▸ List.mem_map_of_mem isParent
  · exact named

section

variable {groupBys filters : List String} {requested : Option Int} {compiled : Compiled}

/-- A plan that joins on clear names and reads no table of the node for itself. -/
theorem NodePlan.clearlyBegun (plain : catalog.PlainlyStored) (member : node ∈ catalog.nodes)
    (derived : node.expression = none → node.parents = [])
    (written : ∀ text query, node.expression = some text → Query.ofText text none = .ok query →
      ClearlyWritten catalog node query.select)
    (plan : NodePlan catalog node groupBys filters requested compiled) :
    (askedNames groupBys plan.parsed = [] ∧ ∃ stored, plan.query = storedQuery node stored) ∨
      ClearlyBegun catalog node plan.query.select plan.names := by
  have computes := plan.computes
  have calls := plan.calls
  rw [queryOf] at computes
  split at computes
  next stored found =>
    have query := (Except.ok.inj computes).symm
    by_cases asked : askedNames groupBys plan.parsed = []
    · exact .inl ⟨asked, stored, query⟩
    · right
      have some : (askedNames groupBys plan.parsed).isEmpty = false := by simpa using asked
      rw [some, Bool.false_or] at found
      split at found
      next isNone =>
        have none := Option.isNone_iff_eq_none.1 isNone
        have orphan := derived none
        rw [namesInQuery, none, Catalog.parents_eq_nil orphan, ofSelect_eq_nil] at calls
        have names : plan.names = [] := (Except.ok.inj calls).symm
        rw [names, query]
        exact clearlyBegun_of_stored plain member orphan
          (List.mem_filter.1 (mem_of_firstLeast? found)).1
      next => cases found
  next =>
    right
    obtain ⟨steps⟩ := nonempty_expressionPlan computes
    rw [namesInQuery, steps.expression] at calls
    obtain ⟨again, reads, last⟩ := Result.bind_eq_ok.1 calls
    cases Except.ok.inj (reads.symm.trans steps.reads)
    have names : plan.names = steps.calls := (Result.pure_eq_ok.1 last).symm
    rw [names]
    exact steps.clearlyBegun plain (written _ _ steps.expression steps.reads)

/-- Every dimension that is asked for is one to start from, or the end of a path. -/
theorem NodeStart.ways (accepted : catalog.Accepted) (member : node ∈ catalog.nodes)
    (start : NodeStart catalog node groupBys filters) :
    (∀ path ∈ start.paths, ∃ dimension,
      catalog.dimensionPath (catalog.roots node) dimension = some path) ∧
    ∀ name ∈ askedNames groupBys start.parsed, ∀ dimension column,
      Text.splitLastDot? name = some (dimension, column) →
        dimension ∈ (catalog.roots node).map Node.name ∨
          ∃ path ∈ start.paths, catalog.dimensionPath (catalog.roots node) dimension = some path := by
  have sound : Demand.Sound catalog
      { nodes := catalog.roots node, references := start.references } :=
    ⟨Catalog.ordered_nodeReferences start.refers, named_roots accepted member⟩
  obtain ⟨pairs, more, splits, all, ways, _⟩ := extends_demandDimensions sound start.demands
  rw [List.nil_append] at all
  rw [← all] at ways
  constructor
  · intro path onPaths
    have way : some path ∈ start.paths.map some := List.mem_map_of_mem onPaths
    rw [← ways] at way
    obtain ⟨dimension, _, found⟩ := List.mem_map.1 way
    exact ⟨dimension, found⟩
  · intro name asked dimension column split
    have pair : some (dimension, column) ∈ pairs.map some := by
      rw [← splits, ← split]
      exact List.mem_map_of_mem asked
    have among : (dimension, column) ∈ pairs := by simpa using pair
    by_cases known : isStart (catalog.roots node) dimension
    · obtain ⟨root, isRoot, same⟩ := List.any_eq_true.1 known
      exact .inl (beq_iff_eq.1 same ▸ List.mem_map_of_mem isRoot)
    · right
      have joined : dimension ∈ (pairs.map Prod.fst).filter
          fun name => !isStart (catalog.roots node) name :=
        List.mem_filter.2 ⟨List.mem_map_of_mem among, by simpa using known⟩
      have way := List.mem_map_of_mem (f := catalog.dimensionPath (catalog.roots node)) joined
      rw [ways] at way
      obtain ⟨path, onPaths, found⟩ := List.mem_map.1 way
      exact ⟨path, onPaths, found.symm⟩

theorem NodePlan.select_eq (plan : NodePlan catalog node groupBys filters requested compiled) :
    compiled.query.select = plan.select :=
  congrArg Query.select plan.compiles

/-- Nothing is added to the query of a node of which no dimension is asked. -/
theorem NodePlan.select_of_unasked
    (plan : NodePlan catalog node groupBys filters requested compiled)
    (asked : askedNames groupBys plan.parsed = []) :
    compiled.query.select = plan.query.select := by
  have none : ∀ name, name ∉ groupBys ++ plan.parsed.map Filter.name := by
    intro name member
    rw [← Catalog.mem_sortedSet] at member
    rw [askedNames] at asked
    rw [asked] at member
    cases member
  have empty := List.eq_nil_iff_forall_not_mem.2 none
  obtain ⟨rfl, noFilters⟩ := List.append_eq_nil_iff.1 empty
  have joined := plan.joined
  have restricts := plan.restricts
  have groups := plan.groups
  rw [plan.paths_eq_nil asked] at joined
  rw [List.map_eq_nil_iff.1 noFilters] at restricts
  rw [plan.select_eq, ← Result.pure_eq_ok.1 groups, ← Result.pure_eq_ok.1 restricts,
    ← Result.pure_eq_ok.1 joined]
  rfl

/-- A dimension on a path is fresh. -/
theorem ClearlyBegun.fresh {select : Select} {names : NodeNames}
    (begun : ClearlyBegun catalog node select names) {dimension : String} {path : List Hop}
    (way : catalog.dimensionPath (catalog.roots node) dimension = some path) :
    ∀ hop ∈ path, Joins.Fresh (Joins.start select names) ((catalog.roots node).map Node.name)
      hop.dimension := by
  intro hop onPath
  have outside := Catalog.avoids_dimensionPath way hop onPath
  obtain ⟨other, isNode, called⟩ := (Catalog.route_dimensionPath way).1.known hop onPath
  refine ⟨outside, called ▸ begun.apart other isNode (called ▸ outside), ?_⟩
  intro entry member same
  exact outside (same ▸ begun.named entry member)

/-- Joining, filtering and grouping on clear names leaves every qualified column with one relation,
and every join on its own entry. -/
theorem NodePlan.scoped_of_begun (accepted : catalog.Accepted) (plain : catalog.PlainlyStored)
    (member : node ∈ catalog.nodes)
    (plan : NodePlan catalog node groupBys filters requested compiled)
    (begun : ClearlyBegun catalog node plan.query.select plan.names) :
    compiled.query.select.Scoped ∧
      List.Forall₂ Joins.Extends (plan.query.select.sources.getD [])
        (compiled.query.select.sources.getD []) := by
  obtain ⟨ways, asked⟩ := plan.ways accepted member
  have linked : ∀ path ∈ plan.paths,
      Catalog.Linked ((catalog.roots node).map Node.name) path := by
    intro path onPaths
    obtain ⟨dimension, way⟩ := ways path onPaths
    exact (Catalog.route_dimensionPath way).1.linked
  have fresh : ∀ path ∈ plan.paths, ∀ hop ∈ path,
      Joins.Fresh (Joins.start plan.query.select plan.names)
        ((catalog.roots node).map Node.name) hop.dimension := by
    intro path onPaths
    obtain ⟨dimension, way⟩ := ways path onPaths
    exact begun.fresh way
  have clear := begun.clear.addPaths plain linked fresh plan.joined
  have joined := (Joins.joined_of_addPaths plan.joined).2
  have housed : ∀ name ∈ askedNames groupBys plan.parsed, ∀ dimension column,
      Text.splitLastDot? name = some (dimension, column) →
        Housed plan.names plan.joins.select.relations dimension := by
    intro name isAsked dimension column split
    have names : plan.joins.names = plan.names := clear.names
    rw [← names]
    apply clear.homes
    rcases asked name isAsked dimension column split with isRoot | ⟨path, onPaths, way⟩
    · exact List.mem_append_left _ isRoot
    · obtain ⟨hop, onPath, same⟩ := (Catalog.route_dimensionPath way).2
      exact List.mem_append_right _ (same ▸ joined path onPaths hop onPath)
  have restricted : Owned plan.joins.select.relations plan.restricted := by
    refine Result.foldlM_induction (Owned plan.joins.select.relations) clear.columns ?_
      plan.restricts
    intro filter isFilter before after owned done
    refine owned.addFilter (housed filter.name ?_) done
    exact Catalog.mem_sortedSet.2 (List.mem_append_right _ (List.mem_map_of_mem isFilter))
  have grouped : Owned plan.joins.select.relations plan.select := by
    refine Result.foldlM_induction (Owned plan.joins.select.relations) restricted ?_ plan.groups
    intro name isGroup before after owned done
    exact owned.addGroupBy (housed name (Catalog.mem_sortedSet.2 (List.mem_append_left _ isGroup))) done
  have relations : compiled.query.select.relations = plan.joins.select.relations :=
    Select.relations_congr plan.sources
  constructor
  · intro column isColumn qualified
    rw [plan.select_eq] at isColumn
    obtain ⟨relation, inFrom, owns⟩ := grouped column isColumn qualified
    rw [relations]
    exact clear.distinct.countP_owns qualified inFrom owns
  · rw [plan.sources]
    exact clear.entries

end

/-- In a compiled query for a node every qualified column belongs to exactly one relation of FROM,
and every dimension is joined on columns of relations in front of it in its own entry and of its own,
as long as names are clear: no table in a schema is called like its node in full, a node without an
expression has no parents, and the names of an expression are clear. -/
theorem compiled_node_queries_are_scoped
    {databases : List Database} {nodes : List Node}
    (built : Catalog.build databases nodes = .ok catalog) (plain : catalog.PlainlyStored)
    (member : node ∈ catalog.nodes) (derived : node.expression = none → node.parents = [])
    (written : ∀ text query, node.expression = some text → Query.ofText text none = .ok query →
      ClearlyWritten catalog node query.select)
    {groupBys filters : List String} {requested : Option Int} {compiled : Compiled}
    (done : nodeQuery catalog node groupBys filters requested = .ok compiled) :
    compiled.query.select.Scoped ∧
      ∃ plan : NodePlan catalog node groupBys filters requested compiled,
        List.Forall₂ Joins.Extends (plan.query.select.sources.getD [])
          (compiled.query.select.sources.getD []) := by
  have accepted := Catalog.accepted_of_build built
  obtain ⟨plan⟩ := nonempty_nodePlan done
  rcases plan.clearlyBegun plain member derived written with ⟨asked, stored, query⟩ | begun
  · have select := plan.select_of_unasked asked
    refine ⟨?_, plan, select ▸ List.forall₂_same.2 fun _ _ => .refl⟩
    intro column isColumn qualified
    rw [select, query] at isColumn
    obtain ⟨_, none, _⟩ := owned_storedQuery stored [] column isColumn qualified
    cases none
  · obtain ⟨owned, entries⟩ := plan.scoped_of_begun accepted plain member begun
    exact ⟨owned, plan, entries⟩

/-- The sum over orders, which go by an alias. -/
def turnover : Node :=
  { name := "turnover", kind := .metric, parents := ["orders"]
    expression := some "SELECT SUM(o.amount) FROM orders AS o" }

/-- Orders, the users that placed them, and the sum over orders. -/
def store : Catalog :=
  { databases := [tillDatabase]
    nodes :=
      [{ name := "orders", kind := .source
         columns := [{ name := "amount" }, { name := "user_id", dimension := some "users" }]
         tables := [{ database := 1, table := "raw_orders" }] },
       { name := "users", kind := .dimension
         columns := [{ name := "id" }, { name := "country" }]
         tables := [{ database := 1, schema := some "core", table := "people" }] }, turnover] }

/-- The turnover by country takes every column from one relation. -/
theorem compiled_node_queries_are_scoped_store :
    Catalog.build store.databases store.nodes = .ok store ∧ store.PlainlyStored ∧
      ∃ compiled, nodeQuery store turnover ["users.country"] ["users.id>2"] none = .ok compiled ∧
        compiled.text =
          "SELECT\n  SUM(o.amount),\n  users.country\nFROM raw_orders AS o\n" ++
            "INNER JOIN core.people AS users ON o.user_id = users.id\n" ++
            "WHERE users.id > 2\nGROUP BY users.country" ∧
        compiled.query.select.Scoped := by
  have built : Catalog.build store.databases store.nodes = .ok store := by decide +kernel
  have plain : store.PlainlyStored := by decide +kernel
  have text : (nodeQuery store turnover ["users.country"] ["users.id>2"] none).toOption.map
      Compiled.text =
        some ("SELECT\n  SUM(o.amount),\n  users.country\nFROM raw_orders AS o\n" ++
          "INNER JOIN core.people AS users ON o.user_id = users.id\n" ++
          "WHERE users.id > 2\nGROUP BY users.country") := by
    decide +kernel
  obtain ⟨compiled, known, same⟩ := Option.map_eq_some_iff.1 text
  have done := Result.eq_ok_of_toOption known
  have written : ∀ text query, turnover.expression = some text →
      Query.ofText text none = .ok query → ClearlyWritten store turnover query.select := by
    intro text query expression reads
    cases expression
    have clear : ((Query.ofText "SELECT SUM(o.amount) FROM orders AS o" none).toOption.map
        fun query => decide (ClearlyWritten store turnover query.select)) = some true := by
      decide +kernel
    rw [reads] at clear
    exact of_decide_eq_true (Option.some.inj clear)
  exact ⟨built, plain, compiled, done, same,
    (compiled_node_queries_are_scoped built plain (by simp [store]) (by simp [turnover]) written done).1⟩

/-- Users in a table of their own dotted name. -/
def coreUsers : Node :=
  { name := "core.users", kind := .source, columns := [{ name := "id" }, { name := "country" }]
    tables := [{ database := 1, schema := some "core", table := "users" }] }

def coreCatalog : Catalog :=
  { databases := [tillDatabase], nodes := [coreUsers] }

/-- A table in a schema that is called like its node in full loses the name that columns use. -/
theorem not_scoped_coreUsers :
    ∃ compiled, nodeQuery coreCatalog coreUsers ["core.users.country"] [] none = .ok compiled ∧
      ¬ compiled.query.select.Scoped := by
  have unscoped : (nodeQuery coreCatalog coreUsers ["core.users.country"] [] none).toOption.map
      (fun compiled => decide compiled.query.select.Scoped) = some false := by
    decide +kernel
  obtain ⟨compiled, known, no⟩ := Option.map_eq_some_iff.1 unscoped
  exact ⟨compiled, Result.eq_ok_of_toOption known, of_decide_eq_false no⟩

end Planner
end SemanticLayer
