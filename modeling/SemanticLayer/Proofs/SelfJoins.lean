import SemanticLayer.Proofs.Owning

/-!
# Tables of one node in FROM

A node may stand in FROM several times, under different aliases. It then goes by the last of them,
so a bare column that several tables declare is refused just if the tables are of different nodes.
In a join of a node with itself it silently becomes a column of the last table.
-/

namespace SemanticLayer

namespace Sql

/-- The table that a relation of FROM is. -/
def Relation.table? : Relation → Option Table
  | .table t => some t
  | .derived _ _ => none

/-- The tables of FROM in order, joined ones included, each as often as it stands there. -/
def Select.tables (select : Select) : List Table :=
  select.relations.filterMap Relation.table?

end Sql

namespace Planner

open SemanticLayer.Sql
open Catalog (Node)

/-! ## Who declares a column -/

/-- The name by which columns refer to the table of a node. -/
def nameInFrom (table : Table) : Name :=
  table.aliasName.getD { value := table.fullName }

/-- The tables in FROM, in order, that are of a node which declares a column. -/
def declaring (select : Select) (nodes : List Node) (column : String) : List Table :=
  select.tables.filter fun table =>
    nodes.any fun node => node.name == table.fullName && node.hasColumn column

/-- The nodes in FROM that declare a column, as often as they are given. -/
def offering (select : Select) (nodes : List Node) (column : String) : List Node :=
  nodes.filter fun node =>
    node.hasColumn column && select.tables.any fun table => table.fullName == node.name

/-- A bare column as one of the last table that declares it. -/
def ofLastTable (select : Select) (nodes : List Node) (column : Column) : Column :=
  if column.isQualified then column
  else
    (declaring select nodes column.name.value).getLast?.elim column fun table =>
      { column with table := some { name := nameInFrom table } }

variable {select after : Select} {nodes : List Node} {column changed : Column} {name : String}

theorem mem_declaring {table : Table} : table ∈ declaring select nodes name ↔
    table ∈ select.tables ∧
      ∃ node ∈ nodes, node.name = table.fullName ∧ node.hasColumn name = true := by
  simp [declaring]

theorem mem_offering {node : Node} : node ∈ offering select nodes name ↔
    node ∈ nodes ∧ node.hasColumn name = true ∧
      ∃ table ∈ select.tables, table.fullName = node.name := by
  simp [offering]

/-- A table that declares a column is of a node that does. -/
theorem exists_offering {table : Table} (declares : table ∈ declaring select nodes name) :
    ∃ node ∈ offering select nodes name, node.name = table.fullName := by
  obtain ⟨inFrom, node, member, called, has⟩ := mem_declaring.1 declares
  exact ⟨node, mem_offering.2 ⟨member, has, table, inFrom, called.symm⟩, called⟩

/-- A node in FROM that declares a column has a table that does. -/
theorem exists_declaring {node : Node} (offers : node ∈ offering select nodes name) :
    ∃ table ∈ declaring select nodes name, table.fullName = node.name := by
  obtain ⟨member, has, table, inFrom, called⟩ := mem_offering.1 offers
  exact ⟨table, mem_declaring.2 ⟨inFrom, node, member, called.symm, has⟩, called⟩

/-! ## The last table of a node -/

/-- A node goes by the name of its last table in FROM. -/
theorem reference?_eq_getLast? (select : Select) (node : String) :
    reference? select node =
      (select.tables.filter fun table => table.fullName == node).getLast?.map nameInFrom := by
  rw [reference?, Select.tables]
  induction select.relations using List.reverseRecOn with
  | nil => rfl
  | append_singleton relations relation ih =>
      rw [List.reverse_append, List.reverse_singleton, List.singleton_append, List.findSome?_cons,
        List.filterMap_append, List.filter_append]
      cases relation with
      | derived query aliasName =>
          simpa [referenceIn?, Relation.table?, List.filterMap_cons] using ih
      | table table =>
          by_cases called : table.fullName = node
          · subst called
            simp [referenceIn?, Relation.table?, nameInFrom]
          · simpa [referenceIn?, Relation.table?, called] using ih

/-- A node that offers a column has a reference. -/
theorem reference?_isSome_iff {node : String} :
    (reference? select node).isSome ↔ ∃ table ∈ select.tables, table.fullName = node := by
  rw [reference?_eq_getLast?, Option.isSome_map, List.getLast?_isSome, ne_eq,
    List.filter_eq_nil_iff]
  simp

/-- The owners of a column are the references of the nodes that offer it. -/
theorem owners_eq_filterMap (select : Select) (nodes : List Node) (name : String) :
    owners (NodeNames.ofSelect select nodes) nodes name =
      (offering select nodes name).filterMap fun node => reference? select node.name := by
  rw [owners, offering, List.filterMap_filter]
  refine List.filterMap_congr fun node member => ?_
  rw [NodeNames.get?_ofSelect_of_mem member]
  by_cases has : node.hasColumn name = true
  · rw [if_pos has, has, Bool.true_and]
    split
    next => rfl
    next missing =>
      have absent : ¬ (reference? select node.name).isSome := fun found =>
        missing (by simpa using reference?_isSome_iff.1 found)
      simpa using absent
  · simp [has]

/-- Each node that offers a column is one owner. -/
theorem length_owners (select : Select) (nodes : List Node) (name : String) :
    (owners (NodeNames.ofSelect select nodes) nodes name).length =
      (offering select nodes name).length := by
  rw [owners_eq_filterMap, List.filterMap_length_eq_length]
  intro node offers
  exact reference?_isSome_iff.2 (mem_offering.1 offers).2.2

/-- Where one node offers a column, the tables that declare it are those of the node. -/
theorem declaring_eq_filter {node : Node} (only : offering select nodes name = [node]) :
    declaring select nodes name =
      select.tables.filter fun table => table.fullName == node.name := by
  refine List.filter_congr fun table inFrom => ?_
  have offers : node ∈ offering select nodes name := by rw [only]; exact List.mem_cons_self
  obtain ⟨member, has, -⟩ := mem_offering.1 offers
  rw [Bool.eq_iff_iff, List.any_eq_true]
  constructor
  · rintro ⟨other, known, fits⟩
    obtain ⟨called, otherHas⟩ : other.name = table.fullName ∧ other.hasColumn name = true := by
      simpa using fits
    have again : other ∈ offering select nodes name :=
      mem_offering.2 ⟨known, otherHas, table, inFrom, called.symm⟩
    rw [only, List.mem_singleton] at again
    simp [← again, called]
  · intro called
    have called : table.fullName = node.name := by simpa using called
    exact ⟨node, member, by simp [called, has]⟩

/-! ## What becomes of a column -/

/-- A column is refused just if it is bare and two of the nodes offer it. Any other one becomes a
column of the last table that declares it. -/
theorem qualifyColumn_eq (select : Select) (nodes : List Node) (column : Column) :
    qualifyColumn (NodeNames.ofSelect select nodes) nodes column =
      if column.isQualified = false ∧ 2 ≤ (offering select nodes column.name.value).length then
        .error (.ambiguousColumn column.name.value)
      else .ok (ofLastTable select nodes column) := by
  have counted := length_owners select nodes column.name.value
  rw [qualifyColumn, ofLastTable]
  split
  next known => simp [known]
  next unknown =>
    have bare : column.isQualified = false := by simpa using unknown
    cases offered : offering select nodes column.name.value with
    | nil =>
        have none : declaring select nodes column.name.value = [] := by
          refine List.eq_nil_iff_forall_not_mem.2 fun table declares => ?_
          obtain ⟨node, offers, -⟩ := exists_offering declares
          simp [offered] at offers
        rw [offered] at counted
        rw [List.eq_nil_of_length_eq_zero counted, none, if_neg (by simp)]
        rfl
    | cons node others =>
        cases others with
        | nil =>
            have owner := owners_eq_filterMap select nodes column.name.value
            rw [offered] at counted owner
            obtain ⟨only, listed⟩ := List.length_eq_one_iff.1 counted
            have refers : reference? select node.name = some only := by
              rw [listed] at owner
              cases found : reference? select node.name with
              | none => simp [found] at owner
              | some other => simpa [found] using owner.symm
            rw [reference?_eq_getLast?, ← declaring_eq_filter offered] at refers
            obtain ⟨table, last, named⟩ := Option.map_eq_some_iff.1 refers
            rw [listed, if_neg (by simp), last, Option.elim_some, named]
            exact congrArg Except.ok (if_neg unknown)
        | cons another rest =>
            rw [offered] at counted
            rw [if_pos ⟨bare, by simp⟩]
            split
            next listed => simp [listed] at counted
            next listed => simp [listed] at counted
            next => rfl

/-! ## A SELECT in which tables share columns -/

/-- Whether a column is bare and two of the given nodes in FROM offer it. -/
def Rivalled (select : Select) (nodes : List Node) (column : Column) : Prop :=
  column.isQualified = false ∧ 2 ≤ (offering select nodes column.name.value).length

/-- Whether a column is bare and tables in FROM that are of different nodes declare it. -/
def SharedByNodes (select : Select) (nodes : List Node) (column : Column) : Prop :=
  column.isQualified = false ∧
    ∃ first ∈ declaring select nodes column.name.value,
      ∃ second ∈ declaring select nodes column.name.value, first.fullName ≠ second.fullName

/-- Tables of different nodes are those of two nodes that offer the column. -/
theorem SharedByNodes.rivalled (shared : SharedByNodes select nodes column) :
    Rivalled select nodes column := by
  obtain ⟨bare, first, isFirst, second, isSecond, differ⟩ := shared
  obtain ⟨node, offers, called⟩ := exists_offering isFirst
  obtain ⟨other, alsoOffers, alsoCalled⟩ := exists_offering isSecond
  refine ⟨bare, Nat.lt_of_not_le fun few => differ ?_⟩
  have same : node = other := by
    cases listed : offering select nodes column.name.value with
    | nil => simp [listed] at offers
    | cons only rest =>
        cases rest with
        | nil =>
            rw [listed, List.mem_singleton] at offers alsoOffers
            rw [offers, alsoOffers]
        | cons another rest => simp [listed] at few
  rw [← called, ← alsoCalled, same]

/-- Where nodes are told apart by their names, two nodes that offer a column have different
tables. -/
theorem Rivalled.shared (apart : (nodes.map Node.name).Nodup)
    (rivalled : Rivalled select nodes column) : SharedByNodes select nodes column := by
  obtain ⟨bare, several⟩ := rivalled
  have kept : ((offering select nodes column.name.value).map Node.name).Nodup :=
    apart.sublist (List.filter_sublist.map Node.name)
  cases listed : offering select nodes column.name.value with
  | nil => simp [listed] at several
  | cons node others =>
      cases others with
      | nil => simp [listed] at several
      | cons other rest =>
          have offers : node ∈ offering select nodes column.name.value := by simp [listed]
          have alsoOffers : other ∈ offering select nodes column.name.value := by simp [listed]
          obtain ⟨first, isFirst, called⟩ := exists_declaring offers
          obtain ⟨second, isSecond, alsoCalled⟩ := exists_declaring alsoOffers
          refine ⟨bare, first, isFirst, second, isSecond, fun same => ?_⟩
          rw [called, alsoCalled] at same
          simp [listed, same] at kept

/-- Giving owners changes nothing but that bare columns become columns of the last table that
declares them, if no two nodes offer one. -/
theorem eq_mapColumns_of_qualifyColumns (done : qualifyColumns select nodes = .ok after) :
    (∀ column ∈ select.columns, ¬ Rivalled select nodes column) ∧
      after = select.mapColumns (ofLastTable select nodes) := by
  have gives (column changed : Column)
      (given : Gives (qualifyColumn (NodeNames.ofSelect select nodes) nodes) column changed) :
      ¬ Rivalled select nodes column ∧ ofLastTable select nodes column = changed := by
    rw [Gives, qualifyColumn_eq] at given
    split at given
    next => cases given
    next free => exact ⟨free, Except.ok.inj given⟩
  have alike : select.Alike (Gives (qualifyColumn (NodeNames.ofSelect select nodes) nodes)) after :=
    Select.walk_eq_ok_iff.1 done
  constructor
  · intro column member
    obtain ⟨changed, -, given⟩ :=
      Result.exists_result_of_forall₂ (columns_of_qualifyColumns done) member
    exact (gives column changed given).1
  · have same : select.mapColumns (ofLastTable select nodes) = after.mapColumns id :=
      alike.mapColumns_eq fun column changed given => (gives column changed given).2
    rw [same, Select.mapColumns_id]

/-- Giving owners fails with the name of a bare column that two nodes offer. -/
theorem rivalled_of_qualifyColumns {failure : Error}
    (failed : qualifyColumns select nodes = .error failure) :
    ∃ column ∈ select.columns, Rivalled select nodes column ∧
      failure = .ambiguousColumn column.name.value := by
  have fails : (qualifyColumns select nodes).FailsWith fun failure =>
      ∃ column ∈ select.columns, Rivalled select nodes column ∧
        failure = .ambiguousColumn column.name.value := by
    refine qualifyColumns_failsWith fun column member failure failed => ?_
    rw [qualifyColumn_eq] at failed
    split at failed
    next rivalled =>
      cases failed
      exact ⟨column, member, rivalled, rfl⟩
    next => cases failed
  exact fails failure failed

/-- Giving owners succeeds just if no two nodes offer a bare column. -/
theorem qualifyColumns_eq_ok_iff_last : qualifyColumns select nodes = .ok after ↔
    (∀ column ∈ select.columns, ¬ Rivalled select nodes column) ∧
      after = select.mapColumns (ofLastTable select nodes) := by
  refine ⟨eq_mapColumns_of_qualifyColumns, ?_⟩
  rintro ⟨free, rfl⟩
  cases done : qualifyColumns select nodes with
  | ok other => rw [(eq_mapColumns_of_qualifyColumns done).2]
  | error failure =>
      obtain ⟨column, member, rivalled, -⟩ := rivalled_of_qualifyColumns done
      exact (free column member rivalled).elim

/-- Giving owners fails just if two nodes offer a bare column. -/
theorem qualifyColumns_fails_iff :
    (∃ name, qualifyColumns select nodes = .error (.ambiguousColumn name)) ↔
      ∃ column ∈ select.columns, Rivalled select nodes column := by
  constructor
  · rintro ⟨name, failed⟩
    obtain ⟨column, member, rivalled, -⟩ := rivalled_of_qualifyColumns failed
    exact ⟨column, member, rivalled⟩
  · rintro ⟨column, member, rivalled⟩
    cases done : qualifyColumns select nodes with
    | ok after => exact ((eq_mapColumns_of_qualifyColumns done).1 column member rivalled).elim
    | error failure =>
        obtain ⟨other, -, -, rfl⟩ := rivalled_of_qualifyColumns done
        exact ⟨_, rfl⟩

/-- Tables are told apart by their nodes only. Giving owners to the columns of a SELECT fails for a
bare column outside of subqueries that tables of different nodes declare, and, if the nodes are told
apart by their names, for no other one. So it goes through just if the tables that declare a bare
column are all of one node, however many they are, as in a join of a node with itself: the column
then becomes one of the last of them, and nothing else is changed. In full, for nodes that may be
given twice, it fails just if two of those given offer a bare column, and always with the name of
such a column. -/
theorem shared_columns_are_refused_between_nodes (select : Select) (nodes : List Node) :
    (∀ column ∈ select.columns, SharedByNodes select nodes column →
      ∃ name, qualifyColumns select nodes = .error (.ambiguousColumn name)) ∧
    ((nodes.map Node.name).Nodup → ∀ after, qualifyColumns select nodes = .ok after ↔
      (∀ column ∈ select.columns, column.isQualified = false →
        ∀ first ∈ declaring select nodes column.name.value,
          ∀ second ∈ declaring select nodes column.name.value,
            first.fullName = second.fullName) ∧
      after = select.mapColumns (ofLastTable select nodes)) ∧
    (∀ after, qualifyColumns select nodes = .ok after ↔
      (∀ column ∈ select.columns, ¬ Rivalled select nodes column) ∧
        after = select.mapColumns (ofLastTable select nodes)) ∧
    ∀ failure, qualifyColumns select nodes = .error failure →
      ∃ column ∈ select.columns, Rivalled select nodes column ∧
        failure = .ambiguousColumn column.name.value := by
  refine ⟨fun column member shared => qualifyColumns_fails_iff.2 ⟨column, member, shared.rivalled⟩,
    fun apart after => ?_, fun after => qualifyColumns_eq_ok_iff_last,
    fun failure => rivalled_of_qualifyColumns⟩
  rw [qualifyColumns_eq_ok_iff_last, and_congr_left_iff]
  rintro -
  refine forall₂_congr fun column member => ⟨fun free bare first isFirst second isSecond => ?_,
    fun same rivalled => ?_⟩
  · by_contra differ
    exact free (SharedByNodes.rivalled ⟨bare, first, isFirst, second, isSecond, differ⟩)
  · obtain ⟨bare, first, isFirst, second, isSecond, differ⟩ := rivalled.shared apart
    exact differ (same bare first isFirst second isSecond)

/-- Comments and the recent ones of them. -/
def commentNodes : List Node :=
  [{ name := "comments", kind := .source, tables := [{ database := 1, table := "comments" }]
     columns := [{ name := "id" }, { name := "parent" }] },
   { name := "recent", kind := .source, tables := [{ database := 1, table := "recent" }]
     columns := [{ name := "id" }] }]

/-- The comments `a` with the answers `b` to them, by an `id` that both tables declare. -/
def answeredIds : Select :=
  { projection := [.col "id"]
    sources := some
      [{ primary := .table { name := { value := "comments" }, aliasName := some { value := "a" } }
         joins :=
          [{ kind := .inner
             relation := .table
              { name := { value := "comments" }, aliasName := some { value := "b" } }
             on := some (.binary (.tableCol "a" "id") .eq (.tableCol "b" "parent")) }] }] }

/-- The same with the recent comments beside. -/
def recentAnsweredIds : Select :=
  { answeredIds with
    sources := answeredIds.sources.map
      (· ++ [{ primary := .table { name := { value := "recent" } } }]) }

/-- The `id` of a comment and its answer becomes that of the answer; beside the recent comments it
is refused. -/
theorem shared_columns_are_refused_between_nodes_commentNodes :
    (declaring answeredIds commentNodes "id").length = 2 ∧
      qualifyColumns answeredIds commentNodes =
        .ok (answeredIds.mapColumns (ofLastTable answeredIds commentNodes)) ∧
      (ofLastTable answeredIds commentNodes { name := { value := "id" } }).fullName = "b.id" ∧
      ∃ name, qualifyColumns recentAnsweredIds commentNodes = .error (.ambiguousColumn name) := by
  have apart : (commentNodes.map Node.name).Nodup := by decide
  refine ⟨by decide, ?_, by decide +kernel, ?_⟩
  · obtain ⟨-, goes, -⟩ := shared_columns_are_refused_between_nodes answeredIds commentNodes
    exact (goes apart _).2 ⟨by decide +kernel, rfl⟩
  · obtain ⟨fails, -⟩ := shared_columns_are_refused_between_nodes recentAnsweredIds commentNodes
    exact fails { name := { value := "id" } } List.mem_cons_self ⟨rfl, by decide +kernel⟩

end Planner

end SemanticLayer
