import SemanticLayer.Proofs.Scoping
import SemanticLayer.Proofs.Shown

/-!
# Two walks over columns agree

The columns that an expression takes from its parents are found in the document of its text, and the
columns of its SELECT get their owners clause by clause. Where the first walk succeeds so does the
second, and a column without a qualifier gets the table of the one parent that it was charged to.
-/

namespace SemanticLayer

open Result (FailsWith)

namespace Result

/-- What cannot fail succeeds. -/
theorem FailsWith.exists_ok {α : Type} {run : Result α} (never : run.FailsWith fun _ => False) :
    ∃ value, run = .ok value := by
  cases run with
  | ok value => exact ⟨value, rfl⟩
  | error failure => exact (never failure rfl).elim

end Result

namespace Catalog

variable {parents : List Node} {references : References}

/-- A bare column is charged to the only one of some parents that has it. -/
structure Charged (parents : List Node) (references : References) (column : String)
    (parent : Node) : Prop where
  only : (parents.filter fun node => node.hasColumn column) = [parent]
  listed : column ∈ references.of parent.name

theorem Charged.mem {column : String} {parent : Node}
    (charged : Charged parents references column parent) : parent ∈ parents := by
  have member : parent ∈ parents.filter fun node => node.hasColumn column := by
    rw [charged.only]
    exact List.mem_singleton_self parent
  exact (List.mem_filter.1 member).1

/-- Each bare column is charged. -/
theorem charged_of_addBare {columns : List String} {start : References} (ordered : start.Ordered)
    (done : columns.foldlM (addBare parents) start = .ok references) :
    ∀ column ∈ columns, ∃ parent, Charged parents references column parent := by
  obtain ⟨-, members, owned⟩ := mem_of_addBare ordered done
  intro column member
  obtain ⟨parent, only⟩ := owned column member
  exact ⟨parent, only, (members _ _).2 (.inr ⟨member, parent, only, rfl⟩)⟩

/-- The names of the lone identifiers of a document. -/
def bareNames (document : Document) : List String :=
  ((document.find "Identifier" none).filterMap document.at?).map Access.identValue

/-- Every lone identifier of a document is charged to a parent. -/
theorem charged_of_documentReferences {document : Document} {column : String}
    (done : documentReferences document parents = .ok references)
    (member : column ∈ bareNames document) :
    ∃ parent, Charged parents references column parent := by
  obtain ⟨qualified, first, later⟩ := Result.bind_eq_ok.1 done
  exact charged_of_addBare (mem_of_addQualified List.Pairwise.nil first).1 later _ member

/-- A text writes a column without a qualifier. -/
def WritesBare (text column : String) : Prop :=
  ∃ statements, Sql.statementsOf text none = .ok statements ∧
    column ∈ bareNames (Grammar.View.statements statements)

/-- A text that is read writes its lone identifiers so. -/
theorem writesBare_iff {text column : String} {names : List String}
    (known : (Sql.statementsOf text none).toOption.map (fun statements =>
      bareNames (Grammar.View.statements statements)) = some names) :
    WritesBare text column ↔ column ∈ names := by
  obtain ⟨statements, parsed, rfl⟩ := Option.map_eq_some_iff.1 known
  have parsed := Result.eq_ok_of_toOption parsed
  constructor
  · rintro ⟨others, again, bare⟩
    cases parsed.symm.trans again
    exact bare
  · exact fun bare => ⟨statements, parsed, bare⟩

end Catalog

namespace Sql

/-- A text that is read as a query holds that query and nothing else. -/
theorem statementsOf_of_ofText {text : String} {dialect : Option Dialect} {query : Query}
    (read : Query.ofText text dialect = .ok query) :
    ∃ written, statementsOf text dialect = .ok [.query written] ∧ queryOf written = .ok query := by
  obtain ⟨written, single, made⟩ := Result.bind_eq_ok.1 read
  obtain ⟨statements, found, one⟩ := Result.bind_eq_ok.1 single
  refine ⟨written, ?_, made⟩
  split at one
  · cases one
    exact found
  · cases one
  · cases one

end Sql

namespace Planner

open SemanticLayer.Sql
open Catalog (Node References Charged)

variable {catalog : Catalog} {node : Node} {parents : List Node} {references : References}
  {select : Select}

/-- Owners are given without failure if each column gets its own without failure. -/
theorem qualifyColumns_failsWith {allowed : Error → Prop}
    (each : ∀ column ∈ select.columns,
      (qualifyColumn (NodeNames.ofSelect select parents) parents column).FailsWith allowed) :
    (qualifyColumns select parents).FailsWith allowed := by
  have expr : ∀ expr ∈ select.exprs ++ select.conditions, (Expr.mapColumnsM
      (qualifyColumn (NodeNames.ofSelect select parents) parents) expr).FailsWith allowed :=
    fun expr member => Expr.mapColumnsM_failsWith fun column there =>
      each column (List.mem_flatMap.2 ⟨expr, member, there⟩)
  refine (select.mapExprsM_failsWith fun item member =>
    expr item (List.mem_append_left _ member)).bind fun middle done => ?_
  refine middle.mapConditionsM_failsWith fun source isSource join isJoin on condition => ?_
  rw [Select.sources_of_mapExprsM done] at isSource
  apply expr on (List.mem_append_right _ _)
  exact List.mem_flatMap.2 ⟨source, isSource, List.mem_filterMap.2 ⟨join, isJoin, condition⟩⟩

/-- What becomes of a column of an expression. One with a qualifier stays. Any other one is charged
to one parent, and belongs to the table in FROM that is called like the parent, by its alias if it
has one; it stays bare if there is no such table. -/
inductive Attached (parents : List Node) (references : References) (relations : List Relation)
    (column : Column) : Column → Prop
  | qualified (known : column.isQualified = true) :
      Attached parents references relations column column
  | owned {parent : Node} {table : Table} (bare : column.isQualified = false)
      (charged : Charged parents references column.name.value parent)
      (inFrom : .table table ∈ relations) (called : table.fullName = parent.name) :
      Attached parents references relations column
        { column with table := some { name := table.aliasName.getD { value := parent.name } } }
  | absent {parent : Node} (bare : column.isQualified = false)
      (charged : Charged parents references column.name.value parent)
      (missing : ∀ table, .table table ∈ relations → table.fullName ≠ parent.name) :
      Attached parents references relations column column

/-- Where all parents stand in FROM, every column gets a qualifier. -/
theorem Attached.isQualified {relations : List Relation} {column after : Column}
    (present : ∀ parent ∈ parents, ∃ relation ∈ relations, relation.tableName? = some parent.name)
    (attached : Attached parents references relations column after) :
    after.isQualified = true := by
  cases attached with
  | qualified known => exact known
  | owned bare charged inFrom called => rfl
  | absent bare charged missing =>
      obtain ⟨relation, inFrom, same⟩ := present _ charged.mem
      cases relation with
      | derived query aliasName => cases same
      | table table => exact (missing table inFrom (Option.some.inj same)).elim

/-- A charged column gets its owner without failure. -/
theorem attached_of_charged {column : Column}
    (charged : column.isQualified = false →
      ∃ parent, Charged parents references column.name.value parent) :
    ∃ changed, qualifyColumn (NodeNames.ofSelect select parents) parents column = .ok changed ∧
      Attached parents references select.relations column changed := by
  rw [qualifyColumn]
  split
  next known => exact ⟨column, rfl, .qualified known⟩
  next unknown =>
    have bare : column.isQualified = false := by simpa using unknown
    obtain ⟨parent, charged⟩ := charged bare
    have owned : owners (NodeNames.ofSelect select parents) parents column.name.value =
        ((NodeNames.ofSelect select parents).get? parent.name).toList := by
      rw [owners, ← List.filterMap_filter, charged.only]
      cases known : (NodeNames.ofSelect select parents).get? parent.name with
      | none => simp [known]
      | some owner => simp [known]
    rw [owned]
    cases known : (NodeNames.ofSelect select parents).get? parent.name with
    | none =>
        refine ⟨column, rfl, .absent bare charged fun table inFrom called => ?_⟩
        have there := NodeNames.isSome_get?_of_table inFrom charged.mem called.symm
        rw [known] at there
        cases there
    | some owner =>
        obtain ⟨entry, first, rfl⟩ := Option.map_eq_some_iff.1 known
        obtain ⟨table, inFrom, -, same, named⟩ :=
          NodeNames.exists_table_of_mem (List.mem_of_find?_eq_some first)
        have called : entry.1 = parent.name := by simpa using List.find?_some first
        refine ⟨_, rfl, ?_⟩
        rw [Column.addTable, if_neg unknown, named, called]
        exact .owned bare charged inFrom (same.symm.trans called)

section

variable {text : String} {query : Query}

/-- A bare column of a SELECT is written so in the text it is read from. -/
theorem writesBare_of_ofText (read : Query.ofText text none = .ok query) {column : Column}
    (member : column ∈ query.select.columns) (bare : column.isQualified = false) :
    Catalog.WritesBare text column.name.value := by
  obtain ⟨tree, statements, made⟩ := statementsOf_of_ofText read
  have keyed : (Grammar.View.statements [.query tree]).Keyed :=
    (((Grammar.View.tells_query tree).single (by decide)).array_cons .array_nil).regular.keyed
  have shown : Grammar.View.Shows (Grammar.View.statements [.query tree]) _ :=
    ((Grammar.View.shows_query tree made).single "Query").cons .nil
  rw [List.append_nil] at shown
  have written := List.mem_map_of_mem (f := Access.identValue) ((shown column member).2 bare)
  rw [Grammar.View.identValue_name, ← Document.filterMap_at?_find keyed] at written
  exact ⟨_, statements, written⟩

/-- Where the columns that an expression takes from its parents are found, every bare column of its
SELECT is charged to one of them. -/
theorem charged_of_nodeReferences (written : node.expression = some text)
    (found : catalog.nodeReferences node = .ok references)
    (read : Query.ofText text none = .ok query) {column : Column}
    (member : column ∈ query.select.columns) (bare : column.isQualified = false) :
    ∃ parent, Charged (catalog.parents node) references column.name.value parent := by
  obtain ⟨statements, known, listed⟩ := writesBare_of_ofText read member bare
  rw [Catalog.nodeReferences, written] at found
  obtain ⟨_, parsed, told⟩ := Result.bind_eq_ok.1 found
  cases known.symm.trans parsed
  exact Catalog.charged_of_documentReferences told listed

/-- Columns that get their owners get those that they are charged to. -/
theorem attached_of_qualifyColumns (written : node.expression = some text)
    (found : catalog.nodeReferences node = .ok references)
    (read : Query.ofText text none = .ok query) {qualified : Select}
    (done : qualifyColumns query.select (catalog.parents node) = .ok qualified) :
    List.Forall₂ (Attached (catalog.parents node) references query.select.relations)
      query.select.columns qualified.columns := by
  obtain ⟨length, changes⟩ := List.forall₂_iff_zip.1 (columns_of_qualifyColumns done)
  refine List.forall₂_iff_zip.2 ⟨length, fun {before after} pair => ?_⟩
  obtain ⟨changed, known, attached⟩ := attached_of_charged
    (charged_of_nodeReferences written found read (List.of_mem_zip pair).1)
  cases known.symm.trans (changes pair)
  exact attached

end

/-- Where the columns that an expression takes from its parents are found, the columns of its SELECT
get their owners without failure, and those without a qualifier belong to the parents they were
charged to. -/
theorem qualified_columns_are_charged {text : String} {query : Query}
    (written : node.expression = some text) (found : catalog.nodeReferences node = .ok references)
    (read : Query.ofText text none = .ok query) :
    ∃ qualified, qualifyColumns query.select (catalog.parents node) = .ok qualified ∧
      List.Forall₂ (Attached (catalog.parents node) references query.select.relations)
        query.select.columns qualified.columns := by
  have never : (qualifyColumns query.select (catalog.parents node)).FailsWith fun _ => False := by
    apply qualifyColumns_failsWith
    intro column member failure failed
    obtain ⟨changed, done, -⟩ :=
      attached_of_charged (charged_of_nodeReferences written found read member)
    rw [done] at failed
    cases failed
  obtain ⟨qualified, done⟩ := never.exists_ok
  exact ⟨qualified, done, attached_of_qualifyColumns written found read done⟩

/-- What customers spent, by the names of customers. -/
def spending : Node :=
  { name := "spending", kind := .transform, parents := ["orders", "customers"]
    expression := some <|
      "SELECT label, SUM(amount) AS total FROM orders AS o " ++
        "INNER JOIN customers ON customer = customers.id GROUP BY label" }

/-- Orders of customers. -/
def customerOrders : Catalog :=
  { nodes :=
      [{ name := "orders", kind := .source
         columns := [{ name := "amount" }, { name := "customer" }] },
       { name := "customers", kind := .source
         columns := [{ name := "id" }, { name := "label" }] }, spending] }

/-- Labels belong to customers, amounts to orders under their alias. -/
theorem qualified_columns_are_charged_spending :
    ∃ references, ∃ query : Query, ∃ qualified, customerOrders.nodeReferences spending = .ok references ∧
      references = [("customers", ["id", "label"]), ("orders", ["amount", "customer"])] ∧
      qualifyColumns query.select (customerOrders.parents spending) = .ok qualified ∧
      qualified.columns.map Column.fullName =
        ["customers.label", "o.amount", "customers.label", "o.customer", "customers.id"] ∧
      List.Forall₂ (Attached (customerOrders.parents spending) references query.select.relations)
        query.select.columns qualified.columns := by
  have charges : (customerOrders.nodeReferences spending).toOption =
      some [("customers", ["id", "label"]), ("orders", ["amount", "customer"])] := by
    decide +kernel
  have names : ((Query.ofText (spending.expression.getD "") none).toOption.bind fun query =>
      (qualifyColumns query.select (customerOrders.parents spending)).toOption.map
        fun qualified => qualified.columns.map Column.fullName) = some
          ["customers.label", "o.amount", "customers.label", "o.customer", "customers.id"] := by
    decide +kernel
  obtain ⟨query, known, found⟩ := Option.bind_eq_some_iff.1 names
  have read := Result.eq_ok_of_toOption known
  have told := Result.eq_ok_of_toOption charges
  obtain ⟨qualified, done, attached⟩ := qualified_columns_are_charged rfl told read
  rw [done] at found
  exact ⟨_, query, qualified, told, rfl, done, Option.some.inj found, attached⟩

end Planner
end SemanticLayer
