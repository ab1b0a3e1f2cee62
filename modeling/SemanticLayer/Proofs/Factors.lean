import SemanticLayer.Grammar.View
import SemanticLayer.Proofs.Regularity

/-!
# The tables of a query

The tables that a query names, wherever it names them: behind FROM and in joins, in the queries of
WITH, in queries that stand in parentheses or in expressions, and on both sides of a set operator.
The document of a query is regular and tells of just these tables, in this order.
-/

namespace SemanticLayer
namespace Grammar

/-! ## Named tables -/

/-- A dotted name without its quotation marks. -/
def ObjectName.written (name : ObjectName) : List String :=
  name.parts.map Sql.Name.value

mutual

/-- The tables named in an expression. -/
def Expr.factors : Expr → List (List String)
  | .identifier _ => []
  | .compound _ _ => []
  | .value _ => []
  | .binary left _ right => left.factors ++ right.factors
  | .unary _ operand => operand.factors
  | .nested inner => inner.factors
  | .tuple items => exprsFactors items
  | .isNull subject => subject.factors
  | .isNotNull subject => subject.factors
  | .test _ subject => subject.factors
  | .comparison _ left right => left.factors ++ right.factors
  | .pattern _ _ _ subject pattern _ => subject.factors ++ pattern.factors
  | .inList subject items _ => subject.factors ++ exprsFactors items
  | .inSubquery subject inner _ => subject.factors ++ inner.factors
  | .between subject low high _ => subject.factors ++ high.factors ++ low.factors
  | .case operand conditions results otherwise =>
    exprsFactors conditions ++ exprFactors? otherwise ++ exprFactors? operand ++
      exprsFactors results
  | .call inner => inner.factors
  | .exists inner _ => inner.factors
  | .subquery inner => inner.factors
  | .grouping _ items => exprsFactors items
  | .special _ operands => exprsFactors operands

/-- The tables named in several expressions. -/
def exprsFactors : List Expr → List (List String)
  | [] => []
  | first :: rest => first.factors ++ exprsFactors rest

/-- The tables named in an expression that may be missing. -/
def exprFactors? : Option Expr → List (List String)
  | some found => found.factors
  | none => []

/-- The tables named in a call. -/
def Call.factors : Call → List (List String)
  | ⟨_, parameters, given, withinGroup, filter, _, window⟩ =>
    argumentsFactors? given ++ exprFactors? filter ++ exprFactors? window ++
      argumentsFactors? parameters ++ orderingsFactors withinGroup

/-- The tables named between the parentheses of a call. -/
def argumentsFactors? : Option Arguments → List (List String)
  | none => []
  | some (.query inner) => inner.factors
  | some (.list _ items orderBy limit bound _) =>
    argumentListFactors items ++ orderingsFactors orderBy ++ exprFactors? limit ++
      exprFactors? bound

/-- The tables named in an argument. -/
def Argument.factors : Argument → List (List String)
  | .expr found => found.factors
  | .wildcard => []
  | .qualifiedWildcard _ => []
  | .named _ inner => inner.factors

/-- The tables named in several arguments. -/
def argumentListFactors : List Argument → List (List String)
  | [] => []
  | first :: rest => first.factors ++ argumentListFactors rest

/-- The tables named in an entry of ORDER BY. -/
def Ordering.factors : Ordering → List (List String)
  | ⟨key, _, _⟩ => key.factors

/-- The tables named in several entries of ORDER BY. -/
def orderingsFactors : List Ordering → List (List String)
  | [] => []
  | first :: rest => first.factors ++ orderingsFactors rest

/-- The tables named in a query. -/
def Query.factors : Query → List (List String)
  | ⟨_, named, source, orderBy, limit, limitBy, offset, _, _, _⟩ =>
    source.factors ++ exprFactors? limit ++ exprsFactors limitBy ++ exprFactors? offset ++
      orderingsFactors orderBy ++ ctesFactors named

/-- The tables named in a named query. -/
def Cte.factors : Cte → List (List String)
  | ⟨_, inner, _⟩ => inner.factors

/-- The tables named in several named queries. -/
def ctesFactors : List Cte → List (List String)
  | [] => []
  | first :: rest => first.factors ++ ctesFactors rest

/-- The tables named where rows come from. TABLE with a name stands for a whole query and names
no table of its own. -/
def Body.factors : Body → List (List String)
  | .select inner => inner.factors
  | .query inner => inner.factors
  | .combined left _ _ right => left.factors ++ right.factors
  | .values rows => exprsFactors rows
  | .table _ => []
  | .change _ _ tables operands returned =>
    sourcesFactors tables ++ exprsFactors operands ++ itemsFactors returned

/-- The tables named in what SELECT keeps apart. -/
def Distinct.factors : Distinct → List (List String)
  | .all => []
  | .distinct => []
  | .on keys => exprsFactors keys

/-- The tables named in a SELECT. -/
def Select.factors : Select → List (List String)
  | ⟨kept, top, _, projection, _, sources, prewhere, filter, groups, _, clusterBy, distributeBy,
      sortBy, having, windows, qualify⟩ =>
    exprsFactors clusterBy ++ kept.factors ++ exprsFactors distributeBy ++ sourcesFactors sources ++
      groupsFactors groups ++ exprFactors? having ++ exprsFactors windows ++
      exprFactors? prewhere ++ itemsFactors projection ++ exprFactors? qualify ++
      exprFactors? filter ++ exprsFactors sortBy ++ exprFactors? top

/-- The tables named in a GROUP BY. -/
def groupsFactors : Option (List Expr) → List (List String)
  | some keys => exprsFactors keys
  | none => []

/-- The tables named in an entry of a projection. -/
def SelectItem.factors : SelectItem → List (List String)
  | .unnamed found => found.factors
  | .aliased found _ => found.factors
  | .wildcard _ => []
  | .qualifiedWildcard _ _ => []

/-- The tables named in several entries of a projection. -/
def itemsFactors : List SelectItem → List (List String)
  | [] => []
  | first :: rest => first.factors ++ itemsFactors rest

/-- The tables named in an entry of FROM. -/
def TableWithJoins.factors : TableWithJoins → List (List String)
  | ⟨relation, joins⟩ => joinsFactors joins ++ relation.factors

/-- The tables named in several entries of FROM. -/
def sourcesFactors : List TableWithJoins → List (List String)
  | [] => []
  | first :: rest => first.factors ++ sourcesFactors rest

/-- The tables named in what stands for a table: its own name, and what is named inside. -/
def TableFactor.factors : TableFactor → List (List String)
  | .table name _ items hints _ => name.written :: (tableArgumentsFactors items ++ exprsFactors hints)
  | .derived _ inner _ => inner.factors
  | .nestedJoin inner _ => inner.factors
  | .function _ items _ => argumentListFactors items
  | .unnest arrays _ => exprsFactors arrays
  | .tableFunction inner _ => inner.factors

/-- The tables named in the arguments of a table. -/
def tableArgumentsFactors : Option (List Argument) → List (List String)
  | some items => argumentListFactors items
  | none => []

/-- The tables named in a join. -/
def Join.factors : Join → List (List String)
  | ⟨_, relation, agreed, nearest⟩ =>
    matchingFactors agreed ++ exprFactors? nearest ++ relation.factors

/-- The tables named in a condition of a join. -/
def matchingFactors : Option Matching → List (List String)
  | some (.on condition) => condition.factors
  | some (.using _) => []
  | some .natural => []
  | none => []

/-- The tables named in several joins. -/
def joinsFactors : List Join → List (List String)
  | [] => []
  | first :: rest => first.factors ++ joinsFactors rest

end

end Grammar

/-! ## Documents that tell of tables -/

namespace Document

open Access (tables tablesInField tableName? tables_object tables_array tables_of_inert Dotted
  dotted_object dotted_array dotted_of_inert identValues)

/-- A regular document that tells of the given tables, in which every column with a qualifier has
at least two parts. -/
structure Tells (document : Document) (names : List (List String)) : Prop where
  regular : Regular document
  tables : tables document = names
  dotted : Dotted document

/-- The fields that have a meaning of their own. -/
def reserved : List String :=
  "Table" :: loneMarks

/-- Fields of no special meaning that tell of the given tables. -/
inductive TellsFields : Fields → List (List String) → Prop
  | nil : TellsFields [] []
  | cons {key : String} {value : Document} {rest : Fields} {names others : List (List String)}
      (ordinary : key ∉ reserved ++ labels) (told : Tells value names)
      (later : TellsFields rest others) : TellsFields ((key, value) :: rest) (names ++ others)
  | inert {key : String} {value : Document} {rest : Fields} {others : List (List String)}
      (ordinary : key ∉ reserved) (silent : Inert value)
      (later : TellsFields rest others) : TellsFields ((key, value) :: rest) others

theorem Inert.tells {document : Document} (inert : Inert document) : Tells document [] :=
  ⟨inert.regular, tables_of_inert inert, dotted_of_inert inert⟩

theorem TellsFields.plain {fields : Fields} {names : List (List String)}
    (told : TellsFields fields names) (distinct : (fields.map Prod.fst).Nodup) : Plain fields := by
  induction told with
  | nil => exact ⟨distinct, by simp, by simp, by simp⟩
  | cons ordinary value _ ih =>
      rw [List.map_cons, List.nodup_cons] at distinct
      have rest := ih distinct.2
      rw [List.mem_append, not_or] at ordinary
      constructor
      · exact List.nodup_cons.2 distinct
      · exact List.forall_mem_cons.2
          ⟨fun mark => ordinary.1 (List.mem_cons_of_mem _ mark), rest.ordinary⟩
      · exact List.forall_mem_cons.2 ⟨fun label => absurd label ordinary.2, rest.named⟩
      · exact List.forall_mem_cons.2 ⟨value.regular, rest.inner⟩
  | inert ordinary silent _ ih =>
      rw [List.map_cons, List.nodup_cons] at distinct
      have rest := ih distinct.2
      constructor
      · exact List.nodup_cons.2 distinct
      · exact List.forall_mem_cons.2
          ⟨fun mark => ordinary (List.mem_cons_of_mem _ mark), rest.ordinary⟩
      · exact List.forall_mem_cons.2 ⟨fun _ => silent, rest.named⟩
      · exact List.forall_mem_cons.2 ⟨silent.regular, rest.inner⟩

theorem TellsFields.tables {fields : Fields} {names : List (List String)}
    (told : TellsFields fields names) : fields.flatMap tablesInField = names := by
  induction told with
  | nil => rfl
  | cons ordinary value _ ih =>
      rw [List.mem_append, not_or, reserved, List.mem_cons, not_or] at ordinary
      rw [List.flatMap_cons, ih, tablesInField, if_neg ordinary.1.1, value.tables, List.nil_append]
  | inert ordinary silent _ ih =>
      rw [reserved, List.mem_cons, not_or] at ordinary
      rw [List.flatMap_cons, ih, tablesInField, if_neg ordinary.1, tables_of_inert silent]
      rfl

theorem TellsFields.dotted {fields : Fields} {names : List (List String)}
    (told : TellsFields fields names) : Dotted (.object fields) := by
  have unqualified : "CompoundIdentifier" ∈ reserved := by decide
  rw [dotted_object]
  induction told with
  | nil => exact List.forall_mem_nil _
  | cons ordinary value _ ih =>
      refine List.forall_mem_cons.2 ⟨⟨?_, value.dotted⟩, ih⟩
      rintro rfl
      exact absurd (List.mem_append_left labels unqualified) ordinary
  | inert ordinary silent _ ih =>
      refine List.forall_mem_cons.2 ⟨⟨?_, dotted_of_inert silent⟩, ih⟩
      rintro rfl
      exact absurd unqualified ordinary

theorem TellsFields.object {fields : Fields} {names : List (List String)}
    (told : TellsFields fields names) (distinct : (fields.map Prod.fst).Nodup) :
    Tells (.object fields) names :=
  ⟨(told.plain distinct).regular, by rw [tables_object, told.tables], told.dotted⟩

theorem Tells.single {value : Document} {names : List (List String)} (told : Tells value names)
    {key : String} (ordinary : key ∉ reserved ++ labels) : Tells (.single key value) names := by
  have object := (TellsFields.cons ordinary told .nil).object (by simp)
  rwa [List.append_nil] at object

theorem TellsFields.node {fields : Fields} {names : List (List String)}
    (told : TellsFields fields names) (distinct : (fields.map Prod.fst).Nodup) {kind : String}
    (ordinary : kind ∉ reserved ++ labels) : Tells (Grammar.View.node kind fields) names :=
  (told.object distinct).single ordinary

theorem Tells.of_single {key : String} {value : Document} {names : List (List String)}
    (told : Tells (.single key value) names) (ordinary : key ∉ reserved) : Tells value names := by
  rw [reserved, List.mem_cons, not_or] at ordinary
  have here : (Document.single key value).child? key = some value := by
    simp [Document.single, child?, Fields.get?]
  constructor
  · exact told.regular.child? here
  · have same := told.tables
    rwa [Document.single, tables_object, List.flatMap_singleton, tablesInField,
      if_neg ordinary.1, List.nil_append] at same
  · exact ((dotted_object _).1 told.dotted (key, value) List.mem_cons_self).2

/-- A table tells of its own name, if it has one, before what is told inside. -/
theorem Tells.table {value : Document} {names : List (List String)} (told : Tells value names) :
    Tells (.single "Table" value) ((tableName? value).toList ++ names) := by
  constructor
  · exact .object (by simp) (by simp [loneMarks]) (by simp [labels]) (by simpa using told.regular)
  · rw [Document.single, tables_object, List.flatMap_singleton, tablesInField, if_pos rfl,
      told.tables]
  · exact (dotted_object _).2 (by simpa using told.dotted)

theorem Tells.array_nil : Tells (.array []) [] :=
  ⟨.array (by simp), rfl, (dotted_array _).2 (by simp)⟩

theorem Tells.array_cons {item : Document} {items : List Document}
    {names others : List (List String)} (told : Tells item names)
    (later : Tells (.array items) others) : Tells (.array (item :: items)) (names ++ others) := by
  constructor
  · cases later.regular with
    | array inner => exact .array (List.forall_mem_cons.2 ⟨told.regular, inner⟩)
  · rw [tables_array, List.flatMap_cons, told.tables, ← tables_array, later.tables]
  · exact (dotted_array _).2
      (List.forall_mem_cons.2 ⟨told.dotted, (dotted_array _).1 later.dotted⟩)

theorem Tells.array_append {front items : List Document} {names others : List (List String)}
    (told : Tells (.array front) names) (later : Tells (.array items) others) :
    Tells (.array (front ++ items)) (names ++ others) := by
  constructor
  · cases told.regular with
    | array first =>
      cases later.regular with
      | array second =>
          apply Regular.array
          intro item listed
          exact (List.mem_append.1 listed).elim (first item) (second item)
  · rw [tables_array, List.flatMap_append, ← tables_array, ← tables_array, told.tables,
      later.tables]
  · exact (dotted_array _).2 (List.forall_mem_append.2
      ⟨(dotted_array _).1 told.dotted, (dotted_array _).1 later.dotted⟩)

/-- A column tells of no table. -/
theorem tells_column {key : String} {value : Document}
    (mark : key ∈ ["Identifier", "CompoundIdentifier"]) (inert : Inert value)
    (long : key = "CompoundIdentifier" → 2 ≤ (identValues value).length) :
    Tells (.single key value) [] := by
  have noTable : ∀ mark ∈ ["Identifier", "CompoundIdentifier"], mark ≠ "Table" := by decide
  constructor
  · exact .column mark inert
  · rw [Document.single, tables_object, List.flatMap_singleton, tablesInField,
      if_neg (noTable key mark), tables_of_inert inert]
    rfl
  · exact (dotted_object _).2 (by simpa using ⟨long, dotted_of_inert inert⟩)

end Document
/-! ## What tells of no table -/

namespace Grammar.View

open Document

theorem inert_single {key : String} {value : Document} (unmarked : key ∉ marks)
    (inert : Inert value) : Inert (.single key value) :=
  .object (by simp) (by simpa using unmarked) (by simpa using inert)

theorem inert_array_map {α : Type} {view : α → Document} (items : List α)
    (inert : ∀ item, Inert (view item)) : Inert (.array (items.map view)) := by
  apply Inert.array
  intro document listed
  obtain ⟨item, _, rfl⟩ := List.mem_map.1 listed
  exact inert item

theorem inert_text? (text : Option String) : Inert (text? text) := by
  cases text with
  | none => exact .null
  | some found => exact .string found

theorem inert_name (found : Sql.Name) : Inert (name found) := by
  apply Inert.object
  · simp
  · simp [marks]
  · simpa using ⟨inert_text? _, Inert.string found.value⟩

theorem inert_names (found : List Sql.Name) : Inert (names found) :=
  inert_array_map found inert_name

theorem inert_tableAlias (label : Option TableAlias) : Inert (tableAlias label) := by
  cases label with
  | none => exact .null
  | some label =>
      apply Inert.object
      · simp
      · simp [marks]
      · have columns : Inert (.array (label.columns.map fun column =>
            Document.object [("data_type", .null), ("name", name column)])) := by
          apply inert_array_map
          intro column
          apply Inert.object
          · simp
          · simp [marks]
          · simpa using ⟨Inert.null, inert_name column⟩
        simpa using ⟨columns, inert_name label.name⟩

theorem inert_value (literal : Value) : Inert (value literal) := by
  cases literal with
  | number digits =>
      apply inert_single (by decide)
      apply Inert.array
      simpa using ⟨Inert.string digits, Inert.bool false⟩
  | string text => exact inert_single (by decide) (.string text)
  | boolean truth => exact inert_single (by decide) (.bool truth)
  | null => exact .string "Null"
  | marked kind text =>
      apply inert_single _ (.string text)
      cases kind <;> decide

theorem inert_exceptNames (found : List Sql.Name) : Inert (exceptNames found) := by
  cases found with
  | nil => exact .null
  | cons first rest =>
      apply Inert.object
      · simp
      · simp [marks]
      · simpa using ⟨inert_names rest, inert_name first⟩

theorem inert_excludeNames (found : List Sql.Name) : Inert (excludeNames found) := by
  cases found with
  | nil => exact .null
  | cons first rest =>
      cases rest with
      | nil => exact inert_single (by decide) (inert_name first)
      | cons second rest => exact inert_single (by decide) (inert_names _)

theorem inert_wildcardOptions (options : WildcardOptions) : Inert (wildcardOptions options) := by
  have ilike : Inert ((options.ilike.map fun pattern =>
      Document.object [("pattern", .string pattern)]).getD .null) := by
    cases options.ilike with
    | none => exact .null
    | some pattern => exact inert_single (by decide) (.string pattern)
  have renamed : Inert (if options.rename.isEmpty then .null
      else .single "Multiple" (.array (options.rename.map fun names =>
        Document.object [("alias", name names.2), ("ident", name names.1)]))) := by
    split
    · exact .null
    · apply inert_single (by decide)
      apply inert_array_map
      intro names
      apply Inert.object
      · simp
      · simp [marks]
      · simpa using ⟨inert_name names.2, inert_name names.1⟩
  apply Inert.object
  · simp
  · simp [marks]
  · simp only [List.forall_mem_cons]
    exact ⟨inert_exceptNames options.except, inert_excludeNames options.exclude, ilike, renamed,
      Inert.null, by simp⟩

theorem inert_nullTreatment (treatment : Option NullTreatment) :
    Inert (nullTreatment treatment) := by
  cases treatment with
  | none => exact .null
  | some found => cases found <;> exact .string _

theorem inert_duplicates (repeated : Option Duplicates) : Inert (duplicates repeated) := by
  cases repeated with
  | none => exact .null
  | some found => cases found <;> exact .string _

theorem inert_bool? (truth : Option Bool) : Inert (bool? truth) := by
  cases truth with
  | none => exact .null
  | some found => exact .bool found

theorem inert_fetch (fetched : Option Fetch) : Inert (fetch fetched) := by
  cases fetched with
  | none => exact .null
  | some fetched =>
      have quantity : Inert ((fetched.quantity.map fun quantity =>
          Document.single "Value" (value quantity)).getD .null) := by
        cases fetched.quantity with
        | none => exact .null
        | some found => exact inert_single (by decide) (inert_value found)
      apply Inert.object
      · simp
      · simp [marks]
      · simpa using ⟨Inert.bool fetched.percent, quantity, Inert.bool fetched.withTies⟩

theorem inert_into (table : Option ObjectName) : Inert (into table) := by
  cases table with
  | none => exact .null
  | some found => exact inert_single (by decide) (inert_names found.parts)

theorem inert_tableName (table : Option ObjectName) : Inert (tableName table) := by
  cases table with
  | none => exact .null
  | some found => exact inert_names found.parts

/-- The format of a query is told like a column. -/
theorem tells_format (format : Option Sql.Name) :
    Tells ((format.map fun found => Document.single "Identifier" (name found)).getD .null) [] := by
  cases format with
  | none => exact Inert.null.tells
  | some found => exact tells_column (by decide) (inert_name found) (by simp)

/-! ## Operands -/

theorem tellsFields_operandFields
    {operands : List Document}
    (inner : ∀ operand ∈ operands, Tells operand (Access.tables operand))
    {fields : List String} (ordinary : ∀ field ∈ fields, field ∉ reserved ++ labels) :
    TellsFields (operandFields fields operands) (operands.flatMap Access.tables) := by
  induction operands generalizing fields with
  | nil => cases fields <;> exact .nil
  | cons operand rest ih =>
      have told := inner operand List.mem_cons_self
      have others := fun document listed => inner document (List.mem_cons_of_mem operand listed)
      cases fields with
      | nil =>
          have all : Tells (.array (operand :: rest))
              ((operand :: rest).flatMap Access.tables) :=
            ⟨.array fun document listed => (inner document listed).regular,
              Access.tables_array _,
              (Access.dotted_array _).2 fun document listed => (inner document listed).dotted⟩
          have only : TellsFields [("operands", .array (operand :: rest))]
              ((operand :: rest).flatMap Access.tables ++ []) := .cons (by decide) all .nil
          rwa [List.append_nil] at only
      | cons field fields =>
          exact .cons (ordinary field List.mem_cons_self) told
            (ih others fun other listed => ordinary other (List.mem_cons_of_mem _ listed))

theorem keys_operandFields_sublist (fields : List String) (operands : List Document) :
    ((operandFields fields operands).map Prod.fst).Sublist (fields ++ ["operands"]) := by
  induction fields generalizing operands with
  | nil =>
      cases operands with
      | nil => exact List.nil_sublist _
      | cons operand rest => exact List.Sublist.refl _
  | cons field fields ih =>
      cases operands with
      | nil => exact List.nil_sublist _
      | cons operand rest => exact (ih rest).cons_cons field

theorem tells_special
    (construct : Construct) {operands : List Document} {names : List (List String)}
    (told : Tells (.array operands) names) :
    Tells (node construct.kind (operandFields construct.operandNames operands)) names := by
  have kind : construct.kind ∉ reserved ++ labels := by
    cases construct with
    | convert styled => cases styled <;> decide
    | substring counted started => cases counted <;> cases started <;> decide
    | overlay counted => cases counted <;> decide
    | subscript bounded ended => cases bounded <;> cases ended <;> decide
    | _ => decide
  have ordinary : ∀ field ∈ construct.operandNames, field ∉ reserved ++ labels := by
    cases construct with
    | convert styled => cases styled <;> decide
    | substring counted started => cases counted <;> cases started <;> decide
    | overlay counted => cases counted <;> decide
    | subscript bounded ended => cases bounded <;> cases ended <;> decide
    | _ => decide
  have distinct : (construct.operandNames ++ ["operands"]).Nodup := by
    cases construct with
    | convert styled => cases styled <;> decide
    | substring counted started => cases counted <;> cases started <;> decide
    | overlay counted => cases counted <;> decide
    | subscript bounded ended => cases bounded <;> cases ended <;> decide
    | _ => decide
  have inner : ∀ operand ∈ operands, Tells operand (Access.tables operand) := by
    have dotted := (Access.dotted_array operands).1 told.dotted
    cases told.regular with
    | array inner => exact fun operand listed => ⟨inner operand listed, rfl, dotted operand listed⟩
  have fields := tellsFields_operandFields inner ordinary
  rw [← Access.tables_array, told.tables] at fields
  exact fields.node ((keys_operandFields_sublist _ _).nodup distinct) kind

theorem matchingFactors_of_isSome {agreed : Option Matching} (missing : agreed.isSome = false) :
    matchingFactors agreed = [] := by
  cases agreed with
  | none => rfl
  | some found => cases missing

theorem exprFactors?_of_isSome {found : Option Expr} (missing : found.isSome = false) :
    exprFactors? found = [] := by
  cases found with
  | none => rfl
  | some found => cases missing

/-- How a join is made tells of what its conditions tell, where one that is not stated tells of
nothing. -/
theorem tells_joinOperator
    (operator : JoinOperator) {stated nearby : Bool} {agreed nearest : Document}
    {names others : List (List String)} (told : Tells agreed names) (also : Tells nearest others)
    (unstated : stated = false → names = []) (away : nearby = false → others = []) :
    Tells (joinOperator operator stated nearby agreed nearest) (names ++ others) := by
  have kind : operator.kind ∉ reserved ++ labels := by
    cases operator <;> decide
  rw [joinOperator]
  split
  · have fields : TellsFields [("constraint", agreed), ("match_condition", nearest)] _ :=
      .cons (by decide) told <| .cons (by decide) also .nil
    simpa using fields.node (by simp) kind
  · rename_i far
    rw [away (by simpa using far), List.append_nil]
    split
    · rename_i free
      rw [Bool.and_eq_true, Bool.not_eq_true'] at free
      rw [unstated free.2]
      exact (Inert.string _).tells
    · exact told.single kind

theorem identValue_name (found : Sql.Name) : Access.identValue (name found) = found.value := by
  simp [Access.identValue, name, field?, Fields.get?, Document.text?]

/-- A table is called by the dotted name under "name". -/
theorem tableName?_of_names (document : Document) (table : ObjectName)
    (found : document.field? "name" = some (names table.parts)) :
    Access.tableName? document = some table.written := by
  have values : Access.identValues (names table.parts) = table.written := by
    rw [Access.identValues, names, items?, Option.getD_some, List.map_map, ObjectName.written]
    apply List.map_congr_left
    intro part _
    exact identValue_name part
  have nonempty : table.written.isEmpty = false := by
    simp [ObjectName.written, ObjectName.parts]
  rw [Access.tableName?, found, Option.map_some, values, Option.filter, nonempty]
  rfl

/-! ## What tells of tables -/

mutual

theorem tells_expr : (found : Expr) → Tells (expr found) found.factors
  | .identifier column => by
      rw [expr, Expr.factors]
      exact tells_column (by decide) (inert_name column) (by simp)
  | .compound owner column => by
      rw [expr, Expr.factors]
      apply tells_column (by decide) (inert_names (owner :: column.parts))
      intro _
      simp [Access.identValues, names, items?, ObjectName.parts]
  | .value literal => by
      rw [expr, Expr.factors]
      exact (inert_single (by decide) (inert_value literal)).tells
  | .binary left op right => by
      rw [expr, Expr.factors]
      have fields : TellsFields
          [("left", expr left), ("op", .string op.kind), ("right", expr right)] _ :=
        .cons (by decide) (tells_expr left) <| .inert (by decide) (.string _) <|
          .cons (by decide) (tells_expr right) .nil
      simpa using fields.node (by simp) (by decide)
  | .unary op operand => by
      rw [expr, Expr.factors]
      have fields : TellsFields [("expr", expr operand), ("op", .string op.kind)] _ :=
        .cons (by decide) (tells_expr operand) <| .inert (by decide) (.string _) .nil
      simpa using fields.node (by simp) (by decide)
  | .nested inner => by
      rw [expr, Expr.factors]
      exact (tells_expr inner).single (by decide)
  | .tuple items => by
      rw [expr, Expr.factors]
      exact (tells_exprs items).single (by decide)
  | .isNull subject => by
      rw [expr, Expr.factors]
      exact (tells_expr subject).single (by decide)
  | .isNotNull subject => by
      rw [expr, Expr.factors]
      exact (tells_expr subject).single (by decide)
  | .test truth subject => by
      rw [expr, Expr.factors]
      exact (tells_expr subject).single (by cases truth <;> decide)
  | .comparison distinct left right => by
      rw [expr, Expr.factors]
      have pair := (tells_expr left).array_cons ((tells_expr right).array_cons .array_nil)
      simpa using pair.single (by cases distinct <;> decide)
  | .pattern op negated any subject pattern escape => by
      rw [expr, Expr.factors]
      have fields : TellsFields
          [("any", .bool any), ("escape_char", text? escape), ("expr", expr subject),
            ("negated", .bool negated), ("pattern", expr pattern)] _ :=
        .inert (by decide) (.bool _) <| .inert (by decide) (inert_text? escape) <|
          .cons (by decide) (tells_expr subject) <| .inert (by decide) (.bool _) <|
            .cons (by decide) (tells_expr pattern) .nil
      simpa using fields.node (by simp) (by cases op <;> decide)
  | .inList subject items negated => by
      rw [expr, Expr.factors]
      have fields : TellsFields
          [("expr", expr subject), ("list", .array (exprs items)), ("negated", .bool negated)] _ :=
        .cons (by decide) (tells_expr subject) <| .cons (by decide) (tells_exprs items) <|
          .inert (by decide) (.bool _) .nil
      simpa using fields.node (by simp) (by decide)
  | .inSubquery subject inner negated => by
      rw [expr, Expr.factors]
      have fields : TellsFields
          [("expr", expr subject), ("negated", .bool negated), ("subquery", query inner)] _ :=
        .cons (by decide) (tells_expr subject) <| .inert (by decide) (.bool _) <|
          .cons (by decide) (tells_query inner) .nil
      simpa using fields.node (by simp) (by decide)
  | .between subject low high negated => by
      rw [expr, Expr.factors]
      have fields : TellsFields
          [("expr", expr subject), ("high", expr high), ("low", expr low),
            ("negated", .bool negated)] _ :=
        .cons (by decide) (tells_expr subject) <| .cons (by decide) (tells_expr high) <|
          .cons (by decide) (tells_expr low) <| .inert (by decide) (.bool _) .nil
      simpa using fields.node (by simp) (by decide)
  | .case operand conditions results otherwise => by
      rw [expr, Expr.factors]
      have fields : TellsFields
          [("conditions", .array (exprs conditions)), ("else_result", expr? otherwise),
            ("operand", expr? operand), ("results", .array (exprs results))] _ :=
        .cons (by decide) (tells_exprs conditions) <| .cons (by decide) (tells_expr? otherwise) <|
          .cons (by decide) (tells_expr? operand) <| .cons (by decide) (tells_exprs results) .nil
      simpa using fields.node (by simp) (by decide)
  | .call inner => by
      rw [expr, Expr.factors]
      exact (tells_call inner).single (by decide)
  | .exists inner negated => by
      rw [expr, Expr.factors]
      have fields : TellsFields [("negated", .bool negated), ("subquery", query inner)] _ :=
        .inert (by decide) (.bool _) <| .cons (by decide) (tells_query inner) .nil
      simpa using fields.node (by simp) (by decide)
  | .subquery inner => by
      rw [expr, Expr.factors]
      exact (tells_query inner).single (by decide)
  | .grouping sets items => by
      rw [expr, Expr.factors]
      exact (tells_rows items).single (by cases sets <;> decide)
  | .special construct operands => by
      rw [expr, Expr.factors]
      exact tells_special construct (tells_rows operands)

theorem tells_exprs : (found : List Expr) → Tells (.array (exprs found)) (exprsFactors found)
  | [] => .array_nil
  | first :: rest => by
      rw [exprs, exprsFactors]
      exact (tells_expr first).array_cons (tells_exprs rest)

theorem tells_expr? : (found : Option Expr) → Tells (expr? found) (exprFactors? found)
  | some found => by
      rw [expr?, exprFactors?]
      exact tells_expr found
  | none => Inert.null.tells

theorem tells_rows : (found : List Expr) → Tells (.array (rows found)) (exprsFactors found)
  | [] => .array_nil
  | first :: rest => by
      have here := tells_expr first
      have others := tells_rows rest
      rw [exprsFactors]
      cases first with
      | tuple items =>
          -- A tuple stands here as the list of what it holds.
          rw [expr, Expr.factors] at here
          exact (here.of_single (by decide)).array_cons others
      | _ => exact here.array_cons others

theorem tells_call : (found : Call) → Tells (call found) found.factors
  | ⟨called, parameters, given, withinGroup, filter, treatment, window⟩ => by
      rw [call, Call.factors]
      have fields : TellsFields
          [("args", callArguments given), ("filter", expr? filter),
            ("name", names called.parts), ("null_treatment", nullTreatment treatment),
            ("over", expr? window), ("parameters", callArguments parameters),
            ("uses_odbc_syntax", .bool false),
            ("within_group", .array (orderings withinGroup))] _ :=
        .cons (by decide) (tells_callArguments given) <| .cons (by decide) (tells_expr? filter) <|
          .inert (by decide) (inert_names _) <| .inert (by decide) (inert_nullTreatment _) <|
            .cons (by decide) (tells_expr? window) <|
              .cons (by decide) (tells_callArguments parameters) <|
                .inert (by decide) (.bool _) <|
                  .cons (by decide) (tells_orderings withinGroup) .nil
      simpa using fields.object (by simp)

theorem tells_callArguments :
    (found : Option Arguments) → Tells (callArguments found) (argumentsFactors? found)
  | none => (Inert.string "None").tells
  | some (.query inner) => by
      rw [callArguments, argumentsFactors?]
      exact (tells_query inner).single (by decide)
  | some (.list repeated items orderBy limit bound clauses) => by
      rw [callArguments, argumentsFactors?]
      have order : Tells (.array (if orderBy.isEmpty then []
          else [.single "OrderBy" (.array (orderings orderBy))])) (orderingsFactors orderBy) := by
        have told := tells_orderings orderBy
        cases orderBy with
        | nil => exact .array_nil
        | cons first rest =>
            have only : Tells (.single "OrderBy" (.array (orderings (first :: rest)))) _ :=
              told.single (by decide)
            simpa using only.array_cons .array_nil
      have others : Tells (.array (clauses.map Document.string)) [] :=
        (inert_array_map clauses .string).tells
      have limited : Tells (.single "Limit" (expr? limit)) _ :=
        (tells_expr? limit).single (by decide)
      have having' : Tells (.single "Having" (expr? bound)) _ :=
        (tells_expr? bound).single (by decide)
      have bounds := limited.array_cons (having'.array_cons .array_nil)
      have fields : TellsFields
          [("args", .array (arguments items)),
            ("clauses", .array ((if orderBy.isEmpty then []
                else [.single "OrderBy" (.array (orderings orderBy))]) ++
              [.single "Limit" (expr? limit), .single "Having" (expr? bound)] ++
                clauses.map Document.string)),
            ("duplicate_treatment", duplicates repeated)] _ :=
        .cons (by decide) (tells_arguments items) <|
          .cons (by decide) ((order.array_append bounds).array_append others) <|
            .inert (by decide) (inert_duplicates repeated) .nil
      simpa using fields.node (by simp) (by decide)

theorem tells_argument : (found : Argument) → Tells (argument found) found.factors
  | .expr found => by
      rw [argument, Argument.factors]
      exact ((tells_expr found).single (by decide)).single (by decide)
  | .wildcard => (inert_single (by decide) (.string _)).tells
  | .qualifiedWildcard path =>
      (inert_single (by decide) (inert_single (by decide) (inert_names path))).tells
  | .named label inner => by
      rw [argument, Argument.factors]
      have fields : TellsFields [("arg", argument inner), ("name", name label)] _ :=
        .cons (by decide) (tells_argument inner) <| .inert (by decide) (inert_name label) .nil
      simpa using fields.node (by simp) (by decide)

theorem tells_arguments :
    (found : List Argument) → Tells (.array (arguments found)) (argumentListFactors found)
  | [] => .array_nil
  | first :: rest => by
      rw [arguments, argumentListFactors]
      exact (tells_argument first).array_cons (tells_arguments rest)

theorem tells_ordering : (found : Ordering) → Tells (ordering found) found.factors
  | ⟨key, ascending, nullsFirst⟩ => by
      rw [ordering, Ordering.factors]
      have fields : TellsFields
          [("asc", bool? ascending), ("expr", expr key), ("nulls_first", bool? nullsFirst),
            ("with_fill", .null)] _ :=
        .inert (by decide) (inert_bool? ascending) <| .cons (by decide) (tells_expr key) <|
          .inert (by decide) (inert_bool? nullsFirst) <| .inert (by decide) .null .nil
      simpa using fields.object (by simp)

theorem tells_orderings :
    (found : List Ordering) → Tells (.array (orderings found)) (orderingsFactors found)
  | [] => .array_nil
  | first :: rest => by
      rw [orderings, orderingsFactors]
      exact (tells_ordering first).array_cons (tells_orderings rest)

theorem tells_query : (found : Query) → Tells (query found) found.factors
  | ⟨recursive, named, source, orderBy, limit, limitBy, offset, fetched, locks, format⟩ => by
      rw [query, Query.factors]
      have order : Tells (if orderBy.isEmpty then .null
          else .object [("exprs", .array (orderings orderBy)), ("interpolate", .null)])
          (orderingsFactors orderBy) := by
        have told := tells_orderings orderBy
        cases orderBy with
        | nil => exact Inert.null.tells
        | cons first rest =>
            have fields : TellsFields
                [("exprs", .array (orderings (first :: rest))), ("interpolate", .null)] _ :=
              .cons (by decide) told <| .inert (by decide) .null .nil
            simpa using fields.object (by simp)
      have withClause : Tells (if named.isEmpty then .null
          else .object [("cte_tables", .array (ctes named)), ("recursive", .bool recursive)])
          (ctesFactors named) := by
        have told := tells_ctes named
        cases named with
        | nil => exact Inert.null.tells
        | cons first rest =>
            have fields : TellsFields
                [("cte_tables", .array (ctes (first :: rest))), ("recursive", .bool recursive)] _ :=
              .cons (by decide) told <| .inert (by decide) (.bool _) .nil
            simpa using fields.object (by simp)
      have fields : TellsFields
          [("body", body source), ("fetch", fetch fetched), ("for_clause", .null),
            ("format_clause", (format.map fun found =>
                Document.single "Identifier" (name found)).getD .null),
            ("limit", expr? limit), ("limit_by", .array (exprs limitBy)),
            ("locks", .array (locks.map Document.string)), ("offset", offsetClause offset),
            ("order_by",
              if orderBy.isEmpty then .null
              else .object [("exprs", .array (orderings orderBy)), ("interpolate", .null)]),
            ("settings", .null),
            ("with",
              if named.isEmpty then .null
              else .object [("cte_tables", .array (ctes named)), ("recursive", .bool recursive)])]
          _ :=
        .cons (by decide) (tells_body source) <| .inert (by decide) (inert_fetch fetched) <|
          .inert (by decide) .null <| .cons (by decide) (tells_format format) <|
            .cons (by decide) (tells_expr? limit) <| .cons (by decide) (tells_exprs limitBy) <|
              .inert (by decide) (inert_array_map locks .string) <|
                .cons (by decide) (tells_offsetClause offset) <| .cons (by decide) order <|
                  .inert (by decide) .null <| .cons (by decide) withClause .nil
      simpa using fields.object (by simp)

theorem tells_offsetClause :
    (found : Option Expr) → Tells (offsetClause found) (exprFactors? found)
  | some count => by
      rw [offsetClause, exprFactors?]
      have fields : TellsFields [("rows", .string "None"), ("value", expr count)] _ :=
        .inert (by decide) (.string _) <| .cons (by decide) (tells_expr count) .nil
      simpa using fields.object (by simp)
  | none => Inert.null.tells

theorem tells_cte : (found : Cte) → Tells (cte found) found.factors
  | ⟨label, inner, source⟩ => by
      rw [cte, Cte.factors]
      have origin : Inert ((source.map name).getD .null) := by
        cases source with
        | none => exact .null
        | some found => exact inert_name found
      have fields : TellsFields
          [("alias", tableAlias (some label)), ("from", (source.map name).getD .null),
            ("materialized", .null), ("query", query inner)] _ :=
        .inert (by decide) (inert_tableAlias _) <| .inert (by decide) origin <|
          .inert (by decide) .null <| .cons (by decide) (tells_query inner) .nil
      simpa using fields.object (by simp)

theorem tells_ctes : (found : List Cte) → Tells (.array (ctes found)) (ctesFactors found)
  | [] => .array_nil
  | first :: rest => by
      rw [ctes, ctesFactors]
      exact (tells_cte first).array_cons (tells_ctes rest)

theorem tells_body : (found : Body) → Tells (body found) found.factors
  | .select inner => by
      rw [body, Body.factors]
      exact (tells_select inner).single (by decide)
  | .query inner => by
      rw [body, Body.factors]
      exact (tells_query inner).single (by decide)
  | .combined left op quantifier right => by
      rw [body, Body.factors]
      have fields : TellsFields
          [("left", body left), ("op", .string op.kind), ("right", body right),
            ("set_quantifier", .string quantifier)] _ :=
        .cons (by decide) (tells_body left) <| .inert (by decide) (.string _) <|
          .cons (by decide) (tells_body right) <| .inert (by decide) (.string _) .nil
      simpa using fields.node (by simp) (by decide)
  | .values items => by
      rw [body, Body.factors]
      have fields : TellsFields
          [("explicit_row", .bool false), ("rows", .array (rows items))] _ :=
        .inert (by decide) (.bool _) <| .cons (by decide) (tells_rows items) .nil
      simpa using fields.node (by simp) (by decide)
  | .table table => by
      rw [body, Body.factors]
      have fields : TellsFields
          [("schema_name", text? ((table.scope.map Sql.Name.value).getLast?)),
            ("table_name", .string table.last.value)] _ :=
        .inert (by decide) (inert_text? _) <| .inert (by decide) (.string _) .nil
      exact (fields.object (by simp)).table
  | .change found target tables operands returned => by
      rw [body, Body.factors]
      have fields : TellsFields
          [("from", .array (sources tables)), ("operands", .array (rows operands)),
            ("returning", .array (items returned)), ("table_name", tableName target)] _ :=
        .cons (by decide) (tells_sources tables) <| .cons (by decide) (tells_rows operands) <|
          .cons (by decide) (tells_items returned) <|
            .inert (by decide) (inert_tableName target) .nil
      simpa using fields.node (by simp) (by cases found <;> decide)

theorem tells_distinct : (found : Distinct) → Tells (distinct found) found.factors
  | .all => Inert.null.tells
  | .distinct => (Inert.string _).tells
  | .on keys => by
      rw [distinct, Distinct.factors]
      exact (tells_exprs keys).single (by decide)

theorem tells_select : (found : Select) → Tells (select found) found.factors
  | ⟨kept, top, _, projection, target, tables, prewhere, filter, groups, groupModifiers,
      clusterBy, distributeBy, sortBy, having', windows, qualify⟩ => by
      rw [select, Select.factors]
      have fields : TellsFields
          [("cluster_by", .array (exprs clusterBy)), ("connect_by", .null),
            ("distinct", distinct kept), ("distribute_by", .array (exprs distributeBy)),
            ("from", .array (sources tables)), ("group_by", groupBy groupModifiers groups),
            ("having", expr? having'), ("into", into target), ("lateral_views", .array []),
            ("named_window", .array (exprs windows)), ("prewhere", expr? prewhere),
            ("projection", .array (items projection)), ("qualify", expr? qualify),
            ("selection", expr? filter), ("sort_by", .array (exprs sortBy)), ("top", expr? top),
            ("value_table_mode", .null)] _ :=
        .cons (by decide) (tells_exprs clusterBy) <| .inert (by decide) .null <|
          .cons (by decide) (tells_distinct kept) <| .cons (by decide) (tells_exprs distributeBy) <|
            .cons (by decide) (tells_sources tables) <|
              .cons (by decide) (tells_groupBy groupModifiers groups) <|
                .cons (by decide) (tells_expr? having') <|
                  .inert (by decide) (inert_into target) <|
                    .inert (by decide) (.array (by simp)) <|
                      .cons (by decide) (tells_exprs windows) <|
                        .cons (by decide) (tells_expr? prewhere) <|
                          .cons (by decide) (tells_items projection) <|
                            .cons (by decide) (tells_expr? qualify) <|
                              .cons (by decide) (tells_expr? filter) <|
                                .cons (by decide) (tells_exprs sortBy) <|
                                  .cons (by decide) (tells_expr? top) <|
                                    .inert (by decide) .null .nil
      simpa using fields.object (by simp)

theorem tells_groupBy (modifiers : List String) :
    (found : Option (List Expr)) → Tells (groupBy modifiers found) (groupsFactors found)
  | some keys => by
      rw [groupBy, groupsFactors]
      have others : Tells (.array (modifiers.map Document.string)) [] :=
        (inert_array_map modifiers .string).tells
      have both := (tells_exprs keys).array_cons (others.array_cons .array_nil)
      simpa using both.single (by decide)
  | none =>
      (inert_single (by decide) (inert_array_map modifiers .string)).tells

theorem tells_item : (found : SelectItem) → Tells (item found) found.factors
  | .unnamed found => by
      rw [item, SelectItem.factors]
      exact (tells_expr found).single (by decide)
  | .aliased found label => by
      rw [item, SelectItem.factors]
      have told := tells_expr found
      constructor
      · exact .aliased (inert_name label) told.regular
      · simp [node, Document.single, Access.tablesInField, told.tables,
          Access.tables_of_inert (inert_name label)]
      · simp [node, Document.single, Access.dotted_object, told.dotted,
          Access.dotted_of_inert (inert_name label)]
  | .wildcard options => (inert_single (by decide) (inert_wildcardOptions options)).tells
  | .qualifiedWildcard path options => by
      have both : Inert (.array [names path, wildcardOptions options]) :=
        .array (by simpa using ⟨inert_names path, inert_wildcardOptions options⟩)
      exact (inert_single (by decide) both).tells

theorem tells_items : (found : List SelectItem) → Tells (.array (items found)) (itemsFactors found)
  | [] => .array_nil
  | first :: rest => by
      rw [items, itemsFactors]
      exact (tells_item first).array_cons (tells_items rest)

theorem tells_source : (found : TableWithJoins) → Tells (source found) found.factors
  | ⟨relation, joined⟩ => by
      rw [source, TableWithJoins.factors]
      have fields : TellsFields
          [("joins", .array (joins joined)), ("relation", factor relation)] _ :=
        .cons (by decide) (tells_joins joined) <| .cons (by decide) (tells_factor relation) .nil
      simpa using fields.object (by simp)

theorem tells_sources :
    (found : List TableWithJoins) → Tells (.array (sources found)) (sourcesFactors found)
  | [] => .array_nil
  | first :: rest => by
      rw [sources, sourcesFactors]
      exact (tells_source first).array_cons (tells_sources rest)

theorem tells_factor : (found : TableFactor) → Tells (factor found) found.factors
  | .table table label given hints partitions => by
      rw [factor, TableFactor.factors]
      have fields : TellsFields
          [("alias", tableAlias label), ("args", tableArguments given), ("json_path", .null),
            ("name", names table.parts), ("partitions", names partitions), ("version", .null),
            ("with_hints", .array (exprs hints)), ("with_ordinality", .bool false)] _ :=
        .inert (by decide) (inert_tableAlias label) <|
          .cons (by decide) (tells_tableArguments given) <| .inert (by decide) .null <|
            .inert (by decide) (inert_names table.parts) <|
              .inert (by decide) (inert_names partitions) <| .inert (by decide) .null <|
                .cons (by decide) (tells_exprs hints) <| .inert (by decide) (.bool _) .nil
      have told := (fields.object (by simp)).table
      rw [tableName?_of_names _ table (by simp [field?, Fields.get?])] at told
      simpa [node] using told
  | .derived lateral inner label => by
      rw [factor, TableFactor.factors]
      have fields : TellsFields
          [("alias", tableAlias label), ("lateral", .bool lateral), ("subquery", query inner)] _ :=
        .inert (by decide) (inert_tableAlias label) <| .inert (by decide) (.bool _) <|
          .cons (by decide) (tells_query inner) .nil
      simpa using fields.node (by simp) (by decide)
  | .nestedJoin inner label => by
      rw [factor, TableFactor.factors]
      have fields : TellsFields
          [("alias", tableAlias label), ("table_with_joins", source inner)] _ :=
        .inert (by decide) (inert_tableAlias label) <| .cons (by decide) (tells_source inner) .nil
      simpa using fields.node (by simp) (by decide)
  | .function called given label => by
      rw [factor, TableFactor.factors]
      have fields : TellsFields
          [("alias", tableAlias label), ("args", .array (arguments given)),
            ("lateral", .bool true), ("name", names called.parts)] _ :=
        .inert (by decide) (inert_tableAlias label) <|
          .cons (by decide) (tells_arguments given) <| .inert (by decide) (.bool _) <|
            .inert (by decide) (inert_names called.parts) .nil
      simpa using fields.node (by simp) (by decide)
  | .unnest arrays label => by
      rw [factor, TableFactor.factors]
      have fields : TellsFields
          [("alias", tableAlias label), ("array_exprs", .array (exprs arrays))] _ :=
        .inert (by decide) (inert_tableAlias label) <| .cons (by decide) (tells_exprs arrays) .nil
      simpa using fields.node (by simp) (by decide)
  | .tableFunction inner label => by
      rw [factor, TableFactor.factors]
      have fields : TellsFields [("alias", tableAlias label), ("expr", expr inner)] _ :=
        .inert (by decide) (inert_tableAlias label) <| .cons (by decide) (tells_expr inner) .nil
      simpa using fields.node (by simp) (by decide)

theorem tells_tableArguments :
    (found : Option (List Argument)) → Tells (tableArguments found) (tableArgumentsFactors found)
  | some given => by
      rw [tableArguments, tableArgumentsFactors]
      have fields : TellsFields [("args", .array (arguments given)), ("settings", .null)] _ :=
        .cons (by decide) (tells_arguments given) <| .inert (by decide) .null .nil
      simpa using fields.object (by simp)
  | none => Inert.null.tells

theorem tells_join : (found : Join) → Tells (join found) found.factors
  | ⟨operator, relation, agreed, nearest⟩ => by
      rw [join, Join.factors]
      have made : Tells
          (joinOperator operator agreed.isSome nearest.isSome (matching agreed) (expr? nearest))
          (matchingFactors agreed ++ exprFactors? nearest) :=
        tells_joinOperator operator (tells_matching agreed) (tells_expr? nearest)
          matchingFactors_of_isSome exprFactors?_of_isSome
      have fields : TellsFields
          [("global", .bool false),
            ("join_operator",
              joinOperator operator agreed.isSome nearest.isSome (matching agreed)
                (expr? nearest)),
            ("relation", factor relation)] _ :=
        .inert (by decide) (.bool _) <| .cons (by decide) made <|
          .cons (by decide) (tells_factor relation) .nil
      simpa using fields.object (by simp)

theorem tells_matching :
    (found : Option Matching) → Tells (matching found) (matchingFactors found)
  | some (.on condition) => by
      rw [matching, matchingFactors]
      exact (tells_expr condition).single (by decide)
  | some (.using columns) => (inert_single (by decide) (inert_names columns)).tells
  | some .natural => (Inert.string _).tells
  | none => (Inert.string _).tells

theorem tells_joins : (found : List Join) → Tells (.array (joins found)) (joinsFactors found)
  | [] => .array_nil
  | first :: rest => by
      rw [joins, joinsFactors]
      exact (tells_join first).array_cons (tells_joins rest)

end

end Grammar.View
end SemanticLayer
