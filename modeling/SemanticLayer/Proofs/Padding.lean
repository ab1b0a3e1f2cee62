import SemanticLayer.Proofs.Regularity

/-!
# Padding tables

The pass that pads the names of all tables changes a document at positions that were listed before.
On a regular document it comes to one walk over the document, `padAll`, which pads every name and
changes nothing else.
-/

namespace SemanticLayer
namespace Document

/-! ## Changes at many positions -/

/-- The document with the documents at several pointers changed, one after the other. -/
def changeAll (change : Document → Document) (pointers : List Pointer) (document : Document) :
    Document :=
  pointers.foldl (fun found pointer => changeAt change pointer found) document

@[simp]
theorem changeAll_nil (change : Document → Document) (document : Document) :
    changeAll change [] document = document := rfl

theorem changeAll_cons
    (change : Document → Document) (pointer : Pointer) (rest : List Pointer)
    (document : Document) :
    changeAll change (pointer :: rest) document =
      changeAll change rest (changeAt change pointer document) := rfl

theorem changeAll_append
    (change : Document → Document) (front rest : List Pointer) (document : Document) :
    changeAll change (front ++ rest) document =
      changeAll change rest (changeAll change front document) :=
  List.foldl_append

/-- Changes below one field are changes of its value. -/
theorem changeAll_field
    (change : Document → Document) (step : String) (pointers : List Pointer) (fields : Fields) :
    changeAll change (pointers.map (step :: ·)) (.object fields) =
      .object (changeField step (changeAll change pointers) fields) := by
  induction pointers generalizing fields with
  | nil =>
      have unchanged : changeAll change [] = fun value => value := rfl
      rw [unchanged, changeField_id]
      rfl
  | cons pointer rest ih =>
      rw [List.map_cons, changeAll_cons, changeAt, ih, changeField_changeField]
      rfl

theorem modify_length_append_cons
    (change : Document → Document) (front items : List Document) (item : Document) :
    (front ++ item :: items).modify front.length change = front ++ change item :: items := by
  induction front with
  | nil => rfl
  | cons first front ih => simpa using ih

/-- Changes below one item are changes of the item. -/
theorem changeAll_item
    (change : Document → Document) (front items : List Document) (item : Document)
    (pointers : List Pointer) :
    changeAll change (pointers.map (String.ofList (Number.natText front.length) :: ·))
        (.array (front ++ item :: items)) =
      .array (front ++ changeAll change pointers item :: items) := by
  induction pointers generalizing item with
  | nil => rfl
  | cons pointer rest ih =>
      rw [List.map_cons, changeAll_cons, changeAt, Pointer.index?_natText]
      simp only [modify_length_append_cons]
      exact ih (changeAt change pointer item)

theorem changeField_append_of_distinct
    {front rest : Fields} {field : String × Document}
    (distinct : ((front ++ field :: rest).map Prod.fst).Nodup) (change : Document → Document) :
    changeField field.1 change (front ++ field :: rest) =
      front ++ (field.1, change field.2) :: rest := by
  have unlike : ∀ other : String × Document, other ∈ front ∨ other ∈ rest →
      other.1 ≠ field.1 := by
    rw [List.map_append, List.map_cons, List.nodup_append, List.nodup_cons] at distinct
    intro other place same
    rcases place with before | behind
    · exact distinct.2.2 other.1 (List.mem_map_of_mem before) field.1 List.mem_cons_self same
    · exact distinct.2.1.1 (same ▸ List.mem_map_of_mem behind)
  have before := changeField_eq_self (fun other here => unlike other (Or.inl here)) change
  have behind := changeField_eq_self (fun other here => unlike other (Or.inr here)) change
  simp only [changeField] at before behind ⊢
  rw [List.map_append, List.map_cons, before, behind]
  simp

/-- No mark is found in an inert document. -/
theorem find_of_inert {document : Document} (inert : Inert document) {key : String}
    (mark : key ∈ marks) (stop : Option String) : find key stop document = [] := by
  apply List.eq_nil_iff_forall_not_mem.2
  intro pointer listed
  obtain ⟨front, ends⟩ := exists_front_of_mem_find key stop document listed
  obtain ⟨found, leads⟩ := exists_at?_of_mem_find inert.regular.keyed listed
  rw [ends, at?_append] at leads
  obtain ⟨parent, here, below⟩ := Option.bind_eq_some_iff.1 leads
  have marked : Marked parent := by
    rw [at?_cons] at below
    obtain ⟨child, field, _⟩ := Option.bind_eq_some_iff.1 below
    cases parent with
    | object fields => exact ⟨mark, Fields.mem_of_get?_eq_some field⟩
    | array items =>
        rw [child?_array_of_mark mark] at field
        cases field
    | null => cases field
    | bool value => cases field
    | number mantissa places => cases field
    | string value => cases field
  exact inert.at?_ne_marked marked here

/-- A mark is never found below a name. -/
theorem exists_step_of_mem_find {document : Document} (regular : Regular document) {key : String}
    (mark : key ∈ marks) {pointer : Pointer} (listed : pointer ∈ find key none document) :
    ∃ step rest, pointer = step :: rest ∧ step ≠ "name" := by
  obtain ⟨front, ends⟩ := exists_front_of_mem_find key none document listed
  have nonempty : pointer ≠ [] := by simp [ends]
  obtain ⟨step, rest, shape⟩ := List.exists_cons_of_ne_nil nonempty
  refine ⟨step, rest, shape, ?_⟩
  rintro rfl
  obtain ⟨found, leads⟩ := exists_at?_of_mem_find regular.keyed listed
  rw [shape, at?_cons] at leads
  obtain ⟨child, here, _⟩ := Option.bind_eq_some_iff.1 leads
  cases document with
  | object fields =>
      have plain : Plain fields := regular.plain here (by decide)
      rw [find_object, shape] at listed
      obtain ⟨field, place, inField⟩ := List.mem_flatMap.1 listed
      rw [findInField, List.mem_append] at inField
      rcases inField with first | below
      · split at first
        · rename_i same
          simp only [List.mem_singleton, List.cons.injEq] at first
          rw [← same, ← first.1] at mark
          exact absurd mark (by decide)
        · cases first
      · rw [if_neg (by simp)] at below
        obtain ⟨tail, later, same⟩ := List.mem_map.1 below
        have label : field.1 = "name" := (List.cons.inj same).1
        have inert := plain.named field place (label ▸ by decide)
        rw [find_of_inert inert mark] at later
        cases later
  | array items =>
      have noIndex : Pointer.index? "name" = none := by decide
      rw [child?, noIndex] at here
      cases here
  | null => cases here
  | bool value => cases here
  | number mantissa places => cases here
  | string value => cases here

end Document

/-! ## The pass as one walk -/

namespace Access

open Document

/-- The name of a table with the parts that are missing put in front. -/
def paddedName (start name : List String) : List String :=
  start.take (tableParts - name.length) ++ name

mutual

/-- The document with the names of all tables padded. -/
def padAll (start : List String) : Document → Document
  | .object fields => .object (padFields start fields)
  | .array items => .array (padItems start items)
  | document => document

/-- Fields with the names of all tables padded. -/
def padFields (start : List String) : List (String × Document) → List (String × Document)
  | [] => []
  | (name, value) :: rest =>
    (name, if name = "Table" then padTable start (padAll start value) else padAll start value) ::
      padFields start rest

/-- Items with the names of all tables padded. -/
def padItems (start : List String) : List Document → List Document
  | [] => []
  | item :: rest => padAll start item :: padItems start rest

end

/-- A field with the names of all tables padded. -/
def padField (start : List String) (field : String × Document) : String × Document :=
  (field.1,
    if field.1 = "Table" then padTable start (padAll start field.2) else padAll start field.2)

theorem padAll_object (start : List String) (fields : Fields) :
    padAll start (.object fields) = .object (fields.map (padField start)) := by
  rw [padAll]
  congr 1
  induction fields with
  | nil => rfl
  | cons field rest ih => rw [padFields, ih, List.map_cons, padField]

theorem padAll_array (start : List String) (items : List Document) :
    padAll start (.array items) = .array (items.map (padAll start)) := by
  rw [padAll]
  congr 1
  induction items with
  | nil => rfl
  | cons item rest ih => rw [padItems, ih, List.map_cons]

theorem padAll_of_inert {document : Document} (inert : Inert document) (start : List String) :
    padAll start document = document := by
  induction inert with
  | null => rfl
  | bool value => rfl
  | number mantissa places => rfl
  | string value => rfl
  | array _ ih =>
      rw [padAll_array, List.map_congr_left ih]
      exact congrArg Document.array (List.map_id _)
  | @object fields _ unmarked _ ih =>
      have same : ∀ field ∈ fields, padField start field = id field := by
        intro field here
        have plain : field.1 ≠ "Table" := by
          intro table
          exact unmarked field here (table ▸ by decide)
        rw [padField, if_neg plain, ih field here, id]
      rw [padAll_object, List.map_congr_left same, List.map_id]

/-- Padding a name and a change below another field may change places. -/
theorem padTable_changeAt
    (start : List String) (change : Document → Document) {step : String} (rest : Pointer)
    (unnamed : step ≠ "name") (table : Document) :
    changeAt change (step :: rest) (padTable start table) =
      padTable start (changeAt change (step :: rest) table) := by
  cases table with
  | object fields =>
      have name : Fields.get? (changeField step (changeAt change rest) fields) "name" =
          Fields.get? fields "name" := by
        rw [Fields.get?_changeField, if_neg (Ne.symm unnamed)]
      rw [padTable, changeAt, padTable, name]
      split
      · simp only [changeAt]
        rw [changeField_comm unnamed]
      · rw [changeAt]
  | array items =>
      simp only [changeAt, padTable]
      split <;> rfl
  | null => rfl
  | bool value => rfl
  | number mantissa places => rfl
  | string value => rfl

theorem padTable_changeAll
    (start : List String) (change : Document → Document) {pointers : List Pointer}
    (unnamed : ∀ pointer ∈ pointers, ∃ step rest, pointer = step :: rest ∧ step ≠ "name")
    (table : Document) :
    changeAll change pointers (padTable start table) =
      padTable start (changeAll change pointers table) := by
  induction pointers generalizing table with
  | nil => rfl
  | cons pointer pointers ih =>
      obtain ⟨step, rest, rfl, other⟩ := unnamed pointer List.mem_cons_self
      rw [changeAll_cons, padTable_changeAt start change rest other, changeAll_cons]
      exact ih (fun pointer later => unnamed pointer (List.mem_cons_of_mem _ later)) _

theorem changeAll_findInField
    {start : List String} {field : String × Document} (regular : Regular field.2)
    (inner : changeAll (padTable start) (find "Table" none field.2) field.2 =
      padAll start field.2)
    {front rest : Fields} (distinct : ((front ++ field :: rest).map Prod.fst).Nodup) :
    changeAll (padTable start) (findInField "Table" none field)
        (.object (front ++ field :: rest)) =
      .object (front ++ padField start field :: rest) := by
  have shape : findInField "Table" none field =
      ((if field.1 = "Table" then [[]] else []) ++ find "Table" none field.2).map
        (field.1 :: ·) := by
    simp only [findInField, List.map_append, reduceCtorEq, if_false]
    split
    · rfl
    · rfl
  rw [shape, changeAll_field, changeField_append_of_distinct distinct, padField, changeAll_append]
  congr
  split
  · have unnamed := fun pointer (listed : pointer ∈ find "Table" none field.2) =>
      exists_step_of_mem_find regular (by decide) listed
    rw [changeAll_cons, changeAll_nil, changeAt, padTable_changeAll start _ unnamed, inner]
  · exact inner

theorem changeAll_findInFields
    {start : List String} {fields : Fields} (regular : ∀ field ∈ fields, Regular field.2)
    (inner : ∀ field ∈ fields, changeAll (padTable start) (find "Table" none field.2) field.2 =
      padAll start field.2)
    (front : Fields) (distinct : ((front ++ fields).map Prod.fst).Nodup) :
    changeAll (padTable start) (fields.flatMap (findInField "Table" none))
        (.object (front ++ fields)) =
      .object (front ++ fields.map (padField start)) := by
  induction fields generalizing front with
  | nil => rfl
  | cons field rest ih =>
      rw [List.flatMap_cons, changeAll_append,
        changeAll_findInField (regular field List.mem_cons_self) (inner field List.mem_cons_self)
          distinct]
      have later := ih (fun other listed => regular other (List.mem_cons_of_mem _ listed))
        (fun other listed => inner other (List.mem_cons_of_mem _ listed))
        (front ++ [padField start field]) (by simpa [padField] using distinct)
      simpa using later

theorem changeAll_findInItems
    {start : List String} {items : List Document}
    (inner : ∀ item ∈ items, changeAll (padTable start) (find "Table" none item) item =
      padAll start item)
    (front : List Document) :
    changeAll (padTable start) (findInItems "Table" none front.length items)
        (.array (front ++ items)) =
      .array (front ++ items.map (padAll start)) := by
  induction items generalizing front with
  | nil => rfl
  | cons item rest ih =>
      rw [findInItems, changeAll_append, changeAll_item, inner item List.mem_cons_self]
      have later := ih (fun other listed => inner other (List.mem_cons_of_mem _ listed))
        (front ++ [padAll start item])
      simpa using later

/-- The pass over the positions of all tables pads every name and changes nothing else. -/
theorem padTables_eq_padAll
    {document : Document} (regular : Regular document) (start : List String) :
    padTables start document = padAll start document := by
  change changeAll (padTable start) (find "Table" none document) document = padAll start document
  induction regular with
  | null => rfl
  | bool value => rfl
  | number mantissa places => rfl
  | string value => rfl
  | array _ ih =>
      rw [padAll_array]
      exact changeAll_findInItems ih []
  | @column key value mark inert =>
      have inner : changeAll (padTable start) (find "Table" none value) value =
          padAll start value := by
        rw [find_of_inert inert (by decide), padAll_of_inert inert, changeAll_nil]
      rw [find_object, padAll_object]
      exact changeAll_findInFields (by simpa using inert.regular) (by simpa using inner) []
        (by simp)
  | @aliased label expr inert regularExpr ih =>
      have label' : changeAll (padTable start) (find "Table" none label) label =
          padAll start label := by
        rw [find_of_inert inert (by decide), padAll_of_inert inert, changeAll_nil]
      have inner : changeAll (padTable start)
          (find "Table" none (.object [("alias", label), ("expr", expr)]))
          (.object [("alias", label), ("expr", expr)]) =
            padAll start (.object [("alias", label), ("expr", expr)]) := by
        rw [find_object, padAll_object]
        exact changeAll_findInFields (by simpa using ⟨inert.regular, regularExpr⟩)
          (by simpa using ⟨label', ih⟩) [] (by simp)
      rw [find_object, padAll_object]
      exact changeAll_findInFields (by simpa using Regular.beside inert regularExpr)
        (by simpa using inner) [] (by simp)
  | object distinct _ _ inner ih =>
      rw [find_object, padAll_object]
      exact changeAll_findInFields inner ih [] distinct

/-! ## What padding keeps -/

theorem inert_array_append {front items : List Document}
    (first : ∀ item ∈ front, Inert item) (second : ∀ item ∈ items, Inert item) :
    Inert (.array (front ++ items)) := by
  apply Inert.array
  intro item listed
  rcases List.mem_append.1 listed with before | behind
  · exact first item before
  · exact second item behind

theorem inert_makeIdent (value : String) : Inert (makeIdent value) := by
  apply Inert.object
  · simp
  · simp [marks]
  · simpa using ⟨Inert.null, Inert.string value⟩

/-- A padded name is as inert as the name. -/
theorem inert_pad {parts : List Document} (inert : Inert (.array parts)) (start : List String)
    (missing : Nat) : Inert (.array ((start.take missing).map makeIdent ++ parts)) := by
  cases inert with
  | array inner =>
      apply inert_array_append _ inner
      intro part listed
      obtain ⟨value, _, rfl⟩ := List.mem_map.1 listed
      exact inert_makeIdent value

theorem identValue_makeIdent (value : String) : identValue (makeIdent value) = value := by
  simp [identValue, makeIdent, field?, Fields.get?, text?]

theorem tablesInField_of_inert {field : String × Document} (inert : Inert field.2)
    (plain : field.1 ≠ "Table") : tablesInField field = [] := by
  rw [tablesInField, if_neg plain, tables_of_inert inert, List.nil_append]

/-- Padding a name keeps a table regular and what it tells of beside its name. -/
theorem padTable_kept
    {table : Document} (regular : Regular table) (start : List String) :
    Regular (padTable start table) ∧ tables (padTable start table) = tables table := by
  cases table with
  | object fields =>
      rw [padTable]
      split
      · rename_i parts found
        have plain : Plain fields := regular.plain found (by decide)
        have inertName : Inert (.array parts) :=
          plain.named _ (Fields.mem_of_get?_eq_some found) (by simp [labels])
        have inertNew := inert_pad inertName start
          (if parts.isEmpty then 0 else tableParts - parts.length)
        constructor
        · exact (plain.changeField found inertNew.regular fun _ => inertNew).regular
        · apply tables_changeField plain.distinct found
          rw [tablesInField_of_inert inertNew (by simp), tablesInField_of_inert inertName (by simp)]
      · exact ⟨regular, rfl⟩
  | array items => exact ⟨regular, rfl⟩
  | null => exact ⟨regular, rfl⟩
  | bool value => exact ⟨regular, rfl⟩
  | number mantissa places => exact ⟨regular, rfl⟩
  | string value => exact ⟨regular, rfl⟩

theorem identValues_pad (start : List String) (parts : List Document) :
    identValues (.array
        ((start.take (if parts.isEmpty then 0 else tableParts - parts.length)).map makeIdent ++
          parts)) =
      if parts.isEmpty then [] else paddedName start (identValues (.array parts)) := by
  cases parts with
  | nil => rfl
  | cons part rest =>
      simp [identValues, items?, paddedName, Function.comp_def, identValue_makeIdent]

/-- A padded table is called by the padded name. -/
theorem tableName?_padTable (start : List String) (table : Document) :
    tableName? (padTable start table) = (tableName? table).map (paddedName start) := by
  cases table with
  | object fields =>
      rw [padTable]
      split
      · rename_i parts found
        have padded : Fields.get? (changeField "name" (fun _ => .array
            ((start.take (if parts.isEmpty then 0 else tableParts - parts.length)).map makeIdent ++
              parts)) fields) "name" = some (.array
            ((start.take (if parts.isEmpty then 0 else tableParts - parts.length)).map makeIdent ++
              parts)) := by
          rw [Fields.get?_changeField, if_pos rfl, found, Option.map_some]
        simp only [tableName?, field?, padded, found, Option.map_some, identValues_pad]
        cases parts with
        | nil => rfl
        | cons part rest => simp [identValues, items?, paddedName, Option.filter]
      · rename_i other
        have unnamed : tableName? (.object fields) = none := by
          rw [tableName?, field?]
          cases found : Fields.get? fields "name" with
          | none => rfl
          | some value =>
              cases value with
              | array parts => exact absurd found (other parts)
              | null => rfl
              | bool value => rfl
              | number mantissa places => rfl
              | string value => rfl
              | object fields => rfl
        rw [unnamed, Option.map_none]
  | array items => rfl
  | null => rfl
  | bool value => rfl
  | number mantissa places => rfl
  | string value => rfl

theorem get?_map_padField (start : List String) (fields : Fields) {key : String}
    (plain : key ≠ "Table") :
    Fields.get? (fields.map (padField start)) key =
      (Fields.get? fields key).map (padAll start) := by
  induction fields with
  | nil => rfl
  | cons field rest ih =>
      rw [List.map_cons, Fields.get?_cons, Fields.get?_cons, ih, padField]
      by_cases here : field.1 = key
      · simp [here, plain]
      · simp [here]

/-- Padding what lies in a table leaves its own labels alone. -/
theorem field?_padAll {table : Document} (regular : Regular table) (start : List String)
    {label : String} (isLabel : label ∈ labels) :
    (padAll start table).field? label = table.field? label := by
  have several : ∀ name ∈ labels, name ≠ "Table" ∧ name ∉ loneMarks := by decide
  cases table with
  | object fields =>
      rw [padAll_object, field?, field?, get?_map_padField start fields (several label isLabel).1]
      cases found : Fields.get? fields label with
      | none => rfl
      | some name =>
          have plain : Plain fields := regular.plain found (several label isLabel).2
          have inert : Inert name := plain.named _ (Fields.mem_of_get?_eq_some found) isLabel
          rw [Option.map_some, padAll_of_inert inert]
  | array items =>
      rw [padAll_array]
      rfl
  | null => rfl
  | bool value => rfl
  | number mantissa places => rfl
  | string value => rfl

theorem tableName?_padAll {table : Document} (regular : Regular table) (start : List String) :
    tableName? (padAll start table) = tableName? table := by
  rw [tableName?, tableName?, field?_padAll regular start (by decide)]

theorem tablesInField_padField
    {field : String × Document} {start : List String} (regular : Regular field.2)
    (keptRegular : Regular (padAll start field.2))
    (kept : tables (padAll start field.2) = (tables field.2).map (paddedName start)) :
    tablesInField (padField start field) =
      (tablesInField field).map (paddedName start) := by
  rw [tablesInField, tablesInField, padField, List.map_append]
  by_cases table : field.1 = "Table"
  · rw [if_pos table, if_pos table, if_pos table, tableName?_padTable,
      tableName?_padAll regular, (padTable_kept keptRegular start).2, kept]
    cases tableName? field.2 <;> rfl
  · rw [if_neg table, if_neg table, if_neg table, kept]
    rfl

/-- Padding keeps a document regular and pads the name of every table. -/
theorem padAll_kept {document : Document} (regular : Regular document) (start : List String) :
    Regular (padAll start document) ∧
      tables (padAll start document) = (tables document).map (paddedName start) := by
  induction regular with
  | null => exact ⟨.null, rfl⟩
  | bool value => exact ⟨.bool value, rfl⟩
  | number mantissa places => exact ⟨.number mantissa places, rfl⟩
  | string value => exact ⟨.string value, rfl⟩
  | @array items _ ih =>
      rw [padAll_array, tables_array, tables_array, List.flatMap_map, List.map_flatMap]
      constructor
      · apply Regular.array
        intro item listed
        obtain ⟨old, before, rfl⟩ := List.mem_map.1 listed
        exact (ih old before).1
      · rw [List.flatMap_def, List.flatMap_def]
        congr 1
        exact List.map_congr_left fun item listed => (ih item listed).2
  | @column key value mark inert =>
      have plain : key ≠ "Table" := by
        rintro rfl
        exact absurd mark (by decide)
      have same : padAll start (.object [(key, value)]) = .object [(key, value)] := by
        simp only [padAll_object, List.map_cons, List.map_nil, padField, if_neg plain,
          padAll_of_inert inert]
      rw [same, tables_object, List.flatMap_singleton, tablesInField_of_inert inert plain]
      exact ⟨.column mark inert, rfl⟩
  | @aliased label expr inert _ ih =>
      have same : padAll start (.object [("ExprWithAlias",
            .object [("alias", label), ("expr", expr)])]) =
          .object [("ExprWithAlias", .object [("alias", label), ("expr", padAll start expr)])] := by
        simp [padAll_object, padField, padAll_of_inert inert]
      rw [same]
      refine ⟨.aliased inert ih.1, ?_⟩
      simp [tablesInField, tables_of_inert inert, ih.2]
  | @object fields distinct ordinary named inner ih =>
      rw [padAll_object, tables_object, tables_object, List.flatMap_map, List.map_flatMap]
      constructor
      · apply Regular.object
        · simpa [padField, Function.comp_def] using distinct
        · intro field listed
          obtain ⟨old, before, rfl⟩ := List.mem_map.1 listed
          exact ordinary old before
        · intro field listed label
          obtain ⟨old, before, rfl⟩ := List.mem_map.1 listed
          have inert := named old before label
          have plain : old.1 ≠ "Table" := by
            intro table
            rw [padField, table] at label
            exact absurd label (by simp [labels])
          rw [padField, if_neg plain, padAll_of_inert inert]
          exact inert
        · intro field listed
          obtain ⟨old, before, rfl⟩ := List.mem_map.1 listed
          rw [padField]
          split
          · exact (padTable_kept (ih old before).1 start).1
          · exact (ih old before).1
      · rw [List.flatMap_def, List.flatMap_def]
        congr 1
        apply List.map_congr_left
        intro field listed
        exact tablesInField_padField (inner field listed) (ih field listed).1 (ih field listed).2

end Access
end SemanticLayer
