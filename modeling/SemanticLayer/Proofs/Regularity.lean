import SemanticLayer.Access.Qualify
import SemanticLayer.Proofs.Positions

/-!
# Regular documents

In the document of a statement a column stands alone, an aliased expression stands alone beside its
alias, and names and aliases hold nothing that tells of tables or columns. Such documents are called
regular. A change at a marked position that keeps the tables found there keeps all tables of a
regular document, and the document stays regular.
-/

namespace SemanticLayer
namespace Document

/-! ## Marks -/

/-- The fields by which tables, columns and aliased expressions are found. -/
def marks : List String :=
  ["Table", "Identifier", "CompoundIdentifier", "ExprWithAlias"]

/-- The marks that stand alone. -/
def loneMarks : List String :=
  ["Identifier", "CompoundIdentifier", "ExprWithAlias"]

/-- The fields that hold names. -/
def labels : List String :=
  ["alias", "name"]

/-- An object with a marked field. -/
inductive Marked : Document → Prop
  | intro {fields : Fields} {key : String} {value : Document} (mark : key ∈ marks)
      (found : (key, value) ∈ fields) : Marked (.object fields)

/-- A document without marked fields. -/
inductive Inert : Document → Prop
  | null : Inert .null
  | bool (value : Bool) : Inert (.bool value)
  | number (mantissa : Int) (places : Nat) : Inert (.number mantissa places)
  | string (value : String) : Inert (.string value)
  | array {items : List Document} (inner : ∀ item ∈ items, Inert item) : Inert (.array items)
  | object {fields : Fields} (distinct : (fields.map Prod.fst).Nodup)
      (unmarked : ∀ field ∈ fields, field.1 ∉ marks)
      (inner : ∀ field ∈ fields, Inert field.2) : Inert (.object fields)

/-- A document in which columns and aliased expressions stand alone and names are inert. -/
inductive Regular : Document → Prop
  | null : Regular .null
  | bool (value : Bool) : Regular (.bool value)
  | number (mantissa : Int) (places : Nat) : Regular (.number mantissa places)
  | string (value : String) : Regular (.string value)
  | array {items : List Document} (inner : ∀ item ∈ items, Regular item) : Regular (.array items)
  | column {key : String} {value : Document} (mark : key ∈ ["Identifier", "CompoundIdentifier"])
      (inert : Inert value) : Regular (.object [(key, value)])
  | aliased {label expr : Document} (inert : Inert label) (inner : Regular expr) :
      Regular (.object [("ExprWithAlias", .object [("alias", label), ("expr", expr)])])
  | object {fields : Fields} (distinct : (fields.map Prod.fst).Nodup)
      (ordinary : ∀ field ∈ fields, field.1 ∉ loneMarks)
      (named : ∀ field ∈ fields, field.1 ∈ labels → Inert field.2)
      (inner : ∀ field ∈ fields, Regular field.2) : Regular (.object fields)

/-- The fields of a regular object that is no column and no aliased expression. -/
structure Plain (fields : Fields) : Prop where
  distinct : (fields.map Prod.fst).Nodup
  ordinary : ∀ field ∈ fields, field.1 ∉ loneMarks
  named : ∀ field ∈ fields, field.1 ∈ labels → Inert field.2
  inner : ∀ field ∈ fields, Regular field.2

theorem Plain.regular {fields : Fields} (plain : Plain fields) : Regular (.object fields) :=
  .object plain.distinct plain.ordinary plain.named plain.inner

theorem mem_marks_of_mem_loneMarks {key : String} (mark : key ∈ loneMarks) : key ∈ marks :=
  List.mem_cons_of_mem _ mark

theorem Inert.regular {document : Document} (inert : Inert document) : Regular document := by
  induction inert with
  | null => exact .null
  | bool value => exact .bool value
  | number mantissa places => exact .number mantissa places
  | string value => exact .string value
  | array _ ih => exact .array ih
  | object distinct unmarked inner ih =>
      apply Regular.object distinct
      · intro field here mark
        exact unmarked field here (mem_marks_of_mem_loneMarks mark)
      · intro field here _
        exact inner field here
      · exact ih

theorem Regular.keyed {document : Document} (regular : Regular document) : Keyed document := by
  have ofInert : ∀ {inner : Document}, Inert inner → Keyed inner := by
    intro inner inert
    induction inert with
    | null => exact .null
    | bool value => exact .bool value
    | number mantissa places => exact .number mantissa places
    | string value => exact .string value
    | array _ ih => exact .array ih
    | object distinct _ _ ih => exact .object distinct ih
  induction regular with
  | null => exact .null
  | bool value => exact .bool value
  | number mantissa places => exact .number mantissa places
  | string value => exact .string value
  | array _ ih => exact .array ih
  | column _ inert => exact .object (by simp) (by simpa using ofInert inert)
  | aliased inert _ ih =>
      have inside : Keyed (.object [("alias", _), ("expr", _)]) :=
        .object (by simp) (by simpa using ⟨ofInert inert, ih⟩)
      exact .object (by simp) (by simpa using inside)
  | object distinct _ _ _ ih => exact .object distinct ih

theorem Inert.child? {document child : Document} {step : String} (inert : Inert document)
    (found : document.child? step = some child) : Inert child := by
  cases inert with
  | array inner =>
      obtain ⟨i, _, item⟩ := Option.bind_eq_some_iff.1 found
      exact inner child (List.mem_of_getElem? item)
  | object _ _ inner => exact inner _ (Fields.mem_of_get?_eq_some found)
  | null => cases found
  | bool value => cases found
  | number mantissa places => cases found
  | string value => cases found

theorem Inert.at? {document found : Document} {pointer : Pointer} (inert : Inert document)
    (leads : document.at? pointer = some found) : Inert found := by
  induction pointer generalizing document with
  | nil =>
      cases leads
      exact inert
  | cons step rest ih =>
      rw [at?_cons] at leads
      obtain ⟨child, here, below⟩ := Option.bind_eq_some_iff.1 leads
      exact ih (inert.child? here) below

theorem Inert.not_marked {document : Document} (inert : Inert document) : ¬ Marked document := by
  rintro ⟨mark, found⟩
  cases inert with
  | object _ unmarked _ => exact unmarked _ found mark

/-- No pointer leads to a marked position in an inert document. -/
theorem Inert.at?_ne_marked {document found : Document} {pointer : Pointer}
    (inert : Inert document) (marked : Marked found) : document.at? pointer ≠ some found := by
  intro leads
  exact (inert.at? leads).not_marked marked

/-- An expression beside its alias is regular. -/
theorem Regular.beside {label expr : Document} (inert : Inert label) (inner : Regular expr) :
    Regular (.object [("alias", label), ("expr", expr)]) := by
  apply Regular.object
  · simp
  · simp [loneMarks]
  · simpa [labels] using inert
  · simpa using ⟨inert.regular, inner⟩

theorem Regular.child? {document child : Document} {step : String} (regular : Regular document)
    (found : document.child? step = some child) : Regular child := by
  cases regular with
  | array inner =>
      obtain ⟨i, _, item⟩ := Option.bind_eq_some_iff.1 found
      exact inner child (List.mem_of_getElem? item)
  | column _ inert =>
      have same := Fields.mem_of_get?_eq_some found
      simp only [List.mem_singleton, Prod.mk.injEq] at same
      exact same.2 ▸ inert.regular
  | aliased inert inner =>
      have same := Fields.mem_of_get?_eq_some found
      simp only [List.mem_singleton, Prod.mk.injEq] at same
      exact same.2 ▸ Regular.beside inert inner
  | object _ _ _ inner => exact inner _ (Fields.mem_of_get?_eq_some found)
  | null => cases found
  | bool value => cases found
  | number mantissa places => cases found
  | string value => cases found

theorem Regular.at? {document found : Document} {pointer : Pointer} (regular : Regular document)
    (leads : document.at? pointer = some found) : Regular found := by
  induction pointer generalizing document with
  | nil =>
      cases leads
      exact regular
  | cons step rest ih =>
      rw [at?_cons] at leads
      obtain ⟨child, here, below⟩ := Option.bind_eq_some_iff.1 leads
      exact ih (regular.child? here) below

/-- A regular object with a field that does not stand alone is of the general kind. -/
theorem Regular.plain {fields : Fields} {key : String} {value : Document}
    (regular : Regular (.object fields)) (found : Fields.get? fields key = some value)
    (several : key ∉ loneMarks) : Plain fields := by
  have here := Fields.mem_of_get?_eq_some found
  cases regular with
  | column mark _ =>
      simp only [List.mem_singleton, Prod.mk.injEq] at here
      exact absurd (List.mem_append_left ["ExprWithAlias"] (here.1 ▸ mark)) several
  | aliased _ _ =>
      simp only [List.mem_singleton, Prod.mk.injEq] at here
      exact absurd (here.1 ▸ by decide) several
  | object distinct ordinary named inner => exact ⟨distinct, ordinary, named, inner⟩

theorem Regular.of_beside {label expr : Document}
    (regular : Regular (.object [("alias", label), ("expr", expr)])) :
    Inert label ∧ Regular expr := by
  generalize shape : ([("alias", label), ("expr", expr)] : Fields) = fields at regular
  cases regular with
  | column _ _ => simp at shape
  | aliased _ _ => simp at shape
  | object _ _ named inner =>
      subst shape
      exact ⟨named ("alias", label) (by simp) (by simp [labels]), inner ("expr", expr) (by simp)⟩

/-- A change keeps the two fields of an expression beside its alias. -/
theorem exists_changeField_beside
    (step : String) (change : Document → Document) (label expr : Document) :
    ∃ newLabel newExpr, changeField step change [("alias", label), ("expr", expr)] =
      [("alias", newLabel), ("expr", newExpr)] := by
  by_cases first : "alias" = step
  · subst first
    exact ⟨change label, expr, rfl⟩
  · by_cases second : "expr" = step
    · subst second
      exact ⟨label, change expr, rfl⟩
    · exact ⟨label, expr, by simp [changeField, first, second]⟩

theorem child?_array_of_mark {key : String} (mark : key ∈ marks) (items : List Document) :
    (Document.array items).child? key = none := by
  have noIndex : ∀ name ∈ marks, Pointer.index? name = none := by decide
  rw [child?, noIndex key mark, Option.bind_none]

/-- A column stands alone. -/
theorem Regular.eq_column {document value : Document} {key : String} (regular : Regular document)
    (mark : key ∈ ["Identifier", "CompoundIdentifier"])
    (found : document.child? key = some value) :
    document = .object [(key, value)] ∧ Inert value := by
  cases regular with
  | array _ =>
      have lone : key ∈ marks :=
        mem_marks_of_mem_loneMarks (List.mem_append_left ["ExprWithAlias"] mark)
      rw [child?_array_of_mark lone] at found
      cases found
  | column _ inert =>
      have same := Fields.mem_of_get?_eq_some found
      simp only [List.mem_singleton, Prod.mk.injEq] at same
      obtain ⟨rfl, rfl⟩ := same
      exact ⟨rfl, inert⟩
  | aliased _ _ =>
      have same := Fields.mem_of_get?_eq_some found
      simp only [List.mem_singleton, Prod.mk.injEq] at same
      exact absurd (same.1 ▸ mark) (by decide)
  | object _ ordinary _ _ =>
      exact absurd (List.mem_append_left ["ExprWithAlias"] mark)
        (ordinary _ (Fields.mem_of_get?_eq_some found))
  | null => cases found
  | bool value => cases found
  | number mantissa places => cases found
  | string value => cases found

/-- An aliased expression stands alone beside its alias. -/
theorem Regular.eq_aliased {document value : Document} (regular : Regular document)
    (found : document.child? "ExprWithAlias" = some value) :
    ∃ label expr, document = .object [("ExprWithAlias", .object [("alias", label), ("expr", expr)])]
      ∧ value = .object [("alias", label), ("expr", expr)] ∧ Inert label ∧ Regular expr := by
  cases regular with
  | array _ =>
      rw [child?_array_of_mark (by decide)] at found
      cases found
  | column mark _ =>
      have same := Fields.mem_of_get?_eq_some found
      simp only [List.mem_singleton, Prod.mk.injEq] at same
      exact absurd (same.1 ▸ mark) (by decide)
  | @aliased label expr inert inner =>
      have same := Fields.mem_of_get?_eq_some found
      simp only [List.mem_singleton, Prod.mk.injEq, true_and] at same
      exact ⟨label, expr, rfl, same, inert, inner⟩
  | object _ ordinary _ _ =>
      have plain := ordinary _ (Fields.mem_of_get?_eq_some found)
      simp [loneMarks] at plain
  | null => cases found
  | bool value => cases found
  | number mantissa places => cases found
  | string value => cases found

/-- Where one field is changed, the others are as they were. -/
theorem Plain.changeField
    {fields : Fields} {step : String} {value : Document} {change : Document → Document}
    (plain : Plain fields) (found : Fields.get? fields step = some value)
    (kept : Regular (change value)) (keptInert : step ∈ labels → Inert (change value)) :
    Plain (Document.changeField step change fields) := by
  have origin : ∀ field ∈ Document.changeField step change fields,
      field = (step, change value) ∨ field.1 ≠ step ∧ field ∈ fields := by
    intro field here
    obtain ⟨old, before, after⟩ := List.mem_map.1 here
    by_cases same : old.1 = step
    · have oldValue := Fields.get?_eq_some_of_mem plain.distinct before
      rw [same, found, Option.some.injEq] at oldValue
      rw [if_pos (by simpa using same)] at after
      exact Or.inl (by rw [← after, same, ← oldValue])
    · rw [if_neg (by simpa using same)] at after
      exact Or.inr ⟨after ▸ same, after ▸ before⟩
  constructor
  · rw [keys_changeField]
    exact plain.distinct
  · intro field here
    rcases origin field here with rfl | ⟨_, before⟩
    · exact plain.ordinary (step, value) (Fields.mem_of_get?_eq_some found)
    · exact plain.ordinary field before
  · intro field here label
    rcases origin field here with rfl | ⟨_, before⟩
    · exact keptInert label
    · exact plain.named field before label
  · intro field here
    rcases origin field here with rfl | ⟨_, before⟩
    · exact kept
    · exact plain.inner field before

end Document

/-! ## The tables of a document -/

namespace Access

open Document

/-- The name of a table, if it has one. -/
def tableName? (table : Document) : Option (List String) :=
  ((table.field? "name").map identValues).filter fun name => !name.isEmpty

/-- The names of the tables of a document, in its order. -/
def tables (document : Document) : List (List String) :=
  (document.values "Table" none).filterMap tableName?

/-- The names of the tables that a field tells of. -/
def tablesInField (field : String × Document) : List (List String) :=
  (if field.1 = "Table" then (tableName? field.2).toList else []) ++ tables field.2

theorem tableNames_eq_tables {document : Document} (keyed : Keyed document) :
    tableNames document = tables document := by
  have found := congrArg
    (List.filterMap fun place : Option Document =>
      ((place.bind (field? "name")).map identValues).filter fun name => !name.isEmpty)
    (map_at?_find keyed "Table" none)
  rw [List.filterMap_map, List.filterMap_map] at found
  rw [tableNames, List.filter_filterMap]
  exact found

@[simp]
theorem tables_object (fields : Fields) :
    tables (.object fields) = fields.flatMap tablesInField := by
  rw [tables, values_object, List.filterMap_flatMap]
  congr 1
  funext field
  rw [valuesInField, List.filterMap_append, tablesInField, tables]
  split
  · simp only [List.filterMap_cons, List.filterMap_nil]
    cases tableName? field.2 <;> simp
  · simp

@[simp]
theorem tables_array (items : List Document) :
    tables (.array items) = items.flatMap tables := by
  rw [tables, values_array, List.filterMap_flatMap]
  rfl

theorem tables_of_inert {document : Document} (inert : Inert document) :
    tables document = [] := by
  induction inert with
  | null => rfl
  | bool value => rfl
  | number mantissa places => rfl
  | string value => rfl
  | array _ ih =>
      rw [tables_array, List.flatMap_eq_nil_iff]
      exact ih
  | object _ unmarked _ ih =>
      rw [tables_object, List.flatMap_eq_nil_iff]
      intro field here
      have plain : field.1 ≠ "Table" := by
        intro same
        exact unmarked field here (same ▸ by decide)
      rw [tablesInField, if_neg plain, List.nil_append]
      exact ih field here

/-- Every column with a qualifier has a part in front of its own name. -/
def Dotted (document : Document) : Prop :=
  ∀ parts ∈ document.values "CompoundIdentifier" none, 2 ≤ (identValues parts).length

theorem dotted_object (fields : Fields) :
    Dotted (.object fields) ↔ ∀ field ∈ fields,
      (field.1 = "CompoundIdentifier" → 2 ≤ (identValues field.2).length) ∧ Dotted field.2 := by
  rw [Dotted, values_object, List.forall_mem_flatMap]
  apply forall₂_congr
  intro field _
  rw [valuesInField, List.forall_mem_append, if_neg (c := none = some _) (by simp), Dotted]
  apply and_congr_left
  intro _
  by_cases compound : field.1 = "CompoundIdentifier"
  · simp [compound]
  · simp [compound]

theorem dotted_array (items : List Document) :
    Dotted (.array items) ↔ ∀ item ∈ items, Dotted item := by
  rw [Dotted, values_array, List.forall_mem_flatMap]
  rfl

theorem dotted_of_inert {document : Document} (inert : Inert document) : Dotted document := by
  induction inert with
  | null => exact List.forall_mem_nil _
  | bool value => exact List.forall_mem_nil _
  | number mantissa places => exact List.forall_mem_nil _
  | string value => exact List.forall_mem_nil _
  | array _ ih => exact (dotted_array _).2 ih
  | object _ unmarked _ ih =>
      rw [dotted_object]
      intro field here
      refine ⟨?_, ih field here⟩
      intro same
      exact absurd (same ▸ by decide) (unmarked field here)

/-- Documents that tell of the same tables, also when they stand for a table themselves. -/
structure SameTables (first second : Document) : Prop where
  tables : tables first = tables second
  name : tableName? first = tableName? second

theorem SameTables.refl (document : Document) : SameTables document document :=
  ⟨rfl, rfl⟩

/-- Changing the value of one field keeps the tables if the value keeps its own. -/
theorem tables_changeField
    {fields : Fields} (distinct : (fields.map Prod.fst).Nodup)
    {step : String} {value : Document} {change : Document → Document}
    (found : Fields.get? fields step = some value)
    (same : tablesInField (step, change value) = tablesInField (step, value)) :
    tables (.object (changeField step change fields)) = tables (.object fields) := by
  rw [tables_object, tables_object, changeField, List.flatMap_map]
  rw [List.flatMap_def, List.flatMap_def]
  congr 1
  apply List.map_congr_left
  intro field here
  split
  · rename_i here'
    have step' : field.1 = step := by simpa using here'
    have old := Fields.get?_eq_some_of_mem distinct here
    rw [step', found, Option.some.injEq] at old
    rw [step', ← old, same]
    have field' : field = (step, value) := by rw [← step', old]
    rw [field']
  · rfl

theorem SameTables.inField {first second : Document} (same : SameTables first second)
    (step : String) : tablesInField (step, first) = tablesInField (step, second) := by
  rw [tablesInField, tablesInField, same.name, same.tables]

/-- Changing the value of a field that is no name keeps the tables of an object. -/
theorem SameTables.changeField
    {fields : Fields} (distinct : (fields.map Prod.fst).Nodup)
    {step : String} {value : Document} {change : Document → Document}
    (found : Fields.get? fields step = some value) (unnamed : step ≠ "name")
    (same : SameTables (change value) value) :
    SameTables (.object (Document.changeField step change fields)) (.object fields) := by
  constructor
  · exact tables_changeField distinct found (same.inField step)
  · have kept : Fields.get? (Document.changeField step change fields) "name" =
        Fields.get? fields "name" := by
      rw [Fields.get?_changeField, if_neg (Ne.symm unnamed)]
    rw [tableName?, tableName?, field?, field?, kept]

/-- Changing one item keeps what all items tell of if the item keeps it. -/
theorem map_tables_modify
    {items : List Document} {i : Nat} {value : Document} {change : Document → Document}
    (found : items[i]? = some value) (same : tables (change value) = tables value) :
    (items.modify i change).map tables = items.map tables := by
  apply List.ext_getElem?
  intro j
  rw [List.getElem?_map, List.getElem?_map, List.getElem?_modify]
  by_cases here : i = j
  · subst here
    simp [found, same]
  · simp [here]

theorem regular_modify
    {items : List Document} {i : Nat} {value : Document} {change : Document → Document}
    (inner : ∀ item ∈ items, Regular item) (found : items[i]? = some value)
    (kept : Regular (change value)) : ∀ item ∈ items.modify i change, Regular item := by
  intro item listed
  obtain ⟨j, place⟩ := List.mem_iff_getElem?.1 listed
  rw [List.getElem?_modify] at place
  by_cases here : i = j
  · subst here
    simp only [found, if_true, Option.map_eq_map, Option.map_some, Option.some.injEq] at place
    exact place ▸ kept
  · simp only [here, if_false, Option.map_eq_map, Option.map_id_fun', id_eq] at place
    exact inner item (List.mem_of_getElem? place)

/-- A change at a marked position of a regular document that keeps what is found there regular and
its tables the same does so for the whole document. -/
theorem regular_changeAt
    {document found : Document} {pointer : Pointer} {change : Document → Document}
    (regular : Regular document) (leads : document.at? pointer = some found)
    (marked : Marked found) (kept : Regular (change found))
    (same : SameTables (change found) found) :
    Regular (changeAt change pointer document) ∧
      SameTables (changeAt change pointer document) document := by
  induction pointer generalizing document with
  | nil =>
      cases leads
      exact ⟨kept, same⟩
  | cons step rest ih =>
      rw [at?_cons] at leads
      obtain ⟨child, here, below⟩ := Option.bind_eq_some_iff.1 leads
      obtain ⟨regularChild, sameChild⟩ := ih (regular.child? here) below
      have lively : ¬ Inert child := fun inert => inert.at?_ne_marked marked below
      cases regular with
      | array inner =>
          obtain ⟨i, index, item⟩ := Option.bind_eq_some_iff.1 here
          simp only [changeAt, index]
          refine ⟨.array (regular_modify inner item regularChild), ?_, rfl⟩
          rw [tables_array, tables_array, List.flatMap_def, List.flatMap_def,
            map_tables_modify item sameChild.tables]
      | column mark inert =>
          have only := Fields.mem_of_get?_eq_some here
          simp only [List.mem_singleton, Prod.mk.injEq] at only
          exact absurd (only.2 ▸ inert) lively
      | @aliased label expr inert inner =>
          have only := Fields.mem_of_get?_eq_some here
          simp only [List.mem_singleton, Prod.mk.injEq] at only
          obtain ⟨rfl, rfl⟩ := only
          constructor
          · -- The object below the mark keeps its two fields, as no marked object has them.
            cases rest with
            | nil =>
                cases below
                cases marked with
                | intro mark listed =>
                    simp only [List.mem_cons, Prod.mk.injEq, List.not_mem_nil, or_false] at listed
                    rcases listed with ⟨rfl, _⟩ | ⟨rfl, _⟩
                    · exact absurd mark (by decide)
                    · exact absurd mark (by decide)
            | cons next rest =>
                obtain ⟨newLabel, newExpr, shape⟩ :=
                  exists_changeField_beside next (changeAt change rest) label expr
                rw [changeAt, shape] at regularChild
                obtain ⟨newInert, newInner⟩ := regularChild.of_beside
                simp only [changeAt, changeField, List.map_cons, List.map_nil] at shape ⊢
                rw [shape]
                exact .aliased newInert newInner
          · exact SameTables.changeField (by simp) here (by decide) sameChild
      | object distinct ordinary named inner =>
          have unnamed : step ∉ labels := fun label =>
            lively (named _ (Fields.mem_of_get?_eq_some here) label)
          constructor
          · have plain : Plain _ := ⟨distinct, ordinary, named, inner⟩
            exact (plain.changeField here regularChild fun label => absurd label unnamed).regular
          · exact SameTables.changeField distinct here
              (fun name => unnamed (name ▸ by decide)) sameChild
      | null => cases here
      | bool value => cases here
      | number mantissa places => cases here
      | string value => cases here

end Access
end SemanticLayer
