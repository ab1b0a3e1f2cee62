import SemanticLayer.Proofs.Outcomes
import SemanticLayer.Proofs.Places
import SemanticLayer.Proofs.Qualification

/-!
# What names lack

The faults that preparing a text is to remove, each with the position where it shows. Every pass
removes the faults of one kind at the positions it changes and leaves every other fault where it
was.
-/

namespace SemanticLayer
namespace Access

open Document

/-! ## Faults -/

/-- Whether a table has an alias. -/
def hasAlias (table : Document) : Bool :=
  match table.field? "alias" with
  | none => false
  | some .null => false
  | some _ => true

/-- What a name in a document may lack. -/
inductive Fault where
  /-- A table without a name. -/
  | unnamed
  /-- A table with a name and an alias. -/
  | aliased
  /-- A column without a qualifier. -/
  | bare
  /-- A column with a qualifier that does not start with the full name of a table. -/
  | short
  /-- A column with an empty qualifier. -/
  | lone

/-- The field under which a fault is found. -/
def Fault.key : Fault → String
  | .unnamed => "Table"
  | .aliased => "Table"
  | .bare => "Identifier"
  | .short => "CompoundIdentifier"
  | .lone => "CompoundIdentifier"

/-- What stands under its field where a fault is found. -/
def Fault.Shows : Fault → Document → Prop
  | .unnamed, table => tableName? table = none
  | .aliased, table => (tableName? table).isSome ∧ hasAlias table
  | .bare, _ => True
  | .short, parts => (identValues parts).length ≤ tableParts
  | .lone, parts => (identValues parts).length ≤ 1

/-- A document has a fault below a position. -/
def Faulty (fault : Fault) (front : Pointer) (document : Document) : Prop :=
  ∃ value, document.at? (front ++ [fault.key]) = some value ∧ fault.Shows value

theorem Fault.key_mem_marks (fault : Fault) : fault.key ∈ marks := by
  cases fault <;> decide

theorem index?_of_mem_marks {key : String} (mark : key ∈ marks) : Pointer.index? key = none := by
  have all : ∀ name ∈ marks, Pointer.index? name = none := by decide
  exact all key mark

/-! ## Faults away from a change -/

/-- Whatever stands at the end of a list is the end of it. -/
theorem exists_middle_of_append {α : Type} {front tail home : List α} {last : α}
    (same : front ++ tail = home ++ [last]) (nonempty : tail ≠ []) :
    ∃ middle, tail = middle ++ [last] ∧ home = front ++ middle := by
  rcases List.eq_nil_or_concat tail with empty | ⟨middle, other, rfl⟩
  · exact absurd empty nonempty
  · rw [List.concat_eq_append, ← List.append_assoc] at same
    obtain ⟨whole, ends⟩ := List.append_inj' same rfl
    obtain rfl := List.singleton_inj.1 ends
    exact ⟨middle, List.concat_eq_append, whole.symm⟩

/-- In an inert document no position ends with a mark. -/
theorem at?_eq_none_of_inert {document : Document} (inert : Inert document) {key : String}
    (mark : key ∈ marks) (front : Pointer) : document.at? (front ++ [key]) = none := by
  cases leads : document.at? (front ++ [key]) with
  | none => rfl
  | some value =>
      obtain ⟨fields, here, field⟩ := exists_marked_of_at? mark leads
      exact absurd (inert.at? here) (fun inner => inner.not_marked (marked_of_get? mark field))

/-- Above a mark stands no label. -/
theorem label_ne_of_leads {document value : Document} (regular : Regular document) {key step : String}
    (mark : key ∈ marks) {rest front : Pointer} (ends : step :: rest = front ++ [key])
    (leads : document.at? (step :: rest) = some value) {label : String} (isLabel : label ∈ labels) :
    label ≠ step := by
  rintro rfl
  obtain ⟨child, here, below⟩ := Option.bind_eq_some_iff.1 leads
  cases front with
  | nil =>
      obtain ⟨rfl, rfl⟩ := List.cons.inj ends
      have apart : ∀ name ∈ labels, name ∉ marks := by decide
      exact apart _ isLabel mark
  | cons first front =>
      obtain ⟨rfl, rfl⟩ := List.cons.inj ends
      cases document with
      | object fields =>
          have several : label ∉ loneMarks := by
            have apart : ∀ name ∈ labels, name ∉ loneMarks := by decide
            exact apart _ isLabel
          have inert := (regular.plain here several).named _ (Fields.mem_of_get?_eq_some here) isLabel
          have nothing := at?_eq_none_of_inert inert mark front
          cases nothing.symm.trans below
      | array items =>
          have noIndex : ∀ name ∈ labels, Pointer.index? name = none := by decide
          rw [child?, noIndex _ isLabel] at here
          cases here
      | null => cases here
      | bool value => cases here
      | number mantissa places => cases here
      | string value => cases here

/-- A change further below, at or above a mark, is none to what a fault is told by. -/
theorem shows_changeAt {document value found : Document} (regular : Regular document)
    {fault : Fault} {front : Pointer} (here : document.at? (front ++ [fault.key]) = some found)
    {key step : String} (mark : key ∈ marks) {rest tail home : Pointer}
    (ends : step :: rest ++ tail = home ++ [key])
    (leads : found.at? (step :: rest ++ tail) = some value) (change : Document → Document) :
    fault.Shows (changeAt change (step :: rest) found) ↔ fault.Shows found := by
  have label : ∀ label ∈ labels,
      (changeAt change (step :: rest) found).field? label = found.field? label := by
    intro label isLabel
    apply field?_changeAt_of_ne
    exact label_ne_of_leads (regular.at? here) mark ends leads isLabel
  have inside : fault.key = "CompoundIdentifier" → False := by
    intro compound
    rw [compound] at here
    obtain ⟨fields, outer, field⟩ := exists_marked_of_at? (by decide) here
    obtain ⟨_, inert⟩ := (regular.at? outer).eq_column (by decide) field
    rw [ends, at?_eq_none_of_inert inert mark] at leads
    cases leads
  cases fault with
  | unnamed => simp only [Fault.Shows, tableName?, label "name" (by decide)]
  | aliased =>
      simp only [Fault.Shows, tableName?, hasAlias, label "name" (by decide),
        label "alias" (by decide)]
  | bare => exact Iff.rfl
  | short => exact (inside rfl).elim
  | lone => exact (inside rfl).elim

/-- A change at or above a mark keeps the faults that are not found below it. -/
theorem faulty_changeAt_of_elsewhere {document value : Document} (regular : Regular document)
    {key : String} (mark : key ∈ marks) {home pointer tail : Pointer}
    (above : pointer ++ tail = home ++ [key]) (leads : document.at? (home ++ [key]) = some value)
    (change : Document → Document) {fault : Fault} {front : Pointer}
    (apart : ¬ pointer <+: front ++ [fault.key]) :
    Faulty fault front (changeAt change pointer document) ↔ Faulty fault front document := by
  rcases at?_changeAt_of_elsewhere change apart document with kept | ⟨step, rest, rfl, changed⟩
  · rw [Faulty, kept, Faulty]
  · rw [Faulty, changed, Faulty]
    cases here : document.at? (front ++ [fault.key]) with
    | none => simp
    | some found =>
        rw [← above, List.append_assoc, at?_append, here, Option.bind_some] at leads
        rw [List.append_assoc] at above
        obtain ⟨last, ends, _⟩ := exists_middle_of_append above (by simp)
        simp only [Option.map_some, Option.some.injEq, exists_eq_left']
        exact shows_changeAt regular here mark ends leads change

/-- A mark gets a value that below it has what there was: only faults right there change. -/
theorem faulty_replace {document old : Document} (regular : Regular document) {key : String}
    (mark : key ∈ marks) {home : Pointer} (leads : document.at? (home ++ [key]) = some old)
    {change : Document → Document}
    (below : ∀ (middle : Pointer) (other : Fault),
      (change old).at? (middle ++ [other.key]) = old.at? (middle ++ [other.key]))
    {fault : Fault} {front : Pointer} (elsewhere : front ++ [fault.key] ≠ home ++ [key]) :
    Faulty fault front (changeAt change (home ++ [key]) document) ↔ Faulty fault front document := by
  by_cases apart : home ++ [key] <+: front ++ [fault.key]
  · obtain ⟨tail, same⟩ := apart
    have nonempty : tail ≠ [] := by
      rintro rfl
      exact elsewhere (by rw [← same, List.append_nil])
    obtain ⟨middle, rfl, _⟩ := exists_middle_of_append same nonempty
    rw [Faulty, Faulty, ← same, at?_changeAt_append,
      at?_append document (home ++ [key]), leads, Option.bind_some, Option.bind_some,
      below middle fault]
  · exact faulty_changeAt_of_elsewhere regular mark (List.append_nil _) leads change apart

/-- Where a label of a table changes, what stands below marks stays. -/
theorem at?_changeField_label {fields : Fields} (plain : Plain fields) {label : String}
    (isLabel : label ∈ labels) {new : Document} (inert : Inert new) {key : String}
    (mark : key ∈ marks) (middle : Pointer) :
    (Document.object (changeField label (fun _ => new) fields)).at? (middle ++ [key]) =
      (Document.object fields).at? (middle ++ [key]) := by
  have unmarked : ∀ name ∈ labels, name ∉ marks := by decide
  cases middle with
  | nil =>
      have differ : key ≠ label := fun same => unmarked label isLabel (same ▸ mark)
      rw [List.nil_append, at?_cons, at?_cons, child?, child?, Fields.get?_changeField,
        if_neg differ]
  | cons step rest =>
      rw [List.cons_append, at?_cons, at?_cons, child?, child?, Fields.get?_changeField]
      split
      · rename_i same
        subst same
        cases found : Fields.get? fields step with
        | none => rfl
        | some old =>
            have oldInert := plain.named _ (Fields.mem_of_get?_eq_some found) isLabel
            rw [Option.map_some, Option.bind_some, Option.bind_some,
              at?_eq_none_of_inert inert mark, at?_eq_none_of_inert oldInert mark]
      · rfl

/-! ## Padding -/

/-- Below a table whose name is padded stands what stood there. -/
theorem at?_padTable {table : Document} (regular : Regular table) (start : List String)
    {key : String} (mark : key ∈ marks) (middle : Pointer) :
    (padTable start table).at? (middle ++ [key]) = table.at? (middle ++ [key]) := by
  cases table with
  | object fields =>
      rw [padTable]
      split
      · rename_i parts found
        have plain : Plain fields := regular.plain found (by decide)
        have inert : Inert (.array parts) :=
          plain.named _ (Fields.mem_of_get?_eq_some found) (by simp [labels])
        exact at?_changeField_label plain (by decide) (inert_pad inert start _) mark middle
      · rfl
  | array items => rfl
  | null => rfl
  | bool value => rfl
  | number mantissa places => rfl
  | string value => rfl

theorem hasAlias_padTable (start : List String) (table : Document) :
    hasAlias (padTable start table) = hasAlias table := by
  cases table with
  | object fields =>
      rw [padTable]
      split
      · rw [hasAlias, hasAlias, field?, field?, Fields.get?_changeField, if_neg (by simp)]
      · rfl
  | array items => rfl
  | null => rfl
  | bool value => rfl
  | number mantissa places => rfl
  | string value => rfl

theorem hasAlias_padAll {table : Document} (regular : Regular table) (start : List String) :
    hasAlias (padAll start table) = hasAlias table := by
  rw [hasAlias, hasAlias, field?_padAll regular start (by decide)]

/-- Below a padded document stands, padded, what stood there. -/
theorem at?_padAll {document : Document} (regular : Regular document) (start : List String)
    {key : String} (mark : key ∈ marks) (front : Pointer) :
    (padAll start document).at? (front ++ [key]) =
      (document.at? (front ++ [key])).map fun value => (padField start (key, value)).2 := by
  have field : ∀ (fields : Fields) (step : String),
      Fields.get? (fields.map (padField start)) step =
        (Fields.get? fields step).map fun value => (padField start (step, value)).2 := by
    intro fields step
    induction fields with
    | nil => rfl
    | cons field rest ih =>
        rw [List.map_cons, Fields.get?_cons, Fields.get?_cons, ih]
        by_cases here : field.1 = step
        · subst here
          simp [padField]
        · simp [here, padField]
  induction front generalizing document with
  | nil =>
      cases document with
      | object fields =>
          rw [padAll_object, List.nil_append, at?_cons, at?_cons, child?, child?, field]
          cases Fields.get? fields key <;> rfl
      | array items =>
          rw [padAll_array, List.nil_append, at?_cons, at?_cons, child?_array_of_mark mark,
            child?_array_of_mark mark]
          rfl
      | null => rfl
      | bool value => rfl
      | number mantissa places => rfl
      | string value => rfl
  | cons step rest ih =>
      rw [List.cons_append, at?_cons, at?_cons]
      cases document with
      | object fields =>
          rw [padAll_object, child?, child?, field]
          cases found : Fields.get? fields step with
          | none => rfl
          | some child =>
              have below : Regular child := regular.child? found
              rw [Option.map_some, Option.bind_some, Option.bind_some, ← ih below, padField]
              split
              · exact at?_padTable (padAll_kept below start).1 start mark rest
              · rfl
      | array items =>
          rw [padAll_array, child?, child?]
          cases index : Pointer.index? step with
          | none => rfl
          | some i =>
              simp only [Option.bind_some, List.getElem?_map]
              cases item : items[i]? with
              | none => rfl
              | some child =>
                  have inside : (Document.array items).child? step = some child := by
                    rw [child?, index, Option.bind_some, item]
                  exact ih (regular.child? inside)
      | null => rfl
      | bool value => rfl
      | number mantissa places => rfl
      | string value => rfl

/-- Padding keeps all faults. -/
theorem faulty_padTables {document : Document} (regular : Regular document) (start : List String)
    (fault : Fault) (front : Pointer) :
    Faulty fault front (padTables start document) ↔ Faulty fault front document := by
  rw [padTables_eq_padAll regular, Faulty, Faulty, at?_padAll regular start fault.key_mem_marks]
  cases here : document.at? (front ++ [fault.key]) with
  | none => simp
  | some value =>
      simp only [Option.map_some, Option.some.injEq, exists_eq_left']
      have inner : Regular value := regular.at? here
      have compound : fault.key = "CompoundIdentifier" → padAll start value = value := by
        intro compound
        rw [compound] at here
        obtain ⟨fields, outer, field⟩ := exists_marked_of_at? (by decide) here
        obtain ⟨_, inert⟩ := (regular.at? outer).eq_column (by decide) field
        exact padAll_of_inert inert start
      cases fault with
      | unnamed => simp [padField, Fault.key, Fault.Shows, tableName?_padTable, tableName?_padAll inner]
      | aliased =>
          simp [padField, Fault.key, Fault.Shows, tableName?_padTable, tableName?_padAll inner,
            hasAlias_padTable, hasAlias_padAll inner]
      | bare => exact Iff.rfl
      | short => simp [padField, Fault.key, Fault.Shows, compound rfl]
      | lone => simp [padField, Fault.key, Fault.Shows, compound rfl]

/-! ## Aliases of tables -/

/-- The full names that a scope holds. -/
def Scope.Full (scope : Scope) : Prop :=
  (∀ table ∈ scope.tables, tableParts ≤ table.length) ∧
    ∀ entry ∈ scope.aliases, tableParts ≤ entry.2.length

theorem Scope.Full.add {scope : Scope} (full : scope.Full) {name : List String}
    (whole : tableParts ≤ name.length) (aliasName : Option String) :
    (scope.add name aliasName).Full := by
  constructor
  · exact List.forall_mem_append.2 ⟨full.1, List.forall_mem_singleton.2 whole⟩
  · cases aliasName with
    | none => exact full.2
    | some label => exact List.forall_mem_cons.2 ⟨whole, full.2⟩

/-- A document of regular statements in which every name of a table is full and no column with a
qualifier stands alone. -/
structure Whole (names : List (List (List String))) (document : Document) : Prop where
  lists : Lists names document
  full : ∀ tables ∈ names, ∀ name ∈ tables, tableParts ≤ name.length
  dotted : ∀ front, ¬ Faulty .lone front document

variable {names : List (List (List String))}

/-- A table that stands in a document is one of those it tells of. -/
theorem Whole.full_of_tableName? {document table : Document} (whole : Whole names document)
    {home : Pointer} (leads : document.at? (home ++ ["Table"]) = some table) {name : List String}
    (named : tableName? table = some name) : tableParts ≤ name.length := by
  obtain ⟨items, rfl, told⟩ := whole.lists.statements
  have listed : name ∈ tables (.array items) := by
    refine List.mem_filterMap.2 ⟨table, ?_, named⟩
    exact (mem_values_iff whole.lists.regular.keyed (by decide) (by simp)).2
      ⟨home, by simp, leads⟩
  rw [tables_array, List.flatMap_def, told] at listed
  obtain ⟨tables, inside, member⟩ := List.mem_flatten.1 listed
  exact whole.full tables inside name member

/-- The alias of a table, if it has one. -/
def tableAlias? (table : Document) : Option String :=
  ((table.field? "alias").bind (field? "name")).map identValue

/-- A table with a name loses its alias and joins the scope; without a name it is left alone. -/
theorem collectTable_cases (document : Document) (scope : Scope) (pointer : Pointer) :
    (collectTable (document, scope) pointer = (document, scope) ∧
      ∀ table, document.at? pointer = some table → tableName? table = none) ∨
    ∃ fields name, document.at? pointer = some (.object fields) ∧
      tableName? (.object fields) = some name ∧
      collectTable (document, scope) pointer =
        (changeAt (fun _ => .object (changeField "alias" (fun _ => .null) fields)) pointer document,
          scope.add name (tableAlias? (.object fields))) := by
  cases leads : document.at? pointer with
  | none => exact Or.inl ⟨by simp only [collectTable, leads], by simp⟩
  | some table =>
      cases table with
      | object fields =>
          have named : tableName? (.object fields) =
              ((Fields.get? fields "name").map identValues).filter fun name => !name.isEmpty := rfl
          cases found : (Fields.get? fields "name").map identValues with
          | none =>
              rw [found] at named
              exact Or.inl ⟨by simp [collectTable, leads, found], by simpa using named⟩
          | some name =>
              rw [found] at named
              by_cases empty : name = []
              · subst empty
                exact Or.inl ⟨by simp [collectTable, leads, found], by rintro _ ⟨⟩; exact named⟩
              · refine Or.inr ⟨fields, name, rfl, ?_, ?_⟩
                · simpa [Option.filter, empty] using named
                · simp [collectTable, leads, found, empty, tableAlias?, field?]
      | array items => exact Or.inl ⟨by simp only [collectTable, leads], by simp [tableName?, field?]⟩
      | null => exact Or.inl ⟨by simp only [collectTable, leads], by simp [tableName?, field?]⟩
      | bool value => exact Or.inl ⟨by simp only [collectTable, leads], by simp [tableName?, field?]⟩
      | number mantissa places =>
          exact Or.inl ⟨by simp only [collectTable, leads], by simp [tableName?, field?]⟩
      | string value => exact Or.inl ⟨by simp only [collectTable, leads], by simp [tableName?, field?]⟩

/-- To take a table into the scope removes its alias and no other fault. -/
theorem faulty_collectTable {document : Document} (regular : Regular document) (scope : Scope)
    (home : Pointer) (fault : Fault) (front : Pointer) :
    Faulty fault front (collectTable (document, scope) (home ++ ["Table"])).1 ↔
      Faulty fault front document ∧ ¬ (fault = .aliased ∧ front = home) := by
  rcases collectTable_cases document scope (home ++ ["Table"]) with
    ⟨same, unnamed⟩ | ⟨fields, name, leads, named, changed⟩
  · rw [same]
    refine ⟨fun faulty => ⟨faulty, ?_⟩, And.left⟩
    rintro ⟨rfl, rfl⟩
    obtain ⟨table, here, isNamed, _⟩ := faulty
    rw [unnamed table here] at isNamed
    cases isNamed
  · rw [changed]
    have several : Plain fields := by
      obtain ⟨label, found, _⟩ := Option.map_eq_some_iff.1 (Option.filter_eq_some_iff.1 named).1
      exact (regular.at? leads).plain found (by decide)
    by_cases here : front ++ [fault.key] = home ++ ["Table"]
    · obtain ⟨rfl, key⟩ := List.append_inj' here rfl
      have after := at?_changeAt_append
        (fun _ => .object (changeField "alias" (fun _ => .null) fields)) (front ++ ["Table"]) []
        document
      rw [List.append_nil, leads] at after
      have kept : tableName? (.object (changeField "alias" (fun _ => .null) fields)) = some name := by
        rw [← named, tableName?, tableName?, field?, field?, Fields.get?_changeField,
          if_neg (by simp)]
      have plain : hasAlias (.object (changeField "alias" (fun _ => .null) fields)) = false := by
        rw [hasAlias, field?, Fields.get?_changeField, if_pos rfl]
        cases Fields.get? fields "alias" <;> rfl
      rw [Faulty, Faulty, here, leads, after]
      simp only [at?, Option.bind_some, Option.some.injEq, exists_eq_left']
      cases fault with
      | unnamed => simp [Fault.Shows, kept, named]
      | aliased => simp [Fault.Shows, plain]
      | bare => simp [Fault.key] at key
      | short => simp [Fault.key] at key
      | lone => simp [Fault.key] at key
    · rw [faulty_replace regular (by decide) leads
        (fun middle other =>
          at?_changeField_label several (by decide) .null other.key_mem_marks middle) here]
      refine ⟨fun faulty => ⟨faulty, ?_⟩, And.left⟩
      rintro ⟨rfl, rfl⟩
      exact here rfl

theorem Whole.collectTable {document : Document} (whole : Whole names document) {scope : Scope}
    (full : scope.Full) (home : Pointer) :
    Whole names (collectTable (document, scope) (home ++ ["Table"])).1 ∧
      (Access.collectTable (document, scope) (home ++ ["Table"])).2.Full := by
  refine ⟨⟨whole.lists.collectTable scope home, whole.full, ?_⟩, ?_⟩
  · intro front lone
    exact whole.dotted front ((faulty_collectTable whole.lists.regular scope home _ front).1 lone).1
  · rcases collectTable_cases document scope (home ++ ["Table"]) with
      ⟨same, _⟩ | ⟨fields, name, leads, named, changed⟩
    · rw [same]
      exact full
    · rw [changed]
      exact full.add (whole.full_of_tableName? leads named) _

/-- To take several tables into the scope removes their aliases and no other fault. -/
theorem Whole.foldl_collectTable {document : Document} (whole : Whole names document)
    {scope : Scope} (full : scope.Full) {pointers : List Pointer}
    (ends : ∀ pointer ∈ pointers, ∃ front, pointer = front ++ ["Table"]) :
    (Whole names (pointers.foldl Access.collectTable (document, scope)).1 ∧
      (pointers.foldl Access.collectTable (document, scope)).2.Full) ∧
    ∀ fault front, Faulty fault front (pointers.foldl Access.collectTable (document, scope)).1 ↔
      Faulty fault front document ∧ ¬ (fault = .aliased ∧ front ++ ["Table"] ∈ pointers) := by
  induction pointers generalizing document scope with
  | nil => exact ⟨⟨whole, full⟩, by simp⟩
  | cons pointer rest ih =>
      obtain ⟨home, rfl⟩ := ends pointer List.mem_cons_self
      obtain ⟨nextWhole, nextFull⟩ := whole.collectTable full home
      obtain ⟨kept, faults⟩ := ih nextWhole nextFull
        fun other later => ends other (List.mem_cons_of_mem _ later)
      refine ⟨kept, ?_⟩
      intro fault front
      rw [List.foldl_cons, faults, faulty_collectTable whole.lists.regular, List.mem_cons,
        List.append_left_inj]
      tauto

/-! ## Columns -/

/-- A qualifier is written as the full name of a table. -/
theorem length_qualifierTable {scope : Scope} (full : scope.Full) {start qualifier : List String}
    (long : start.length = 3) (qualified : qualifier ≠ []) :
    tableParts ≤ (qualifierTable scope start qualifier).length := by
  have padded : tableParts ≤
      (start.take (min (tableParts - qualifier.length) 3) ++ qualifier).length := by
    have some := List.length_pos_iff.2 qualified
    rw [List.length_append, List.length_take, long, tableParts]
    omega
  cases qualifier with
  | nil => exact absurd rfl qualified
  | cons name rest =>
      cases rest with
      | cons second rest => exact padded
      | nil =>
          rw [qualifierTable]
          cases named : scope.aliases.find? fun entry => entry.1 == name with
          | some entry => exact full.2 entry (List.mem_of_find?_eq_some named)
          | none =>
              cases found : scope.tables.find? fun table => table.getLast? == some name with
              | some table => exact full.1 table (List.mem_of_find?_eq_some found)
              | none => exact padded

theorem length_identValues_chain (table : List String) (column : String) :
    (identValues (chain table column)).length = table.length + 1 := by
  simp [chain, identValues, items?]

/-- A column with a qualifier is written in full, which leaves all other faults. -/
theorem faulty_qualifyCompound {document : Document} (whole : Whole names document)
    {scope : Scope} (full : scope.Full) {start : List String} (long : start.length = 3)
    (home : Pointer) (fault : Fault) (front : Pointer) :
    Faulty fault front (qualifyCompound scope start document (home ++ ["CompoundIdentifier"])) ↔
      Faulty fault front document ∧ ¬ (fault.key = "CompoundIdentifier" ∧ front = home) := by
  cases leads : document.at? (home ++ ["CompoundIdentifier"]) with
  | none =>
      have same : qualifyCompound scope start document (home ++ ["CompoundIdentifier"]) = document := by
        simp [qualifyCompound, leads]
      rw [same]
      refine ⟨fun faulty => ⟨faulty, ?_⟩, And.left⟩
      rintro ⟨key, rfl⟩
      obtain ⟨value, here, _⟩ := faulty
      rw [key, leads] at here
      cases here
  | some parts =>
      have several : 2 ≤ (identValues parts).length := by
        by_contra few
        exact whole.dotted home ⟨parts, leads, by simp only [Fault.Shows]; omega⟩
      obtain ⟨qualifier, column, values⟩ : ∃ qualifier column,
          identValues parts = qualifier ++ [column] := by
        rcases List.eq_nil_or_concat (identValues parts) with empty | ⟨qualifier, column, values⟩
        · simp [empty] at several
        · exact ⟨qualifier, column, by rw [values, List.concat_eq_append]⟩
      have qualified : qualifier ≠ [] := by
        rintro rfl
        simp [values] at several
      have changed : qualifyCompound scope start document (home ++ ["CompoundIdentifier"]) =
          changeAt (fun _ => chain (qualifierTable scope start qualifier) column)
            (home ++ ["CompoundIdentifier"]) document := by
        simp [qualifyCompound, leads, values]
      rw [changed]
      by_cases here : front ++ [fault.key] = home ++ ["CompoundIdentifier"]
      · obtain ⟨rfl, key⟩ := List.append_inj' here rfl
        have after := at?_changeAt_append
          (fun _ => chain (qualifierTable scope start qualifier) column)
          (front ++ ["CompoundIdentifier"]) [] document
        have length := length_identValues_chain (qualifierTable scope start qualifier) column
        have whole := length_qualifierTable full long qualified
        rw [List.append_nil, leads] at after
        rw [Faulty, here, after]
        simp only [at?, Option.bind_some, Option.some.injEq, exists_eq_left']
        cases fault with
        | unnamed => simp [Fault.key] at key
        | aliased => simp [Fault.key] at key
        | bare => simp [Fault.key] at key
        | short => simp only [Fault.Shows, Fault.key, and_true, not_true, and_false, iff_false]; omega
        | lone =>
            simp only [Fault.Shows, Fault.key, and_true, not_true, and_false, iff_false]
            simp only [tableParts] at whole
            omega
      · obtain ⟨fields, outer, field⟩ := exists_marked_of_at? (by decide) leads
        obtain ⟨_, inert⟩ := (whole.lists.regular.at? outer).eq_column (by decide) field
        rw [faulty_replace whole.lists.regular (by decide) leads (fun middle other => by
          rw [at?_eq_none_of_inert inert other.key_mem_marks,
            at?_eq_none_of_inert (inert_chain _ _) other.key_mem_marks]) here]
        refine ⟨fun faulty => ⟨faulty, ?_⟩, And.left⟩
        rintro ⟨key, rfl⟩
        exact here (by rw [key])

theorem Whole.qualifyCompound {document : Document} (whole : Whole names document) {scope : Scope}
    (full : scope.Full) {start : List String} (long : start.length = 3) (home : Pointer) :
    Whole names (qualifyCompound scope start document (home ++ ["CompoundIdentifier"])) :=
  ⟨whole.lists.qualifyCompound scope start home, whole.full, fun front lone =>
    whole.dotted front ((faulty_qualifyCompound whole full long home _ front).1 lone).1⟩

/-- Several columns with qualifiers are written in full, which leaves all other faults. -/
theorem Whole.foldl_qualifyCompound {document : Document} (whole : Whole names document)
    {scope : Scope} (full : scope.Full) {start : List String} (long : start.length = 3)
    {pointers : List Pointer}
    (ends : ∀ pointer ∈ pointers, ∃ front, pointer = front ++ ["CompoundIdentifier"]) :
    Whole names (pointers.foldl (Access.qualifyCompound scope start) document) ∧
    ∀ fault front, Faulty fault front
        (pointers.foldl (Access.qualifyCompound scope start) document) ↔
      Faulty fault front document ∧
        ¬ (fault.key = "CompoundIdentifier" ∧ front ++ ["CompoundIdentifier"] ∈ pointers) := by
  induction pointers generalizing document with
  | nil => exact ⟨whole, by simp⟩
  | cons pointer rest ih =>
      obtain ⟨home, rfl⟩ := ends pointer List.mem_cons_self
      obtain ⟨kept, faults⟩ := ih (whole.qualifyCompound full long home)
        fun other later => ends other (List.mem_cons_of_mem _ later)
      refine ⟨kept, ?_⟩
      intro fault front
      rw [List.foldl_cons, faults, faulty_qualifyCompound whole full long, List.mem_cons,
        List.append_left_inj]
      tauto

theorem mem_of_owners {inspector : Inspector} {placeholder column : String}
    {tables found : List (List String)}
    (done : owners inspector placeholder column tables = .ok found) :
    ∀ table ∈ found, table ∈ tables := by
  induction tables generalizing found with
  | nil =>
      cases done
      exact fun table listed => listed
  | cons first rest ih =>
      rw [owners] at done
      obtain ⟨columns, _, done⟩ := Result.bind_eq_ok.1 done
      obtain ⟨others, later, done⟩ := Result.bind_eq_ok.1 done
      cases done
      intro table listed
      split at listed
      · rcases List.mem_cons.1 listed with rfl | behind
        · exact List.mem_cons_self
        · exact List.mem_cons_of_mem _ (ih later table behind)
      · exact List.mem_cons_of_mem _ (ih later table listed)

theorem mem_of_owner {inspector : Inspector} {placeholder column : String}
    {tables : List (List String)} {table : List String}
    (done : owner inspector placeholder tables column = .ok table) : table ∈ tables := by
  rw [owner] at done
  obtain ⟨found, owned, done⟩ := Result.bind_eq_ok.1 done
  split at done
  · cases done
  · cases done
    exact mem_of_owners owned table List.mem_cons_self
  · cases done

/-- What stands below a column is told of by no fault but its own. -/
theorem at?_column_of_ne {key other : String} {value : Document} (inert : Inert value)
    (mark : other ∈ marks) {front : Pointer} (apart : front ++ [other] ≠ [key]) :
    (Document.object [(key, value)]).at? (front ++ [other]) = none := by
  cases front with
  | nil =>
      have differ : key ≠ other := fun same => apart (by rw [same, List.nil_append])
      simp [at?, child?, Fields.get?, differ]
  | cons step rest =>
      rw [List.cons_append, at?_cons, child?, Fields.get?_cons]
      split
      · rw [Option.bind_some]
        exact at?_eq_none_of_inert inert mark rest
      · rfl

/-- Columns that stand alone show the same faults where they are taken for something else. -/
theorem shows_of_object {fault : Fault} {fields others : Fields}
    (nameless : Fields.get? fields "name" = none) (others_nameless : Fields.get? others "name" = none) :
    fault.Shows (.object fields) ↔ fault.Shows (.object others) := by
  cases fault <;> simp [Fault.Shows, tableName?, field?, nameless, others_nameless, identValues, items?]

/-- A column that is written in full has no fault. -/
theorem not_shows_chain {table : List String} (full : tableParts ≤ table.length) (column : String)
    (fault : Fault) (value : Document)
    (here : (Document.object [("CompoundIdentifier", chain table column)]).at? [fault.key] =
      some value) : ¬ fault.Shows value := by
  have length := length_identValues_chain table column
  cases fault with
  | unnamed => simp [Fault.key, at?, child?, Fields.get?] at here
  | aliased => simp [Fault.key, at?, child?, Fields.get?] at here
  | bare => simp [Fault.key, at?, child?, Fields.get?] at here
  | short =>
      simp only [Fault.key, at?, child?, Fields.get?_cons, if_true, Option.bind_some,
        Option.some.injEq] at here
      rw [Fault.Shows, ← here]
      omega
  | lone =>
      simp only [Fault.key, at?, child?, Fields.get?_cons, if_true, Option.bind_some,
        Option.some.injEq] at here
      simp only [tableParts] at full
      rw [Fault.Shows, ← here]
      omega

/-- A bare column is written in full, which leaves all other faults. -/
theorem faulty_qualifyBare {document after found : Document} (whole : Whole names document)
    {scope : Scope} (full : scope.Full) {inspector : Inspector} {placeholder : String}
    {home : Pointer} (leads : document.at? home = some found) (column : Column found)
    (done : qualifyBare inspector placeholder scope document (home ++ ["Identifier"]) = .ok after)
    (fault : Fault) (front : Pointer) :
    Faulty fault front after ↔ Faulty fault front document ∧ front ≠ home := by
  rw [qualifyBare] at done
  obtain ⟨table, owned, done⟩ := Result.bind_eq_ok.1 done
  obtain rfl := Result.pure_eq_ok.1 done
  rw [List.dropLast_concat]
  generalize ((document.at? (home ++ ["Identifier"])).map identValue).getD "" = label
  have long := full.1 table (mem_of_owner owned)
  cases column with
  | @intro key value mark inert =>
      have isMark : key ∈ marks :=
        mem_marks_of_mem_loneMarks (List.mem_append_left ["ExprWithAlias"] mark)
      have leadsBelow : document.at? (home ++ [key]) = some value := by
        rw [at?_append, leads]
        simp [at?, child?, Fields.get?]
      by_cases apart : home <+: front ++ [fault.key]
      · obtain ⟨tail, same⟩ := apart
        rw [Faulty, Faulty, ← same, at?_changeAt_append, at?_append, leads, Option.bind_some,
          Option.bind_some]
        rcases List.eq_nil_or_concat tail with rfl | ⟨middle, last, rfl⟩
        · have deeper : front ≠ home := by
            rintro rfl
            simpa using congrArg List.length same
          have nameless : ∀ key ∈ ["Identifier", "CompoundIdentifier"], key ≠ "name" := by decide
          simp only [at?, Option.some.injEq, exists_eq_left', deeper, ne_eq, not_false_eq_true,
            and_true, Document.single]
          exact shows_of_object (by simp [Fields.get?])
            (by simp [Fields.get?, nameless key mark])
        · rw [List.concat_eq_append] at same ⊢
          rw [← List.append_assoc] at same
          obtain ⟨rfl, ends⟩ := List.append_inj' same rfl
          obtain rfl := List.singleton_inj.1 ends
          rw [Document.single]
          cases middle with
          | nil => simpa using not_shows_chain long label fault
          | cons step rest =>
              rw [at?_column_of_ne (inert_chain table label) fault.key_mem_marks (by simp),
                at?_column_of_ne inert fault.key_mem_marks (by simp)]
              simp
      · rw [faulty_changeAt_of_elsewhere whole.lists.regular isMark rfl leadsBelow _ apart]
        refine ⟨fun faulty => ⟨faulty, ?_⟩, And.left⟩
        rintro rfl
        exact apart (List.prefix_append _ _)

/-- Several bare columns are written in full, which leaves all other faults. -/
theorem Whole.foldlM_qualifyBare {document after : Document} (whole : Whole names document)
    {scope : Scope} (full : scope.Full) {inspector : Inspector} {placeholder : String}
    {pointers : List Pointer}
    (ends : ∀ pointer ∈ pointers, ∃ front, pointer = front ++ ["Identifier"])
    (columns : ∀ pointer ∈ pointers,
      ∃ found, document.at? pointer.dropLast = some found ∧ Column found)
    (done : pointers.foldlM (qualifyBare inspector placeholder scope) document = .ok after) :
    Whole names after ∧ ∀ fault front, Faulty fault front after ↔
      Faulty fault front document ∧ front ++ ["Identifier"] ∉ pointers := by
  induction pointers generalizing document with
  | nil =>
      cases done
      exact ⟨whole, by simp⟩
  | cons pointer rest ih =>
      rw [List.foldlM_cons] at done
      obtain ⟨next, first, remaining⟩ := Result.bind_eq_ok.1 done
      obtain ⟨nextLists, nextColumns⟩ := whole.lists.qualifyBare columns first
      obtain ⟨home, rfl⟩ := ends pointer List.mem_cons_self
      obtain ⟨found, leads, column⟩ := columns _ List.mem_cons_self
      rw [List.dropLast_concat] at leads
      have step := faulty_qualifyBare whole full leads column first
      have nextWhole : Whole names next := ⟨nextLists, whole.full, fun front lone =>
        whole.dotted front ((step .lone front).1 lone).1⟩
      obtain ⟨kept, faults⟩ := ih nextWhole (fun other later => ends other (List.mem_cons_of_mem _ later))
        nextColumns remaining
      refine ⟨kept, ?_⟩
      intro fault front
      rw [faults, step, List.mem_cons, List.append_left_inj]
      tauto

/-! ## One SELECT -/

/-- A SELECT reaches the tables in its FROM and all columns in it, where no other SELECT lies in
between. -/
def Reaches (select : Pointer) : Fault → Pointer → Prop
  | .unnamed, _ => False
  | .aliased, front => ∃ middle, front = select ++ ["from"] ++ middle ∧ "Select" ∉ middle
  | .bare, front => ∃ middle, front = select ++ middle ∧ "Select" ∉ middle
  | .short, front => ∃ middle, front = select ++ middle ∧ "Select" ∉ middle
  | .lone, front => ∃ middle, front = select ++ middle ∧ "Select" ∉ middle

/-- A fault is listed below a position just if no SELECT lies in between. -/
theorem mem_findBelow_of_faulty {document : Document} (regular : Regular document) {fault : Fault}
    {front : Pointer} (faulty : Faulty fault front document) (base : Pointer) :
    front ++ [fault.key] ∈ document.findBelow fault.key base (some "Select") ↔
      ∃ middle, front = base ++ middle ∧ "Select" ∉ middle := by
  obtain ⟨value, leads, _⟩ := faulty
  have noIndex : ∀ name, some "Select" = some name → Pointer.index? name = none := by
    rintro _ ⟨⟩
    decide
  rw [mem_findBelow_iff regular.keyed (index?_of_mem_marks fault.key_mem_marks) noIndex]
  simp [leads, List.forall_mem_ne]

/-- A column stands alone: where another fault shows, no bare column is listed. -/
theorem not_mem_findBelow_of_faulty {document : Document} (regular : Regular document)
    {fault : Fault} (other : fault.key ≠ "Identifier") {front : Pointer}
    (faulty : Faulty fault front document) (base : Pointer) :
    front ++ ["Identifier"] ∉ document.findBelow "Identifier" base (some "Select") := by
  intro listed
  obtain ⟨value, leads⟩ := exists_at?_of_mem_findBelow regular.keyed listed
  obtain ⟨found, alsoLeads, _⟩ := faulty
  obtain ⟨fields, here, field⟩ := exists_marked_of_at? (by decide) leads
  obtain ⟨alone, _⟩ := (regular.at? here).eq_column (by decide) field
  rw [at?_append, here, alone, Option.bind_some, at?_cons, child?, Fields.get?_cons,
    if_neg (Ne.symm other)] at alsoLeads
  cases alsoLeads

/-- The columns and tables that a SELECT reaches are written in full; every other fault stays. -/
theorem Whole.qualifySelect {document after : Document} (whole : Whole names document)
    {inspector : Inspector} {start : List String} (long : start.length = 3) {placeholder : String}
    {select : Pointer}
    (done : qualifySelect inspector start placeholder document select = .ok after) :
    Whole names after ∧ ∀ fault front, Faulty fault front after ↔
      Faulty fault front document ∧ ¬ Reaches select fault front := by
  rw [Access.qualifySelect, collectTables] at done
  have none : Scope.Full {} := ⟨List.forall_mem_nil _, List.forall_mem_nil _⟩
  obtain ⟨⟨collected, full⟩, tableFaults⟩ := whole.foldl_collectTable none
    fun pointer (listed : pointer ∈ document.findBelow "Table" (select ++ ["from"]) (some "Select")) =>
      exists_front_of_mem_findBelow listed
  generalize List.foldl Access.collectTable _ _ = state at done collected full tableFaults
  obtain ⟨qualified, compoundFaults⟩ := collected.foldl_qualifyCompound full long
    fun pointer
      (listed : pointer ∈ state.1.findBelow "CompoundIdentifier" select (some "Select")) =>
        exists_front_of_mem_findBelow listed
  simp only at done
  generalize List.foldl (Access.qualifyCompound _ _) _ _ = written at done qualified compoundFaults
  obtain ⟨kept, bareFaults⟩ := qualified.foldlM_qualifyBare full
    (fun pointer listed => exists_front_of_mem_findBelow listed)
    (fun pointer listed => exists_column_of_mem_findBelow qualified.lists.regular listed) done
  refine ⟨kept, ?_⟩
  intro fault front
  have alone : fault.key ≠ "Identifier" → (Faulty fault front after ↔ Faulty fault front written) := by
    intro other
    rw [bareFaults]
    exact and_iff_left_of_imp fun faulty =>
      not_mem_findBelow_of_faulty qualified.lists.regular other faulty select
  cases fault with
  | unnamed =>
      rw [alone (by decide), compoundFaults, tableFaults]
      simp [Fault.key, Reaches]
  | aliased =>
      rw [alone (by decide), compoundFaults, tableFaults]
      simp only [Fault.key, String.reduceEq, false_and, not_false_eq_true, and_true, true_and, Reaches]
      exact and_congr_right fun faulty =>
        not_congr (mem_findBelow_of_faulty whole.lists.regular faulty (select ++ ["from"]))
  | bare =>
      have before : Faulty .bare front written ↔ Faulty .bare front document := by
        rw [compoundFaults, tableFaults]
        simp [Fault.key]
      rw [bareFaults, ← before]
      exact and_congr_right fun faulty =>
        not_congr (mem_findBelow_of_faulty qualified.lists.regular faulty select)
  | short =>
      have before : Faulty .short front state.1 ↔ Faulty .short front document := by
        rw [tableFaults]
        simp
      rw [alone (by decide), compoundFaults, ← before]
      simp only [Fault.key, true_and, Reaches]
      exact and_congr_right fun faulty =>
        not_congr (mem_findBelow_of_faulty collected.lists.regular faulty select)
  | lone =>
      have before : Faulty .lone front state.1 ↔ Faulty .lone front document := by
        rw [tableFaults]
        simp
      rw [alone (by decide), compoundFaults, ← before]
      simp only [Fault.key, true_and, Reaches]
      exact and_congr_right fun faulty =>
        not_congr (mem_findBelow_of_faulty collected.lists.regular faulty select)

theorem Whole.qualifySelects {document after : Document} (whole : Whole names document)
    {inspector : Inspector} {start : List String} (long : start.length = 3) {placeholder : String}
    {selects : List Pointer}
    (done : selects.foldlM (Access.qualifySelect inspector start placeholder) document = .ok after) :
    Whole names after ∧ ∀ fault front, Faulty fault front after ↔
      Faulty fault front document ∧ ∀ select ∈ selects, ¬ Reaches select fault front := by
  induction selects generalizing document with
  | nil =>
      cases done
      exact ⟨whole, by simp⟩
  | cons select rest ih =>
      rw [List.foldlM_cons] at done
      obtain ⟨next, first, remaining⟩ := Result.bind_eq_ok.1 done
      obtain ⟨nextWhole, step⟩ := whole.qualifySelect long first
      obtain ⟨kept, faults⟩ := ih nextWhole remaining
      refine ⟨kept, ?_⟩
      intro fault front
      rw [faults, step, List.forall_mem_cons, and_assoc]

/-! ## Aliases of expressions -/

/-- What is found below an object with one other field lies in that field. -/
theorem exists_rest_of_at?_single {name key : String} {inner value : Document} (differ : name ≠ key)
    {middle : Pointer}
    (leads : (Document.object [(name, inner)]).at? (middle ++ [key]) = some value) :
    ∃ rest, middle = name :: rest ∧ inner.at? (rest ++ [key]) = some value := by
  cases middle with
  | nil => simp [at?, child?, Fields.get?, differ] at leads
  | cons step rest =>
      rw [List.cons_append, at?_cons, child?, Fields.get?_cons] at leads
      split at leads
      · rename_i here
        exact ⟨rest, by rw [← here], leads⟩
      · cases leads

/-- Below an expression beside its alias every mark lies in the expression. -/
theorem exists_rest_of_at?_beside {label expr value : Document} (inert : Inert label) {key : String}
    (mark : key ∈ marks) {middle : Pointer}
    (leads : (Document.object [("alias", label), ("expr", expr)]).at? (middle ++ [key]) =
      some value) :
    ∃ rest, middle = "expr" :: rest ∧ expr.at? (rest ++ [key]) = some value := by
  have apart : ∀ name ∈ marks, "alias" ≠ name ∧ "expr" ≠ name := by decide
  cases middle with
  | nil => simp [at?, child?, Fields.get?, apart key mark] at leads
  | cons step rest =>
      rw [List.cons_append, at?_cons, child?, Fields.get?_cons, Fields.get?_cons] at leads
      split at leads
      · rw [Option.bind_some, at?_eq_none_of_inert inert mark] at leads
        cases leads
      · split at leads
        · rename_i there
          exact ⟨rest, by rw [← there], leads⟩
        · cases leads

/-- To write an expression without its alias moves faults, but removes none. -/
theorem exists_faulty_stripAlias {document : Document} (regular : Regular document)
    (home : Pointer) (fault : Fault) :
    (∃ front, Faulty fault front (stripAlias document (home ++ ["ExprWithAlias"]))) ↔
      ∃ front, Faulty fault front document := by
  cases leads : document.at? (home ++ ["ExprWithAlias"]) with
  | none =>
      have same : stripAlias document (home ++ ["ExprWithAlias"]) = document := by
        simp [stripAlias, leads]
      rw [same]
  | some value =>
      obtain ⟨fields, here, field⟩ := exists_marked_of_at? (by decide) leads
      obtain ⟨label, expr, alone, rfl, inert, inner⟩ := (regular.at? here).eq_aliased field
      rw [alone] at here
      have changed : stripAlias document (home ++ ["ExprWithAlias"]) =
          changeAt (fun _ => .object [("UnnamedExpr", expr)]) home document := by
        simp [stripAlias, leads, field?, Fields.get?, Document.single]
      have beside : ∀ front, ¬ home <+: front ++ [fault.key] →
          (Faulty fault front (changeAt (fun _ => .object [("UnnamedExpr", expr)]) home document) ↔
            Faulty fault front document) := fun front apart =>
        faulty_changeAt_of_elsewhere regular (by decide) rfl leads _ apart
      have lone : ∀ name ∈ ["UnnamedExpr", "ExprWithAlias"], name ≠ fault.key := by
        cases fault <;> decide
      rw [changed]
      constructor
      · rintro ⟨front, faulty⟩
        by_cases apart : home <+: front ++ [fault.key]
        · obtain ⟨tail, same⟩ := apart
          obtain ⟨value, found, shows⟩ := faulty
          rw [← same, at?_changeAt_append, here, Option.bind_some] at found
          rcases List.eq_nil_or_concat tail with rfl | ⟨middle, last, rfl⟩
          · cases found
            rw [List.append_nil] at same
            exact ⟨front, _, same ▸ here, (shows_of_object rfl rfl).1 shows⟩
          · rw [List.concat_eq_append] at same found
            obtain ⟨middle, ends, _⟩ := exists_middle_of_append same (by simp)
            rw [ends] at found
            obtain ⟨rest, _, below⟩ := exists_rest_of_at?_single (lone "UnnamedExpr" (by simp)) found
            refine ⟨home ++ "ExprWithAlias" :: "expr" :: rest, value, ?_, shows⟩
            rw [List.append_assoc, at?_append, here]
            exact below
        · exact ⟨front, (beside front apart).1 faulty⟩
      · rintro ⟨front, faulty⟩
        by_cases apart : home <+: front ++ [fault.key]
        · obtain ⟨tail, same⟩ := apart
          obtain ⟨value, found, shows⟩ := faulty
          rw [← same, at?_append, here, Option.bind_some] at found
          rcases List.eq_nil_or_concat tail with rfl | ⟨middle, last, rfl⟩
          · cases found
            refine ⟨front, .object [("UnnamedExpr", expr)], ?_, (shows_of_object rfl rfl).1 shows⟩
            rw [← same, at?_changeAt_append, here]
            rfl
          · rw [List.concat_eq_append] at same found
            obtain ⟨middle, ends, _⟩ := exists_middle_of_append same (by simp)
            rw [ends] at found
            obtain ⟨outer, _, inside⟩ :=
              exists_rest_of_at?_single (lone "ExprWithAlias" (by simp)) found
            obtain ⟨rest, _, below⟩ := exists_rest_of_at?_beside inert fault.key_mem_marks inside
            refine ⟨home ++ "UnnamedExpr" :: rest, value, ?_, shows⟩
            rw [List.append_assoc, at?_changeAt_append, here]
            exact below
        · exact ⟨front, (beside front apart).2 faulty⟩

/-- To write all expressions without aliases removes no faults and brings none. -/
theorem Lists.exists_faulty_stripAliases {document : Document} (lists : Lists names document)
    (fault : Fault) :
    (∃ front, Faulty fault front (Access.stripAliases document)) ↔
      ∃ front, Faulty fault front document := by
  have kept : ∀ (pointers : List Pointer) (found : Document),
      (∀ pointer ∈ pointers, ∃ front, pointer = front ++ ["ExprWithAlias"]) → Lists names found →
        ((∃ front, Faulty fault front (pointers.foldl Access.stripAlias found)) ↔
          ∃ front, Faulty fault front found) := by
    intro pointers
    induction pointers with
    | nil => exact fun found _ _ => Iff.rfl
    | cons pointer rest ih =>
        intro found ends before
        obtain ⟨home, rfl⟩ := ends pointer List.mem_cons_self
        exact (ih _ (fun other later => ends other (List.mem_cons_of_mem _ later))
          (before.stripAlias home)).trans (exists_faulty_stripAlias before.regular home fault)
  exact kept _ _ (fun pointer listed => exists_front_of_mem_find _ none document listed) lists

end Access
end SemanticLayer
