import SemanticLayer.Proofs.Padding

/-!
# Qualification keeps the tables

Every pass of `prepare` keeps the document of a text a list of regular statements, and each
statement tells of the tables it told of before, with their names padded.
-/

namespace SemanticLayer
namespace Access

open Document

/-- A list of regular statements that tell of the given tables. -/
structure Lists (names : List (List (List String))) (document : Document) : Prop where
  regular : Regular document
  statements : ∃ items, document = .array items ∧ items.map tables = names

variable {names : List (List (List String))}

/-- A change at a marked position that keeps the tables found there keeps those of each
statement. -/
theorem Lists.changeAt
    {document found : Document} {pointer : Pointer} {change : Document → Document}
    (lists : Lists names document) (leads : document.at? pointer = some found)
    (marked : Marked found) (kept : Regular (change found))
    (same : SameTables (change found) found) :
    Lists names (Document.changeAt change pointer document) := by
  obtain ⟨items, rfl, told⟩ := lists.statements
  constructor
  · exact (regular_changeAt lists.regular leads marked kept same).1
  · cases pointer with
    | nil =>
        cases leads
        cases marked
    | cons step rest =>
        rw [at?_cons] at leads
        obtain ⟨child, here, below⟩ := Option.bind_eq_some_iff.1 leads
        have inner := regular_changeAt (lists.regular.child? here) below marked kept same
        obtain ⟨i, index, item⟩ := Option.bind_eq_some_iff.1 here
        simp only [Document.changeAt, index]
        exact ⟨_, rfl, by rw [map_tables_modify item inner.2.tables, told]⟩

/-- A position below a mark lies in a marked object. -/
theorem exists_marked_of_at? {document value : Document} {front : Pointer} {key : String}
    (mark : key ∈ marks) (leads : document.at? (front ++ [key]) = some value) :
    ∃ fields, document.at? front = some (.object fields) ∧ Fields.get? fields key = some value := by
  rw [at?_append] at leads
  obtain ⟨parent, here, below⟩ := Option.bind_eq_some_iff.1 leads
  rw [at?_cons] at below
  obtain ⟨child, field, same⟩ := Option.bind_eq_some_iff.1 below
  cases same
  cases parent with
  | object fields => exact ⟨fields, here, field⟩
  | array items =>
      rw [child?_array_of_mark mark] at field
      cases field
  | null => cases field
  | bool value => cases field
  | number mantissa places => cases field
  | string value => cases field

theorem marked_of_get? {fields : Fields} {key : String} {value : Document}
    (mark : key ∈ marks) (found : Fields.get? fields key = some value) :
    Marked (.object fields) :=
  ⟨mark, Fields.mem_of_get?_eq_some found⟩

/-- A marked field gets a new value, such that its object stays regular and tells of the same
tables. -/
theorem Lists.replaceAt
    {document value new : Document} {front : Pointer} {key : String}
    (lists : Lists names document) (mark : key ∈ marks)
    (leads : document.at? (front ++ [key]) = some value)
    (kept : ∀ fields, Fields.get? fields key = some value → Regular (.object fields) →
      Regular (.object (changeField key (fun _ => new) fields)) ∧
        SameTables (.object (changeField key (fun _ => new) fields)) (.object fields)) :
    Lists names (Document.changeAt (fun _ => new) (front ++ [key]) document) := by
  obtain ⟨fields, here, found⟩ := exists_marked_of_at? mark leads
  obtain ⟨regular, same⟩ := kept fields found (lists.regular.at? here)
  rw [changeAt_append]
  exact lists.changeAt here (marked_of_get? mark found) regular same

/-! ## Aliases of tables -/

/-- A table without its alias is regular and called as before. -/
theorem plain_withoutAlias {fields : Fields} (plain : Plain fields) :
    Regular (.object (changeField "alias" (fun _ => .null) fields)) ∧
      SameTables (.object (changeField "alias" (fun _ => .null) fields)) (.object fields) := by
  cases found : Fields.get? fields "alias" with
  | none =>
      rw [changeField_eq_self ((Fields.get?_eq_none_iff fields "alias").1 found)]
      exact ⟨plain.regular, .refl _⟩
  | some label =>
      have inert : Inert label :=
        plain.named _ (Fields.mem_of_get?_eq_some found) (by simp [labels])
      constructor
      · exact (plain.changeField found .null fun _ => .null).regular
      · constructor
        · apply tables_changeField plain.distinct found
          rw [tablesInField_of_inert .null (by simp), tablesInField_of_inert inert (by simp)]
        · rw [tableName?, tableName?, field?, field?, Fields.get?_changeField,
            if_neg (by simp)]

theorem Lists.collectTable {document : Document} (lists : Lists names document) (scope : Scope)
    (front : Pointer) : Lists names (collectTable (document, scope) (front ++ ["Table"])).1 := by
  cases leads : document.at? (front ++ ["Table"]) with
  | none => simpa only [Access.collectTable, leads] using lists
  | some table =>
      cases table with
      | object fields =>
          cases name : Fields.get? fields "name" with
          | none => simpa [Access.collectTable, leads, name] using lists
          | some label =>
              by_cases empty : identValues label = []
              · simpa [Access.collectTable, leads, name, empty] using lists
              · have plain : Plain fields :=
                  (lists.regular.at? leads).plain name (by decide)
                obtain ⟨keptTable, sameTable⟩ := plain_withoutAlias plain
                have changed := lists.replaceAt (by decide) leads fun outer field regular =>
                  have several : Plain outer := regular.plain field (by decide)
                  ⟨(several.changeField field keptTable fun label =>
                      absurd label (by decide)).regular,
                    SameTables.changeField several.distinct field (by decide) sameTable⟩
                simpa [Access.collectTable, leads, name, empty] using changed
      | array items => simpa only [Access.collectTable, leads] using lists
      | null => simpa only [Access.collectTable, leads] using lists
      | bool value => simpa only [Access.collectTable, leads] using lists
      | number mantissa places => simpa only [Access.collectTable, leads] using lists
      | string value => simpa only [Access.collectTable, leads] using lists

theorem Lists.collectTables {document : Document} (lists : Lists names document)
    (select : Pointer) : Lists names (collectTables document select).1 := by
  have kept : ∀ (pointers : List Pointer) (state : Document × Scope),
      (∀ pointer ∈ pointers, ∃ front, pointer = front ++ ["Table"]) → Lists names state.1 →
        Lists names (pointers.foldl Access.collectTable state).1 := by
    intro pointers
    induction pointers with
    | nil =>
        intro state _ before
        exact before
    | cons pointer rest ih =>
        intro state ends before
        obtain ⟨front, rfl⟩ := ends pointer List.mem_cons_self
        exact ih _ (fun other later => ends other (List.mem_cons_of_mem _ later))
          (before.collectTable state.2 front)
  exact kept _ _ (fun pointer listed => exists_front_of_mem_findBelow listed) lists

/-! ## Columns -/

theorem inert_chain (table : List String) (column : String) : Inert (chain table column) := by
  rw [chain]
  apply Inert.array
  intro part listed
  obtain ⟨value, _, rfl⟩ := List.mem_map.1 listed
  exact inert_makeIdent value

/-- A column tells of no table. -/
theorem sameTables_column {first second : String} {value new : Document}
    (firstMark : first ∈ ["Identifier", "CompoundIdentifier"])
    (secondMark : second ∈ ["Identifier", "CompoundIdentifier"])
    (inert : Inert value) (newInert : Inert new) :
    SameTables (.object [(second, new)]) (.object [(first, value)]) := by
  have noTable : ∀ key ∈ ["Identifier", "CompoundIdentifier"],
      key ≠ "Table" ∧ key ≠ "name" := by decide
  constructor
  · rw [tables_object, tables_object, List.flatMap_singleton, List.flatMap_singleton,
      tablesInField_of_inert newInert (noTable second secondMark).1,
      tablesInField_of_inert inert (noTable first firstMark).1]
  · simp [tableName?, field?, Fields.get?, noTable first firstMark, noTable second secondMark]

theorem Lists.qualifyCompound {document : Document} (lists : Lists names document)
    (scope : Scope) (start : List String) (front : Pointer) :
    Lists names
      (qualifyCompound scope start document (front ++ ["CompoundIdentifier"])) := by
  cases leads : document.at? (front ++ ["CompoundIdentifier"]) with
  | none => simpa [Access.qualifyCompound, leads] using lists
  | some parts =>
      cases last : (identValues parts).getLast? with
      | none => simpa [Access.qualifyCompound, leads, last] using lists
      | some column =>
          have changed := lists.replaceAt (by decide) leads fun fields field regular => by
            obtain ⟨alone, inert⟩ := regular.eq_column (by decide) field
            cases alone
            have shape : changeField "CompoundIdentifier"
                (fun _ => chain (qualifierTable scope start (identValues parts).dropLast) column)
                [("CompoundIdentifier", parts)] = [("CompoundIdentifier",
                  chain (qualifierTable scope start (identValues parts).dropLast) column)] := rfl
            rw [shape]
            exact ⟨.column (by decide) (inert_chain _ _),
              sameTables_column (by decide) (by decide) inert (inert_chain _ _)⟩
          simpa [Access.qualifyCompound, leads, last] using changed

theorem Lists.qualifyCompounds {document : Document} (lists : Lists names document)
    (scope : Scope) (start : List String) {pointers : List Pointer}
    (ends : ∀ pointer ∈ pointers, ∃ front, pointer = front ++ ["CompoundIdentifier"]) :
    Lists names (pointers.foldl (Access.qualifyCompound scope start) document) := by
  induction pointers generalizing document with
  | nil => exact lists
  | cons pointer rest ih =>
      obtain ⟨front, rfl⟩ := ends pointer List.mem_cons_self
      exact ih (lists.qualifyCompound scope start front)
        fun other later => ends other (List.mem_cons_of_mem _ later)

/-- A column that stands alone. -/
inductive Column : Document → Prop
  | intro {key : String} {value : Document} (mark : key ∈ ["Identifier", "CompoundIdentifier"])
      (inert : Inert value) : Column (.object [(key, value)])

theorem Column.marked {document : Document} (column : Column document) : Marked document := by
  cases column with
  | intro mark _ =>
      exact ⟨mem_marks_of_mem_loneMarks (List.mem_append_left ["ExprWithAlias"] mark),
        List.mem_singleton_self _⟩

/-- Nothing marked lies below a column. -/
theorem Column.at?_cons_ne {document found : Document} (column : Column document)
    (marked : Marked found) (step : String) (rest : Pointer) :
    document.at? (step :: rest) ≠ some found := by
  intro leads
  rw [at?_cons] at leads
  obtain ⟨child, here, below⟩ := Option.bind_eq_some_iff.1 leads
  cases column with
  | intro _ inert =>
      have only := Fields.mem_of_get?_eq_some here
      simp only [List.mem_singleton, Prod.mk.injEq] at only
      exact (only.2 ▸ inert).at?_ne_marked marked below

/-- Where one column takes the place of another, every other column is where it was. -/
theorem exists_column_changeAt
    {document first second : Document} {pointer other : Pointer} {change : Document → Document}
    (leads : document.at? pointer = some first) (column : Column first)
    (alsoLeads : document.at? other = some second) (alsoColumn : Column second)
    (kept : Column (change first)) :
    ∃ found, (Document.changeAt change pointer document).at? other = some found ∧
      Column found := by
  induction pointer generalizing document other with
  | nil =>
      cases leads
      cases other with
      | nil => exact ⟨_, rfl, kept⟩
      | cons step rest => exact absurd alsoLeads (column.at?_cons_ne alsoColumn.marked step rest)
  | cons step rest ih =>
      cases other with
      | nil =>
          cases alsoLeads
          exact absurd leads (alsoColumn.at?_cons_ne column.marked step rest)
      | cons next later =>
          rw [at?_cons] at leads alsoLeads
          obtain ⟨child, here, below⟩ := Option.bind_eq_some_iff.1 leads
          obtain ⟨child', here', below'⟩ := Option.bind_eq_some_iff.1 alsoLeads
          cases document with
          | object fields =>
              rw [Document.changeAt, at?_cons, child?, Fields.get?_changeField]
              have found' : Fields.get? fields next = some child' := here'
              by_cases same : next = step
              · subst same
                have children : child = child' := Option.some.inj (here.symm.trans here')
                subst children
                rw [if_pos rfl, found', Option.map_some, Option.bind_some]
                exact ih below below'
              · rw [if_neg same, found', Option.bind_some]
                exact ⟨second, below', alsoColumn⟩
          | array items =>
              obtain ⟨i, index, item⟩ := Option.bind_eq_some_iff.1 here
              obtain ⟨j, index', item'⟩ := Option.bind_eq_some_iff.1 here'
              simp only [Document.changeAt, index, at?_cons, child?, index', Option.bind_some,
                List.getElem?_modify, item']
              by_cases same : i = j
              · subst same
                have children : child = child' := Option.some.inj (item.symm.trans item')
                subst children
                simpa using ih below below'
              · simpa [same] using ⟨second, below', alsoColumn⟩
          | null => cases here
          | bool value => cases here
          | number mantissa places => cases here
          | string value => cases here

/-- A bare column that is found is written in full; the other columns stay where they are. -/
theorem Lists.qualifyBare
    {document after : Document} (lists : Lists names document) {inspector : Inspector}
    {placeholder : String} {scope : Scope} {pointer : Pointer} {pointers : List Pointer}
    (columns : ∀ place ∈ pointer :: pointers,
      ∃ found, document.at? place.dropLast = some found ∧ Column found)
    (done : qualifyBare inspector placeholder scope document pointer = .ok after) :
    Lists names after ∧
      ∀ place ∈ pointers, ∃ found, after.at? place.dropLast = some found ∧ Column found := by
  rw [Access.qualifyBare] at done
  generalize ((document.at? pointer).map identValue).getD "" = column at done
  cases owned : owner inspector placeholder scope.tables column with
  | error failure =>
      rw [owned] at done
      cases done
  | ok table =>
      rw [owned] at done
      cases done
      obtain ⟨found, leads, alone⟩ := columns pointer List.mem_cons_self
      have new : Column (Document.single "CompoundIdentifier" (chain table column)) :=
        ⟨by decide, inert_chain table column⟩
      constructor
      · cases alone with
        | intro mark inert =>
            exact lists.changeAt leads (Column.intro mark inert).marked
              (.column (by decide) (inert_chain table column))
              (sameTables_column mark (by decide) inert (inert_chain table column))
      · intro place later
        obtain ⟨found', leads', alone'⟩ := columns place (List.mem_cons_of_mem _ later)
        exact exists_column_changeAt leads alone leads' alone' new

theorem Lists.qualifyBares
    {document after : Document} (lists : Lists names document) {inspector : Inspector}
    {placeholder : String} {scope : Scope} {pointers : List Pointer}
    (columns : ∀ place ∈ pointers,
      ∃ found, document.at? place.dropLast = some found ∧ Column found)
    (done : pointers.foldlM (Access.qualifyBare inspector placeholder scope) document = .ok after) :
    Lists names after := by
  induction pointers generalizing document with
  | nil =>
      cases done
      exact lists
  | cons pointer rest ih =>
      rw [List.foldlM_cons] at done
      cases first : Access.qualifyBare inspector placeholder scope document pointer with
      | error failure =>
          rw [first] at done
          cases done
      | ok next =>
          rw [first] at done
          obtain ⟨nextLists, nextColumns⟩ := lists.qualifyBare columns first
          exact ih nextLists nextColumns done

/-- Above every bare column that is found stands a column. -/
theorem exists_column_of_mem_findBelow
    {document : Document} (regular : Regular document) {base pointer : Pointer}
    {stop : Option String} (listed : pointer ∈ document.findBelow "Identifier" base stop) :
    ∃ found, document.at? pointer.dropLast = some found ∧ Column found := by
  obtain ⟨front, rfl⟩ := exists_front_of_mem_findBelow listed
  obtain ⟨value, leads⟩ := exists_at?_of_mem_findBelow regular.keyed listed
  obtain ⟨fields, here, field⟩ := exists_marked_of_at? (by decide) leads
  obtain ⟨alone, inert⟩ := (regular.at? here).eq_column (by decide) field
  rw [List.dropLast_concat]
  exact ⟨_, here, alone ▸ ⟨by decide, inert⟩⟩

theorem Lists.qualifySelect
    {document after : Document} (lists : Lists names document) {inspector : Inspector}
    {start : List String} {placeholder : String} {select : Pointer}
    (done : qualifySelect inspector start placeholder document select = .ok after) :
    Lists names after := by
  have collected := lists.collectTables select
  rw [Access.qualifySelect] at done
  generalize Access.collectTables document select = state at collected done
  have compounds : Lists names
      ((state.1.findBelow "CompoundIdentifier" select (some "Select")).foldl
        (Access.qualifyCompound state.2 start) state.1) :=
    collected.qualifyCompounds state.2 start fun pointer listed =>
      exists_front_of_mem_findBelow listed
  exact compounds.qualifyBares
    (fun place listed => exists_column_of_mem_findBelow compounds.regular listed) done

/-! ## Aliases of expressions -/

theorem Lists.stripAlias {document : Document} (lists : Lists names document) (front : Pointer) :
    Lists names (stripAlias document (front ++ ["ExprWithAlias"])) := by
  cases leads : document.at? (front ++ ["ExprWithAlias"]) with
  | none => simpa [Access.stripAlias, leads] using lists
  | some value =>
      obtain ⟨fields, here, field⟩ := exists_marked_of_at? (by decide) leads
      obtain ⟨label, expr, alone, rfl, inert, inner⟩ := (lists.regular.at? here).eq_aliased field
      have bare : Regular (.object [("UnnamedExpr", expr)]) := by
        apply Regular.object
        · simp
        · simp [loneMarks]
        · simp [labels]
        · simpa using inner
      have same : SameTables (.object [("UnnamedExpr", expr)]) (.object fields) := by
        cases alone
        constructor
        · simp [tablesInField, tables_of_inert inert]
        · rfl
      have changed : Lists names
          (Document.changeAt (fun _ => .object [("UnnamedExpr", expr)]) front document) :=
        lists.changeAt here (marked_of_get? (by decide) field) bare same
      simpa [Access.stripAlias, leads, field?, Fields.get?, Document.single] using changed

theorem Lists.stripAliases {document : Document} (lists : Lists names document) :
    Lists names (stripAliases document) := by
  have kept : ∀ (pointers : List Pointer) (found : Document),
      (∀ pointer ∈ pointers, ∃ front, pointer = front ++ ["ExprWithAlias"]) → Lists names found →
        Lists names (pointers.foldl Access.stripAlias found) := by
    intro pointers
    induction pointers with
    | nil =>
        intro found _ before
        exact before
    | cons pointer rest ih =>
        intro found ends before
        obtain ⟨front, rfl⟩ := ends pointer List.mem_cons_self
        exact ih _ (fun other later => ends other (List.mem_cons_of_mem _ later))
          (before.stripAlias front)
  exact kept _ _ (fun pointer listed => exists_front_of_mem_find _ none document listed) lists

/-! ## All passes -/

theorem Lists.padTables {document : Document} (lists : Lists names document)
    (start : List String) :
    Lists (names.map (List.map (paddedName start))) (padTables start document) := by
  rw [padTables_eq_padAll lists.regular]
  obtain ⟨items, rfl, told⟩ := lists.statements
  constructor
  · exact (padAll_kept lists.regular start).1
  · refine ⟨items.map (padAll start), padAll_array start items, ?_⟩
    rw [← told, List.map_map, List.map_map]
    apply List.map_congr_left
    intro item listed
    cases lists.regular with
    | array inner => exact (padAll_kept (inner item listed) start).2

theorem Lists.qualifySelects
    {document after : Document} (lists : Lists names document) {inspector : Inspector}
    {start : List String} {placeholder : String} {selects : List Pointer}
    (done : selects.foldlM (Access.qualifySelect inspector start placeholder) document = .ok after) :
    Lists names after := by
  induction selects generalizing document with
  | nil =>
      cases done
      exact lists
  | cons select rest ih =>
      rw [List.foldlM_cons] at done
      cases first : Access.qualifySelect inspector start placeholder document select with
      | error failure =>
          rw [first] at done
          cases done
      | ok next =>
          rw [first] at done
          exact ih (lists.qualifySelect first) done

/-- A prepared text tells, statement by statement, of the tables it told of, by their full
names. -/
theorem Lists.prepare
    {document after : Document} (lists : Lists names document) {inspector : Inspector}
    {context : Context} {placeholder : String}
    (done : prepare inspector context placeholder document = .ok after) :
    Lists (names.map (List.map (paddedName (context.start placeholder)))) after := by
  have padded := lists.padTables (context.start placeholder)
  rw [Access.prepare] at done
  cases qualified : ((Access.padTables (context.start placeholder) document).find "Select" none).foldlM
      (Access.qualifySelect inspector (context.start placeholder) placeholder)
      (Access.padTables (context.start placeholder) document) with
  | error failure =>
      simp only [qualified] at done
      cases done
  | ok result =>
      simp only [qualified] at done
      cases done
      exact (padded.qualifySelects qualified).stripAliases

end Access
end SemanticLayer
