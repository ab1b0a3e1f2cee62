import Mathlib.Data.List.Infix
import SemanticLayer.Proofs.Touching
import SemanticLayer.Proofs.Unaliasing

/-!
# What qualifiers denote

A qualifier is made the full name of a table by the SELECT that it lies in alone: its aliases and
tables are looked at, and only for a qualifier of one part. What it denotes may be declared by a
SELECT further out, and a qualifier of several parts may be the end of a table's name.
-/

namespace SemanticLayer
namespace Access

open Document

variable {names : List (List (List String))} {document after : Document}

/-! ## All SELECTs -/

theorem Within.of_from {select front : Pointer} (within : Within (select ++ ["from"]) front) :
    Within select front := by
  obtain ⟨middle, rfl, fresh⟩ := within
  exact ⟨"from" :: middle, by simp, by simpa using fresh⟩

/-- A position lies in one SELECT without another one in between. -/
theorem Within.unique {outer other front : Pointer} (within : Within (outer ++ ["Select"]) front)
    (within' : Within (other ++ ["Select"]) front) : outer ++ ["Select"] = other ++ ["Select"] := by
  obtain ⟨middle, rfl, fresh⟩ := within
  obtain ⟨middle', same, fresh'⟩ := within'
  rcases List.append_eq_append_iff.1 same with ⟨between, longer, rest⟩ | ⟨between, longer, rest⟩
  · rcases List.eq_nil_or_concat between with rfl | ⟨front, last, rfl⟩
    · simpa using longer.symm
    · rw [List.concat_eq_append, ← List.append_assoc] at longer
      obtain rfl := List.singleton_inj.1 (List.append_inj' longer rfl).2
      exact absurd (by simp [rest]) fresh
  · rcases List.eq_nil_or_concat between with rfl | ⟨front, last, rfl⟩
    · simpa using longer
    · rw [List.concat_eq_append, ← List.append_assoc] at longer
      obtain rfl := List.singleton_inj.1 (List.append_inj' longer rfl).2
      exact absurd (by simp [rest]) fresh'

/-- Where the tables of a SELECT are not touched they tell what they told. -/
theorem Touches.entriesOf_eq {columns tables : Pointer → Prop}
    (touches : Touches columns tables document after) (regular : Regular document)
    (regular' : Regular after) {select : Pointer}
    (apart : ∀ front, Within (select ++ ["from"]) front → ¬ tables front) :
    entriesOf after select = entriesOf document select := by
  rw [entriesOf, findBelow_congr regular'.keyed regular.keyed (by decide) index?_select
    touches.listed, entriesOf]
  refine List.filterMap_congr fun pointer listed => ?_
  obtain ⟨front, rfl⟩ := exists_front_of_mem_findBelow listed
  exact touches.entries front (apart front (within_of_mem_findBelow regular (by decide) listed))

/-- A column with a qualifier is written in full by the SELECT that it lies in, with the tables that
this SELECT had at first; outside of all SELECTs it is left alone. -/
theorem foldlM_qualifySelect_spec (lists : Lists names document) {inspector : Inspector}
    {start : List String} {placeholder : String} {selects : List Pointer}
    (ends : ∀ select ∈ selects, ∃ outer, select = outer ++ ["Select"]) (distinct : selects.Nodup)
    (done : selects.foldlM (qualifySelect inspector start placeholder) document = .ok after)
    {front : Pointer} {parts : Document}
    (leads : document.at? (front ++ ["CompoundIdentifier"]) = some parts) :
    ((∀ select ∈ selects, ¬ Within select front) →
      after.at? (front ++ ["CompoundIdentifier"]) = some parts) ∧
    ∀ select ∈ selects, Within select front →
      after.at? (front ++ ["CompoundIdentifier"]) =
        some (fullColumn (scopeOf document select) start parts) := by
  induction selects generalizing document parts with
  | nil =>
      cases done
      exact ⟨fun _ => leads, fun _ listed => absurd listed List.not_mem_nil⟩
  | cons first rest ih =>
      rw [List.foldlM_cons] at done
      obtain ⟨next, step, remaining⟩ := Result.bind_eq_ok.1 done
      obtain ⟨⟨outer, rfl⟩, others⟩ := List.forall_mem_cons.1 ends
      obtain ⟨fresh, distinct⟩ := List.nodup_cons.1 distinct
      have nextLists := lists.qualifySelect step
      obtain ⟨touches, written⟩ := qualifySelect_spec lists step
      have kept (apart : ¬ Within (outer ++ ["Select"]) front) :=
        (touches.compounds front apart).trans leads
      have alone (within : Within (outer ++ ["Select"]) front) :
          ∀ select ∈ rest, ¬ Within select front := by
        intro select listed within'
        obtain ⟨other, rfl⟩ := others select listed
        exact fresh (within.unique within' ▸ listed)
      constructor
      · intro apart
        obtain ⟨here, later⟩ := List.forall_mem_cons.1 apart
        exact (ih nextLists others distinct remaining (kept here)).1 later
      · intro select listed within
        rcases List.mem_cons.1 listed with rfl | later
        · exact (ih nextLists others distinct remaining (written front parts within leads)).1
            (alone within)
        · have apart : ¬ Within (outer ++ ["Select"]) front := fun within' =>
            alone within' select later within
          rw [(ih nextLists others distinct remaining (kept apart)).2 select later within, scopeOf,
            touches.entriesOf_eq lists.regular nextLists.regular, scopeOf]
          intro place inside inside'
          obtain ⟨other, rfl⟩ := others select later
          exact fresh (inside'.of_from.unique inside.of_from ▸ later)

/-! ## Padding and aliases of expressions -/

theorem find_padTable {table : Document} (regular : Regular table) (start : List String) :
    (padTable start table).find "Table" none = table.find "Table" none := by
  cases table with
  | object fields =>
      rw [padTable]
      split
      · rename_i parts found
        have plain : Plain fields := regular.plain found (by decide)
        have inert : Inert (.array parts) :=
          plain.named _ (Fields.mem_of_get?_eq_some found) (by simp [labels])
        refine find_changeField plain.distinct found ?_
        rw [find_of_inert inert (by decide), find_of_inert (inert_pad inert start _) (by decide)]
      · rfl
  | array items => rfl
  | null => rfl
  | bool value => rfl
  | number mantissa places => rfl
  | string value => rfl

/-- Padding leaves the tables where they are. -/
theorem find_padAll {document : Document} (regular : Regular document) (start : List String) :
    (padAll start document).find "Table" none = document.find "Table" none := by
  apply regular.byEntries
  · intro document inert
    rw [padAll_of_inert inert]
  · intro items ih
    rw [padAll_array, find, find]
    exact findInItems_map ih 0
  · intro fields _ _ inner ih
    rw [padAll_object, find_object, find_object, List.flatMap_map, List.flatMap_def,
      List.flatMap_def]
    congr 1
    refine List.map_congr_left fun field here => ?_
    have same : (padField start field).2.find "Table" none = field.2.find "Table" none := by
      rw [padField]
      split
      · rw [find_padTable (padAll_kept (inner field here) start).1, ih field here]
      · exact ih field here
    rw [findInField, same, findInField]
    rfl
  · intro label expr inert _ ih
    simp [aliasedEntry, Document.single, padAll_object, padField, padAll_of_inert inert, find,
      findInFields, ih]

theorem tableAlias?_padTable {table : Document} (start : List String) :
    tableAlias? (padTable start table) = tableAlias? table := by
  cases table with
  | object fields =>
      rw [padTable]
      split
      · rw [tableAlias?, tableAlias?, field?, field?, Fields.get?_changeField, if_neg (by simp)]
      · rfl
  | array items => rfl
  | null => rfl
  | bool value => rfl
  | number mantissa places => rfl
  | string value => rfl

/-- What a table tells of itself, with its name padded. -/
def paddedEntry (start : List String) (entry : List String × Option String) :
    List String × Option String :=
  (paddedName start entry.1, entry.2)

/-- A padded document tells of the tables of each SELECT by their padded names. -/
theorem entriesOf_padTables {document : Document} (regular : Regular document)
    (start : List String) (select : Pointer) :
    entriesOf (padTables start document) select =
      (entriesOf document select).map (paddedEntry start) := by
  have padded := (padAll_kept regular start).1
  rw [padTables_eq_padAll regular, entriesOf, findBelow_congr padded.keyed regular.keyed (by decide)
    index?_select (find_padAll regular start), entriesOf, List.map_filterMap]
  refine List.filterMap_congr fun pointer listed => ?_
  obtain ⟨front, rfl⟩ := exists_front_of_mem_findBelow listed
  rw [entryAt, at?_padAll regular start (by decide), entryAt]
  cases here : document.at? (front ++ ["Table"]) with
  | none => rfl
  | some table =>
      have inner : Regular table := regular.at? here
      simp only [Option.map_some, Option.bind_some, padField, if_true, listedTable?,
        tableName?_padTable, tableName?_padAll inner, tableAlias?_padTable, Option.map_map]
      rw [tableAlias?, field?_padAll inner start (by decide), ← tableAlias?]
      rfl

theorem at?_padTables_compound {document parts : Document} (regular : Regular document)
    (start : List String) {front : Pointer}
    (leads : document.at? (front ++ ["CompoundIdentifier"]) = some parts) :
    (padTables start document).at? (front ++ ["CompoundIdentifier"]) = some parts := by
  rw [padTables_eq_padAll regular, at?_padAll regular start (by decide), leads, Option.map_some,
    padField, if_neg (by simp), padAll_of_inert (inert_of_compound regular leads)]

/-- Where what lies at a position lies when the pass has taken the alias from the outermost entry
on the way to it. -/
def unaliasedPlace : Pointer → Pointer
  | "ExprWithAlias" :: "expr" :: rest => "UnnamedExpr" :: rest
  | step :: rest => step :: unaliasedPlace rest
  | [] => []

theorem unaliasedPlace_cons {step : String} (other : step ≠ "ExprWithAlias") (rest : Pointer) :
    unaliasedPlace (step :: rest) = step :: unaliasedPlace rest := by
  rw [unaliasedPlace]
  rintro _ rfl
  exact absurd rfl other

theorem get?_map_fieldWithoutAliases (levels : Option Nat) (fields : Fields) (key : String) :
    Fields.get? (fields.map (fieldWithoutAliases levels)) key =
      (Fields.get? fields key).map (withoutAliases levels) := by
  induction fields with
  | nil => rfl
  | cons field rest ih =>
      rw [List.map_cons, Fields.get?_cons, Fields.get?_cons, ih, fieldWithoutAliases]
      split <;> rfl

/-- The pass leaves a column with a qualifier as it is and moves it where its place is then. -/
theorem at?_stripAliases {document parts : Document} (regular : Regular document) {front : Pointer}
    (leads : document.at? (front ++ ["CompoundIdentifier"]) = some parts) :
    (stripAliases document).at? (unaliasedPlace front ++ ["CompoundIdentifier"]) = some parts := by
  rw [stripAliases_eq regular]
  induction front generalizing document with
  | nil =>
      have field : document.child? "CompoundIdentifier" = some parts := by
        simpa [at?_cons, at?] using leads
      obtain ⟨alone, inert⟩ := regular.eq_column (by decide) field
      rw [alone, withoutAliases_object (by simp), List.map_singleton, fieldWithoutAliases,
        withoutAliases_of_inert inert]
      rfl
  | cons step rest ih =>
      obtain ⟨child, here, below⟩ := Option.bind_eq_some_iff.1 leads
      have inner := regular.child? here
      by_cases entry : step = "ExprWithAlias"
      · subst entry
        obtain ⟨label, expr, rfl, rfl, inert, regular⟩ := regular.eq_aliased here
        obtain ⟨rest, rfl, there⟩ := exists_rest_of_at?_beside inert (by decide) below
        have whole : withoutAliases (some 1) (aliasedEntry label expr) =
            .single "UnnamedExpr" (withoutAliases (some 0) expr) :=
          withoutAliases_entry label expr (by simp)
        rw [aliasedEntry, Document.single] at whole
        rw [whole, unaliasedPlace]
        rw [withoutAliases_zero regular]
        simpa [at?, child?, Document.single, Fields.get?] using there
      · rw [unaliasedPlace_cons entry, List.cons_append, at?_cons]
        have moved := ih inner below
        cases document with
        | object fields =>
            have ordinary : ∀ field ∈ fields, field.1 ≠ "ExprWithAlias" := by
              intro field listed same
              cases regular.keyed with
              | object distinct _ =>
                  have marked := Fields.get?_eq_some_of_mem distinct listed
                  rw [same] at marked
                  obtain ⟨label, expr, alone, -⟩ := regular.eq_aliased marked
                  rw [alone, child?, Fields.get?_cons, if_neg (Ne.symm entry)] at here
                  cases here
            have found : Fields.get? fields step = some child := here
            rw [withoutAliases_object ordinary, child?, get?_map_fieldWithoutAliases, found]
            exact moved
        | array items =>
            obtain ⟨i, index, item⟩ := Option.bind_eq_some_iff.1 here
            rw [withoutAliases_array, child?, index, Option.bind_some, List.getElem?_map, item]
            exact moved
        | null => cases here
        | bool value => cases here
        | number mantissa places => cases here
        | string value => cases here

/-! ## Scopes around a position -/

/-- The SELECTs that a position lies in, the innermost first. -/
def enclosing (front : Pointer) : List Pointer :=
  (front.inits.filter fun outer => outer.getLast? == some "Select").reverse

theorem enclosing_concat (front : Pointer) (step : String) :
    enclosing (front ++ [step]) =
      (if step = "Select" then [front ++ [step]] else []) ++ enclosing front := by
  rw [enclosing, List.inits_append, List.filter_append, List.reverse_append, enclosing]
  by_cases select : step = "Select"
  · simp [select]
  · simp [select]

/-- A position lies in no SELECT, or in an innermost one and in those that this one lies in. -/
theorem enclosing_cases (front : Pointer) :
    enclosing front = [] ∧ "Select" ∉ front ∨
      ∃ outer, Within (outer ++ ["Select"]) front ∧
        enclosing front = (outer ++ ["Select"]) :: enclosing outer := by
  induction front using List.reverseRecOn with
  | nil => exact Or.inl ⟨rfl, List.not_mem_nil⟩
  | append_singleton front step ih =>
      rw [enclosing_concat]
      by_cases select : step = "Select"
      · subst select
        exact Or.inr ⟨front, ⟨[], by simp, List.not_mem_nil⟩, by simp⟩
      · rw [if_neg select, List.nil_append]
        rcases ih with ⟨none, outside⟩ | ⟨outer, ⟨middle, rfl, fresh⟩, several⟩
        · exact Or.inl ⟨none, by simpa [Ne.symm select] using outside⟩
        · exact Or.inr ⟨outer, ⟨middle ++ [step], by simp, by simpa [Ne.symm select] using fresh⟩,
            several⟩

/-- The scope of a SELECT of a document, with the names of its tables padded. -/
def paddedScope (start : List String) (document : Document) (select : Pointer) : Scope :=
  Scope.addAll {} ((entriesOf document select).map (paddedEntry start))

/-- The table that a qualifier is an alias of. -/
def aliased? (scope : Scope) (qualifier : List String) : Option (List String) :=
  (scope.aliases.find? fun entry => [entry.1] == qualifier).map Prod.snd

/-- The one table whose name ends in a qualifier. -/
def sole? (scope : Scope) (qualifier : List String) : Option (List String) :=
  let ending := scope.tables.filter qualifier.isSuffixOf
  if ending.length = 1 then ending.head? else none

/-- The table that a qualifier denotes in some scopes, the innermost first: that of an alias, or else
the one table whose name ends in the qualifier. -/
def denoted? (scopes : List Scope) (qualifier : List String) : Option (List String) :=
  (scopes.findSome? (aliased? · qualifier)).or (scopes.findSome? (sole? · qualifier))

/-- A qualifier with the parts of the context that are missing put in front. -/
def contextual (start qualifier : List String) : List String :=
  start.take (min (tableParts - qualifier.length) 3) ++ qualifier

theorem isSuffixOf_singleton (name : String) (table : List String) :
    [name].isSuffixOf table = (table.getLast? == some name) := by
  rw [Bool.eq_iff_iff, List.isSuffixOf_iff_suffix, beq_iff_eq]
  constructor
  · rintro ⟨front, rfl⟩
    simp
  · intro last
    obtain ⟨front, rfl⟩ := List.getLast?_eq_some_iff.1 last
    exact List.suffix_append _ _

/-- An alias has one part. -/
theorem aliased?_eq_none {scope : Scope} {qualifier : List String} (other : qualifier.length ≠ 1) :
    aliased? scope qualifier = none := by
  rw [aliased?, List.find?_eq_none.2, Option.map_none]
  rintro entry _ same
  rw [beq_iff_eq] at same
  exact other (same ▸ rfl)

/-- The only table that goes by a qualifier is the first one. -/
theorem find?_eq_some_of_sole? {scope : Scope} {qualifier table : List String}
    (alone : sole? scope qualifier = some table) :
    scope.tables.find? qualifier.isSuffixOf = some table := by
  rw [sole?] at alone
  split at alone
  · rw [← List.head?_filter, alone]
  · cases alone

/-- A qualifier is made the table of an alias, or with one part the first table that ends in it, or
else it gets the parts of the context. -/
theorem qualifierTable_eq (scope : Scope) (start qualifier : List String) :
    qualifierTable scope start qualifier =
      ((aliased? scope qualifier).or
        (if qualifier.length = 1 then scope.tables.find? qualifier.isSuffixOf else none)).getD
          (contextual start qualifier) := by
  cases qualifier with
  | nil =>
      rw [aliased?_eq_none (by simp)]
      rfl
  | cons name rest =>
      cases rest with
      | cons second rest =>
          rw [aliased?_eq_none (by simp)]
          rfl
      | nil =>
          have ends : [name].isSuffixOf = fun table : List String => table.getLast? == some name :=
            funext (isSuffixOf_singleton name)
          have same : (fun entry : String × List String => [entry.1] == [name]) =
              fun entry => entry.1 == name := by
            funext entry
            simp
          rw [qualifierTable, aliased?, same, ends, List.length_singleton, if_pos rfl, contextual]
          cases scope.aliases.find? fun entry => entry.1 == name <;> rfl

/-! ## Qualifiers in prepared texts -/

/-- A column with a qualifier in a prepared text stays as it is outside of all SELECTs, and gets the
full name of a table from the SELECT that it lies in. -/
theorem at?_prepare {queries : List Grammar.Query} {prepared : Document} {inspector : Inspector}
    {context : Context} {placeholder : String}
    (done : prepare inspector context placeholder (queriesView queries) = .ok prepared)
    {front : Pointer} {parts : Document}
    (leads : (queriesView queries).at? (front ++ ["CompoundIdentifier"]) = some parts) :
    prepared.at? (unaliasedPlace front ++ ["CompoundIdentifier"]) =
      some ((enclosing front).head?.elim parts fun select =>
        fullColumn (paddedScope (context.start placeholder) (queriesView queries) select)
          (context.start placeholder) parts) := by
  have lists := lists_queriesView queries
  have padded := lists.padTables (context.start placeholder)
  have there := at?_padTables_compound lists.regular (context.start placeholder) leads
  rw [prepare] at done
  obtain ⟨qualified, run, done⟩ := Result.bind_eq_ok.1 done
  obtain rfl := Result.pure_eq_ok.1 done
  have regular := (padded.qualifySelects run).regular
  obtain ⟨untouched, written⟩ := foldlM_qualifySelect_spec padded
    (fun select listed => exists_front_of_mem_find _ _ _ listed) (nodup_find padded.regular.keyed)
    run there
  refine at?_stripAliases regular ?_
  rcases enclosing_cases front with ⟨none, outside⟩ | ⟨outer, within, several⟩
  · rw [none]
    refine untouched fun select listed => ?_
    rintro ⟨middle, rfl, -⟩
    obtain ⟨outer, rfl⟩ := exists_front_of_mem_find _ _ _ listed
    exact outside (by simp)
  · have listed : outer ++ ["Select"] ∈
        (padTables (context.start placeholder) (queriesView queries)).find "Select" none := by
      refine (mem_find_iff padded.regular.keyed (by decide) (by simp)).2 ⟨by simp, ?_⟩
      obtain ⟨middle, rfl, -⟩ := within
      rw [List.append_assoc, at?_append] at there
      obtain ⟨select, here, _⟩ := Option.bind_eq_some_iff.1 there
      rw [here, Option.isSome_some]
    rw [several, List.head?_cons, Option.elim_some, written _ listed within, scopeOf,
      entriesOf_padTables lists.regular, paddedScope]

/-- A column with a qualifier in a prepared text. Outside of all SELECTs it stays as it is. In a
SELECT its qualifier becomes the full name of a table. This is the one that the qualifier denotes if
it is an alias of this SELECT, or if it has one part, is no alias of the SELECTs around and is the
end of the name of just one table of this SELECT. If it has one part and is the end of the name of
several tables here, or stands for an alias further out, it has to be that of the first table here
that goes by it. If it has several parts, or nothing here goes by it, the parts that it leaves out
have to be those of the context: that the table is written with others makes no difference. -/
theorem qualifiers_are_resolved_iff {inspector : Inspector} {context : Context}
    {placeholder : String} {queries : List Grammar.Query} {prepared : Document}
    (done : prepare inspector context placeholder (queriesView queries) = .ok prepared)
    {front : Pointer} {parts : Document} {qualifier : List String} {column : String}
    (leads : (queriesView queries).at? (front ++ ["CompoundIdentifier"]) = some parts)
    (values : identValues parts = qualifier ++ [column]) :
    let start := context.start placeholder
    let place := unaliasedPlace front ++ ["CompoundIdentifier"]
    let scopes := (enclosing front).map (paddedScope start (queriesView queries))
    (scopes = [] → prepared.at? place = some parts) ∧
    ∀ own outer, scopes = own :: outer →
      ∃ written, prepared.at? place = some (chain written column) ∧
        ∀ table, denoted? scopes qualifier = some table →
          ((aliased? own qualifier).isSome → written = table) ∧
          (qualifier.length = 1 → (∀ scope ∈ scopes, aliased? scope qualifier = none) →
            (sole? own qualifier).isSome → written = table) ∧
          (qualifier.length = 1 → aliased? own qualifier = none →
            ∀ first, own.tables.find? qualifier.isSuffixOf = some first →
              (written = table ↔ first = table)) ∧
          (2 ≤ qualifier.length ∨
              aliased? own qualifier = none ∧ own.tables.find? qualifier.isSuffixOf = none →
            (written = table ↔ contextual start qualifier = table)) := by
  intro start place scopes
  have there := at?_prepare done leads
  have lastPart : (identValues parts).getLast? = some column := by simp [values]
  constructor
  · intro none
    rw [List.map_eq_nil_iff] at none
    rw [there, none]
    rfl
  · intro own outer several
    obtain ⟨select, others, inside, rfl, rfl⟩ := List.map_eq_cons_iff.1 several
    rw [inside, List.head?_cons, Option.elim_some, fullColumn, lastPart, Option.elim_some, values,
      List.dropLast_concat] at there
    generalize paddedScope start (queriesView queries) select = own at there several
    refine ⟨_, there, fun table denoted => ?_⟩
    rw [denoted?, several, List.findSome?_cons] at denoted
    rw [qualifierTable_eq]
    refine ⟨fun isAlias => ?_, fun single none alone => ?_, fun single none first found => ?_,
      fun otherwise => ?_⟩
    · obtain ⟨found, named⟩ := Option.isSome_iff_exists.1 isAlias
      rw [named] at denoted ⊢
      exact Option.some.inj denoted
    · obtain ⟨found, ends⟩ := Option.isSome_iff_exists.1 alone
      rw [several] at none
      have nowhere : ((others.map (paddedScope start (queriesView queries))).findSome?
          (aliased? · qualifier)) = .none :=
        List.findSome?_eq_none_iff.2 fun scope listed => none scope (List.mem_cons_of_mem _ listed)
      rw [none own List.mem_cons_self, if_pos single, find?_eq_some_of_sole? ends]
      rw [none own List.mem_cons_self, nowhere, List.findSome?_cons, ends] at denoted
      exact Option.some.inj denoted
    · rw [none, if_pos single, found]
      rfl
    · have none : aliased? own qualifier = .none :=
        otherwise.elim (fun long => aliased?_eq_none (by omega)) And.left
      have absent : (if qualifier.length = 1 then own.tables.find? qualifier.isSuffixOf else .none) =
          .none := by
        split
        · exact otherwise.elim (fun long => by omega) And.right
        · rfl
      rw [none, absent]
      rfl

/-- The end of the name of a table that is written with a catalog gets the parts of the context, and
so does an alias of the SELECT around. -/
theorem qualifiers_are_resolved_iff_sales :
    let context : Context := { database := "db" }
    let scopes (queries : List Grammar.Query) (front : Pointer) :=
      (enclosing front).map (paddedScope (context.start "null") (queriesView queries))
    let item : Pointer := ["0", "Query", "body", "Select", "projection", "0", "UnnamedExpr"]
    let inner : Pointer := ["0", "Query", "body", "Select", "selection", "Exists", "subquery", "body",
      "Select", "selection"]
    (∃ queries prepared written, queries? "SELECT dev.sales.price FROM cat.dev.sales" = some queries ∧
      prepare (.declared []) context "null" (queriesView queries) = .ok prepared ∧
      denoted? (scopes queries item) ["dev", "sales"] = some ["db", "cat", "dev", "sales"] ∧
      prepared.at? (item ++ ["CompoundIdentifier"]) = some (chain written "price") ∧
      written ≠ ["db", "cat", "dev", "sales"]) ∧
    ∃ queries prepared written,
      queries? "SELECT 1 FROM sales AS s WHERE EXISTS (SELECT 1 FROM users WHERE s.id)" =
        some queries ∧
      prepare (.declared []) context "null" (queriesView queries) = .ok prepared ∧
      denoted? (scopes queries inner) ["s"] = some ["db", "null", "null", "sales"] ∧
      prepared.at? (inner ++ ["CompoundIdentifier"]) = some (chain written "id") ∧
      written ≠ ["db", "null", "null", "sales"] := by
  intro context scopes item inner
  have first : ((queries? "SELECT dev.sales.price FROM cat.dev.sales").any fun queries =>
      (prepare (.declared []) context "null" (queriesView queries)).toOption.isSome &&
        ((queriesView queries).at? (item ++ ["CompoundIdentifier"])).any
          (identValues · == ["dev", "sales", "price"]) &&
        denoted? (scopes queries item) ["dev", "sales"] ==
          some ["db", "cat", "dev", "sales"]) = true := by
    decide +kernel
  have second :
      ((queries? "SELECT 1 FROM sales AS s WHERE EXISTS (SELECT 1 FROM users WHERE s.id)").any
        fun queries =>
          (prepare (.declared []) context "null" (queriesView queries)).toOption.isSome &&
            ((queriesView queries).at? (inner ++ ["CompoundIdentifier"])).any
              (identValues · == ["s", "id"]) &&
            denoted? (scopes queries inner) ["s"] == some ["db", "null", "null", "sales"] &&
            (scopes queries inner).head?.any fun own =>
              aliased? own ["s"] == none && own.tables.find? ["s"].isSuffixOf == none) = true := by
    decide +kernel
  constructor
  · obtain ⟨queries, read, checks⟩ := (Option.any_eq_true _ _).1 first
    simp only [Bool.and_eq_true, beq_iff_eq, Option.any_eq_true] at checks
    obtain ⟨⟨runs, parts, leads, values⟩, denoted⟩ := checks
    obtain ⟨prepared, done⟩ := Result.exists_eq_ok runs
    obtain ⟨own, outer, several⟩ : ∃ own outer, scopes queries item = own :: outer := ⟨_, _, rfl⟩
    have parted : identValues parts = ["dev", "sales"] ++ ["price"] := values
    obtain ⟨written, there, exactly⟩ :=
      (qualifiers_are_resolved_iff done leads parted).2 own outer several
    obtain ⟨-, -, -, long⟩ := exactly _ denoted
    exact ⟨queries, prepared, written, read, done, denoted, there,
      fun same => absurd ((long (.inl (Nat.le_refl 2))).1 same) (by decide)⟩
  · obtain ⟨queries, read, checks⟩ := (Option.any_eq_true _ _).1 second
    simp only [Bool.and_eq_true, beq_iff_eq, Option.any_eq_true] at checks
    obtain ⟨⟨⟨runs, parts, leads, values⟩, denoted⟩, own, head, unknown⟩ := checks
    obtain ⟨prepared, done⟩ := Result.exists_eq_ok runs
    obtain ⟨outer, several⟩ := List.head?_eq_some_iff.1 head
    have parted : identValues parts = ["s"] ++ ["id"] := values
    obtain ⟨written, there, exactly⟩ :=
      (qualifiers_are_resolved_iff done leads parted).2 own outer several
    obtain ⟨-, -, -, short⟩ := exactly _ denoted
    exact ⟨queries, prepared, written, read, done, denoted, there,
      fun same => absurd ((short (.inr unknown)).1 same) (by decide)⟩

end Access
end SemanticLayer
