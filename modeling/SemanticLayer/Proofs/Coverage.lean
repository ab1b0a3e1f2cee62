import SemanticLayer.Proofs.Faults
import SemanticLayer.Proofs.Verification

/-!
# When a prepared text is fully qualified

Tables get the full names of what was written. Aliases and columns are dealt with SELECT by SELECT, so
the result is fully qualified just if every table with an alias stands in the FROM of a SELECT and
every column that is not written in full lies in a SELECT. What orders the rows of a whole query does
not.
-/

namespace SemanticLayer
namespace Access

open Document

/-- Every table has a full name and no alias, and every column the full name of a table in front of
its own. -/
structure FullyQualified (document : Document) : Prop where
  tables : ∀ table ∈ document.values "Table" none,
    tableParts ≤ ((tableName? table).getD []).length ∧ hasAlias table = false
  columns : document.values "Identifier" none = []
  compounds : ∀ parts ∈ document.values "CompoundIdentifier" none,
    tableParts < (identValues parts).length

/-- Every table has a name, stands in the FROM of a SELECT if it has an alias, and every column that
does not lie in a SELECT is written in full. -/
structure Reached (document : Document) : Prop where
  named : ∀ table ∈ document.values "Table" none, (tableName? table).isSome
  tables : ∀ pointer ∈ document.find "Table" none, (document.at? pointer).any hasAlias →
    ∃ select ∈ document.find "Select" none,
      pointer ∈ document.findBelow "Table" (select ++ ["from"]) (some "Select")
  columns : document.find "Identifier" (some "Select") = []
  compounds : ∀ parts ∈ document.values "CompoundIdentifier" (some "Select"),
    tableParts < (identValues parts).length

instance (document : Document) : Decidable (Reached document) :=
  decidable_of_iff
    ((∀ table ∈ document.values "Table" none, (tableName? table).isSome) ∧
      (∀ pointer ∈ document.find "Table" none, (document.at? pointer).any hasAlias →
        ∃ select ∈ document.find "Select" none,
          pointer ∈ document.findBelow "Table" (select ++ ["from"]) (some "Select")) ∧
      document.find "Identifier" (some "Select") = [] ∧
      ∀ parts ∈ document.values "CompoundIdentifier" (some "Select"),
        tableParts < (identValues parts).length)
    ⟨fun ⟨named, tables, columns, compounds⟩ => ⟨named, tables, columns, compounds⟩,
      fun ⟨named, tables, columns, compounds⟩ => ⟨named, tables, columns, compounds⟩⟩

/-! ## Faults and what reaches them -/

variable {names : List (List (List String))}

theorem index?_select (name : String) (here : some "Select" = some name) :
    Pointer.index? name = none := by
  cases here
  decide

/-- A document is fully qualified just if it has no faults. -/
theorem Whole.fullyQualified_iff {document : Document} (whole : Whole names document) :
    FullyQualified document ↔ ∀ fault, ¬ ∃ front, Faulty fault front document := by
  have keyed := whole.lists.regular.keyed
  have found : ∀ key ∈ marks, ∀ {value}, value ∈ document.values key none ↔
      ∃ front, document.at? (front ++ [key]) = some value := by
    intro key mark value
    have here := @mem_values_iff document value keyed key none (index?_of_mem_marks mark) (by simp)
    simpa using here
  constructor
  · rintro ⟨tables, columns, compounds⟩ fault ⟨front, value, leads, shows⟩
    cases fault with
    | unnamed =>
        have long := (tables value ((found _ (by decide)).2 ⟨front, leads⟩)).1
        rw [show tableName? value = none from shows] at long
        exact absurd long (by decide)
    | aliased =>
        have plain := (tables value ((found _ (by decide)).2 ⟨front, leads⟩)).2
        exact absurd shows.2 (by simp [plain])
    | bare =>
        have listed := (found "Identifier" (by decide)).2 ⟨front, leads⟩
        rw [columns] at listed
        cases listed
    | short =>
        have long := compounds value ((found _ (by decide)).2 ⟨front, leads⟩)
        exact absurd shows (Nat.not_le.2 long)
    | lone => exact whole.dotted front ⟨value, leads, shows⟩
  · intro faultless
    constructor
    · intro table listed
      obtain ⟨front, leads⟩ := (found _ (by decide)).1 listed
      cases named : tableName? table with
      | none => exact absurd ⟨front, table, leads, named⟩ (faultless .unnamed)
      | some name =>
          refine ⟨whole.full_of_tableName? leads named, ?_⟩
          cases labelled : hasAlias table with
          | false => rfl
          | true =>
              exact absurd ⟨front, table, leads, by simp [named], labelled⟩ (faultless .aliased)
    · rw [List.eq_nil_iff_forall_not_mem]
      intro value listed
      obtain ⟨front, leads⟩ := (found _ (by decide)).1 listed
      exact faultless .bare ⟨front, value, leads, trivial⟩
    · intro parts listed
      obtain ⟨front, leads⟩ := (found _ (by decide)).1 listed
      exact Nat.not_le.1 fun short => faultless .short ⟨front, parts, leads, short⟩

/-- What a position says of the SELECTs that reach a fault there. -/
def Covered : Fault → Pointer → Prop
  | .unnamed, _ => False
  | .aliased, front =>
    ∃ outer middle, front = outer ++ ["Select", "from"] ++ middle ∧ "Select" ∉ middle
  | .bare, front => "Select" ∈ front
  | .short, front => "Select" ∈ front
  | .lone, front => "Select" ∈ front

theorem exists_last_of_mem {α : Type} {item : α} {items : List α} (member : item ∈ items) :
    ∃ front rest, items = front ++ item :: rest ∧ item ∉ rest := by
  obtain ⟨rest, front, same, fresh⟩ := List.eq_append_cons_of_mem (List.mem_reverse.2 member)
  refine ⟨front.reverse, rest.reverse, ?_, by simpa using fresh⟩
  rw [← List.reverse_reverse items, same]
  simp

/-- Some SELECT reaches a fault just if its position says so. -/
theorem exists_reaches_iff {document : Document} (keyed : Keyed document) {fault : Fault}
    {front : Pointer} (faulty : Faulty fault front document) :
    (∃ select ∈ document.find "Select" none, Reaches select fault front) ↔ Covered fault front := by
  obtain ⟨value, leads, _⟩ := faulty
  -- A SELECT on the way to the fault is listed.
  have listed : ∀ outer rest, front = outer ++ "Select" :: rest →
      outer ++ ["Select"] ∈ document.find "Select" none := by
    rintro outer rest rfl
    refine (mem_find_iff keyed (by decide) (by simp)).2 ⟨by simp, ?_⟩
    rw [List.append_assoc, ← List.singleton_append, List.append_assoc, ← List.append_assoc,
      at?_append] at leads
    obtain ⟨select, here, _⟩ := Option.bind_eq_some_iff.1 leads
    rw [here]
    rfl
  have within : (∃ select ∈ document.find "Select" none,
      ∃ middle, front = select ++ middle ∧ "Select" ∉ middle) ↔ "Select" ∈ front := by
    constructor
    · rintro ⟨select, here, middle, rfl, _⟩
      obtain ⟨outer, rfl⟩ := exists_front_of_mem_find _ none document here
      simp
    · intro passes
      obtain ⟨outer, rest, same, fresh⟩ := exists_last_of_mem passes
      exact ⟨_, listed outer rest same, rest, by simp [same], fresh⟩
  cases fault with
  | unnamed => simp [Reaches, Covered]
  | aliased =>
      constructor
      · rintro ⟨select, here, middle, rfl, fresh⟩
        obtain ⟨outer, rfl⟩ := exists_front_of_mem_find _ none document here
        exact ⟨outer, middle, by simp, fresh⟩
      · rintro ⟨outer, middle, same, fresh⟩
        exact ⟨_, listed outer ("from" :: middle) (by simp [same]), middle, by simp [same], fresh⟩
  | bare => exact within
  | short => exact within
  | lone => exact within

/-- In a document whose columns have all their parts, everything is reached just if every fault
is. -/
theorem reached_iff {document : Document} (regular : Regular document)
    (dotted : ∀ front, ¬ Faulty .lone front document) :
    Reached document ↔ ∀ fault front, Faulty fault front document → Covered fault front := by
  have keyed := regular.keyed
  constructor
  · rintro ⟨named, tables, columns, compounds⟩ fault front faulty
    obtain ⟨value, leads, shows⟩ := faulty
    have some : (document.at? (front ++ [fault.key])).isSome := by simp [leads]
    cases fault with
    | unnamed =>
        have isNamed := named value ((mem_values_iff keyed (by decide) (by simp)).2
          ⟨front, by simp, leads⟩)
        rw [show tableName? value = none from shows] at isNamed
        cases isNamed
    | aliased =>
        obtain ⟨select, here, listed⟩ := tables _
          ((mem_find_iff keyed (by decide) (by simp)).2 ⟨by simp, some⟩)
          (show (document.at? (front ++ ["Table"])).any hasAlias by
            rw [show document.at? (front ++ ["Table"]) = _ from leads]
            exact shows.2)
        refine (exists_reaches_iff keyed ⟨value, leads, shows⟩).1 ⟨select, here, ?_⟩
        exact (mem_findBelow_of_faulty regular ⟨value, leads, shows⟩ _).1 listed
    | bare =>
        by_contra outside
        have listed : front ++ ["Identifier"] ∈ document.find "Identifier" (.some "Select") :=
          (mem_find_iff keyed (by decide) index?_select).2 ⟨by
            rintro name passes ⟨⟩
            exact outside passes, some⟩
        rw [columns] at listed
        cases listed
    | short =>
        by_contra outside
        have long := compounds value ((mem_values_iff keyed (by decide) index?_select).2 ⟨front, by
          rintro name passes ⟨⟩
          exact outside passes, leads⟩)
        exact absurd shows (Nat.not_le.2 long)
    | lone => exact absurd ⟨value, leads, shows⟩ (dotted front)
  · intro covered
    have named : ∀ front table, document.at? (front ++ ["Table"]) = some table →
        (tableName? table).isSome := by
      intro front table leads
      cases unnamed : tableName? table with
      | some name => rfl
      | none => exact (covered .unnamed front ⟨table, leads, unnamed⟩).elim
    constructor
    · intro table listed
      obtain ⟨front, _, leads⟩ := (mem_values_iff keyed (by decide) (by simp)).1 listed
      exact named front table leads
    · intro pointer listed labelled
      obtain ⟨front, rfl⟩ := exists_front_of_mem_find _ none document listed
      obtain ⟨table, leads⟩ := exists_at?_of_mem_find keyed listed
      rw [leads, Option.any_some] at labelled
      have faulty : Faulty .aliased front document :=
        ⟨table, leads, named front table leads, labelled⟩
      obtain ⟨select, here, inside⟩ :=
        (exists_reaches_iff keyed faulty).2 (covered .aliased front faulty)
      exact ⟨select, here, (mem_findBelow_of_faulty regular faulty _).2 inside⟩
    · rw [List.eq_nil_iff_forall_not_mem]
      intro pointer listed
      obtain ⟨front, rfl⟩ := exists_front_of_mem_find _ _ document listed
      obtain ⟨passes, leads⟩ := (mem_find_iff keyed (by decide) index?_select).1 listed
      obtain ⟨value, here⟩ := Option.isSome_iff_exists.1 leads
      exact passes "Select" (covered .bare front ⟨value, here, trivial⟩) rfl
    · intro parts listed
      obtain ⟨front, passes, leads⟩ := (mem_values_iff keyed (by decide) index?_select).1 listed
      by_contra short
      exact passes "Select" (covered .short front ⟨parts, leads, Nat.not_lt.1 short⟩) rfl

/-! ## Preparing -/

theorem length_start (context : Context) (placeholder : String) :
    (context.start placeholder).length = 3 := rfl

/-- A name that is padded is full. -/
theorem le_length_paddedName {start name : List String} (long : start.length = 3)
    (nonempty : name ≠ []) : tableParts ≤ (paddedName start name).length := by
  have some := List.length_pos_iff.2 nonempty
  rw [paddedName, List.length_append, List.length_take, long, tableParts]
  omega

theorem ne_nil_of_mem_tables {document : Document} {name : List String}
    (listed : name ∈ tables document) : name ≠ [] := by
  obtain ⟨table, _, named⟩ := List.mem_filterMap.1 listed
  simpa using (Option.filter_eq_some_iff.1 named).2

/-- Padding makes a document whole whose columns have all their parts. -/
theorem Lists.whole_padTables {document : Document} (lists : Lists names document)
    (dotted : ∀ front, ¬ Faulty .lone front document) (context : Context) (placeholder : String) :
    Whole (names.map (List.map (paddedName (context.start placeholder))))
      (Access.padTables (context.start placeholder) document) := by
  refine ⟨lists.padTables (context.start placeholder), ?_, fun front lone =>
    dotted front ((faulty_padTables lists.regular (context.start placeholder) .lone front).1 lone)⟩
  obtain ⟨items, _, told⟩ := lists.statements
  rw [← told]
  intro found listed name member
  rw [List.map_map, List.mem_map] at listed
  obtain ⟨item, _, rfl⟩ := listed
  obtain ⟨old, before, rfl⟩ := List.mem_map.1 member
  exact le_length_paddedName (length_start context placeholder) (ne_nil_of_mem_tables before)

theorem not_lone_of_dotted {document : Document} (regular : Regular document)
    (dotted : Dotted document) (front : Pointer) : ¬ Faulty .lone front document := by
  rintro ⟨parts, leads, few⟩
  have several := dotted parts
    ((mem_values_iff regular.keyed (by decide) (by simp)).2 ⟨front, by simp, leads⟩)
  simp only [Fault.Shows] at few
  omega

/-- Preparing a document leaves exactly the faults that no SELECT reaches, somewhere. -/
theorem Lists.exists_faulty_prepare_iff {document after : Document} (lists : Lists names document)
    (written : ∀ front, ¬ Faulty .lone front document)
    {inspector : Inspector} {context : Context} {placeholder : String}
    (done : Access.prepare inspector context placeholder document = .ok after) :
    (∃ names, Whole names after) ∧ ∀ fault, (∃ front, Faulty fault front after) ↔
      ∃ front, Faulty fault front document ∧ ¬ Covered fault front := by
  have padded := lists.whole_padTables written context placeholder
  have padFaults := faulty_padTables lists.regular (context.start placeholder)
  rw [Access.prepare] at done
  obtain ⟨qualified, run, done⟩ := Result.bind_eq_ok.1 done
  obtain rfl := Result.pure_eq_ok.1 done
  obtain ⟨whole, faults⟩ := padded.qualifySelects (length_start context placeholder) run
  have strip := whole.lists.exists_faulty_stripAliases
  refine ⟨⟨_, whole.lists.stripAliases, whole.full, fun front lone => ?_⟩, fun fault => ?_⟩
  · obtain ⟨front, lone⟩ := (strip .lone).1 ⟨front, lone⟩
    exact whole.dotted front lone
  · rw [strip]
    apply exists_congr
    intro front
    rw [faults, ← padFaults fault front]
    refine and_congr_right fun before => ?_
    rw [← exists_reaches_iff padded.lists.regular.keyed before]
    simp only [not_exists, not_and]

/-- A prepared document is fully qualified just if everything is reached. -/
theorem fullyQualified_prepare_iff {document after : Document} (lists : Lists names document)
    (dotted : Dotted document) {inspector : Inspector} {context : Context} {placeholder : String}
    (done : prepare inspector context placeholder document = .ok after) :
    FullyQualified after ↔ Reached document := by
  have written := not_lone_of_dotted lists.regular dotted
  obtain ⟨⟨_, whole⟩, faults⟩ := lists.exists_faulty_prepare_iff written done
  rw [whole.fullyQualified_iff, reached_iff lists.regular written]
  simp only [faults, not_exists, not_and, not_not]

theorem mem_orderings {entry : Grammar.Ordering} {entries : List Grammar.Ordering}
    (listed : entry ∈ entries) :
    Grammar.View.ordering entry ∈ Grammar.View.orderings entries := by
  induction entries with
  | nil => cases listed
  | cons first rest ih =>
      rw [Grammar.View.orderings]
      rcases List.mem_cons.1 listed with rfl | later
      · exact List.mem_cons_self
      · exact List.mem_cons_of_mem _ (ih later)

/-- A bare column in what orders the rows of a whole query lies in no SELECT. -/
theorem not_reached_of_orderBy {queries : List Grammar.Query} {query : Grammar.Query}
    (listed : query ∈ queries) {entry : Grammar.Ordering} (orders : entry ∈ query.orderBy)
    (bare : (Grammar.View.expr entry.expr).find "Identifier" (some "Select") ≠ []) :
    ¬ Reached (queriesView queries) := by
  have inEntry : (Grammar.View.ordering entry).find "Identifier" (some "Select") ≠ [] := by
    cases entry
    rw [Grammar.View.ordering]
    exact find_ne_nil_of_field "expr" (by simp) (by simp) bare
  have inQuery : (Grammar.View.query query).find "Identifier" (some "Select") ≠ [] := by
    cases query with
    | mk recursive named source orderBy limit limitBy offset fetched locks format =>
        have several : orderBy.isEmpty = false := by
          cases orderBy with
          | nil => cases orders
          | cons first rest => rfl
        have clause : (Document.object [("exprs", .array (Grammar.View.orderings orderBy)),
            ("interpolate", .null)]).find "Identifier" (some "Select") ≠ [] :=
          find_ne_nil_of_field "exprs" (by simp) (by simp)
            (find_ne_nil_of_item (mem_orderings orders) inEntry)
        rw [Grammar.View.query, several]
        exact find_ne_nil_of_field "order_by" (by simp) (by simp) clause
  have inStatement : (Grammar.View.statement (.query query)).find "Identifier" (some "Select") ≠ [] :=
    find_ne_nil_of_field "Query" (by simp) (by simp) inQuery
  rintro ⟨_, _, columns, _⟩
  refine find_ne_nil_of_item ?_ inStatement columns
  rw [List.map_map]
  exact List.mem_map_of_mem listed

theorem dotted_queriesView (queries : List Grammar.Query) : Dotted (queriesView queries) := by
  rw [queriesView, Grammar.View.statements, dotted_array]
  intro document listed
  rw [List.map_map] at listed
  obtain ⟨query, _, rfl⟩ := List.mem_map.1 listed
  exact ((Grammar.View.tells_query query).single (by decide)).dotted

/-- The statements of a prepared document list the tables they told of, by full names that end in
those. -/
theorem Lists.exists_statements {α : Type} {items : List α} {factors : α → List (List String)}
    {document after : Document} (lists : Lists (items.map factors) document)
    {inspector : Inspector} {context : Context} {placeholder : String}
    (done : Access.prepare inspector context placeholder document = .ok after) :
    ∃ statements, after = .array statements ∧
      List.Forall₂ (fun item statement =>
        List.Forall₂ (fun written full => tableParts ≤ full.length ∧ written <:+ full)
          (factors item) (tableNames statement)) items statements := by
  obtain ⟨_, _, told⟩ := lists.statements
  have nonempty : ∀ item ∈ items, ∀ name ∈ factors item, name ≠ [] := by
    intro item listed name member
    obtain ⟨document, _, same⟩ := List.mem_map.1 (told ▸ List.mem_map_of_mem listed)
    exact ne_nil_of_mem_tables (same ▸ member)
  have prepared := lists.prepare done
  obtain ⟨statements, rfl, _⟩ := prepared.statements
  refine ⟨statements, rfl, ?_⟩
  have same : List.Forall₂ (fun item statement =>
      tableNames statement = (factors item).map (paddedName (context.start placeholder)))
      items statements := by
    have both := prepared.map_tableNames
    rw [List.map_map, ← List.forall₂_eq_eq_eq, List.forall₂_map_left_iff,
      List.forall₂_map_right_iff] at both
    exact both.flip
  refine ((List.forall₂_and_left items statements).2 ⟨nonempty, same⟩).imp ?_
  rintro item statement ⟨some, padded⟩
  rw [padded, List.forall₂_map_right_iff]
  refine List.forall₂_same.2 fun name member => ⟨?_, List.suffix_append _ _⟩
  exact le_length_paddedName (length_start context placeholder) (some name member)

/-- A prepared text of queries. Each statement lists the tables that its query names, by names of
four parts that end in what was written. The text is fully qualified just if every table with an
alias stands in the FROM of a SELECT and every column that is not written in full lies in a SELECT:
with a bare column in the ORDER BY of a whole query it is not. -/
theorem prepared_is_qualified_iff
    {inspector : Inspector} {context : Context} {placeholder : String}
    {queries : List Grammar.Query} {prepared : Document}
    (done : prepare inspector context placeholder (queriesView queries) = .ok prepared) :
    (∃ statements, prepared = .array statements ∧
      List.Forall₂ (fun query statement =>
        List.Forall₂ (fun written full => tableParts ≤ full.length ∧ written <:+ full)
          (Grammar.Query.factors query) (tableNames statement)) queries statements) ∧
    (FullyQualified prepared ↔ Reached (queriesView queries)) ∧
    (∀ query ∈ queries, ∀ entry ∈ query.orderBy,
      (Grammar.View.expr entry.expr).find "Identifier" (some "Select") ≠ [] →
        ¬ FullyQualified prepared) := by
  have lists := lists_queriesView queries
  have iff := fullyQualified_prepare_iff lists (dotted_queriesView queries) done
  refine ⟨lists.exists_statements done, iff, ?_⟩
  intro query listed entry orders bare qualified
  exact not_reached_of_orderBy listed orders bare (iff.1 qualified)

/-- A table with an alias, in a text that is fully qualified and in one that orders its rows by a
bare column, which is not. -/
theorem prepared_is_qualified_iff_sales :
    let inspector : Inspector := .declared [{ table := "sales", columns := ["price", "region"] }]
    let context : Context := { database := "db" }
    (∃ queries prepared, queries? "SELECT price FROM sales AS s WHERE s.region = 'x'" = some queries ∧
      prepare inspector context "null" (queriesView queries) = .ok prepared ∧
      FullyQualified prepared) ∧
    ∃ queries prepared, queries? "SELECT price FROM sales ORDER BY price" = some queries ∧
      prepare inspector context "null" (queriesView queries) = .ok prepared ∧
      ¬ FullyQualified prepared := by
  intro inspector context
  have readable : ∀ text ∈ ["SELECT price FROM sales AS s WHERE s.region = 'x'",
      "SELECT price FROM sales ORDER BY price"],
      ((queries? text).any fun queries =>
        (prepare inspector context "null" (queriesView queries)).toOption.isSome) = true := by
    decide +kernel
  have run : ∀ text ∈ ["SELECT price FROM sales AS s WHERE s.region = 'x'",
      "SELECT price FROM sales ORDER BY price"],
      ∃ queries prepared, queries? text = some queries ∧
        prepare inspector context "null" (queriesView queries) = .ok prepared := by
    intro text listed
    have succeeds := readable text listed
    cases read : queries? text with
    | none =>
        rw [read] at succeeds
        cases succeeds
    | some queries =>
        rw [read, Option.any_some] at succeeds
        obtain ⟨prepared, done⟩ := Result.exists_eq_ok succeeds
        exact ⟨queries, prepared, rfl, done⟩
  have reached : (queries? "SELECT price FROM sales AS s WHERE s.region = 'x'").all
      (fun queries => decide (Reached (queriesView queries))) = true := by
    decide +kernel
  have unreached : (queries? "SELECT price FROM sales ORDER BY price").all
      (fun queries => decide (¬ Reached (queriesView queries))) = true := by
    decide +kernel
  constructor
  · obtain ⟨queries, prepared, read, done⟩ := run _ List.mem_cons_self
    rw [read] at reached
    exact ⟨queries, prepared, read, done,
      (prepared_is_qualified_iff done).2.1.2 (by simpa using reached)⟩
  · obtain ⟨queries, prepared, read, done⟩ := run _ (List.mem_cons_of_mem _ List.mem_cons_self)
    rw [read] at unreached
    exact ⟨queries, prepared, read, done, fun qualified =>
      absurd ((prepared_is_qualified_iff done).2.1.1 qualified) (by simpa using unreached)⟩

end Access
end SemanticLayer
