import SemanticLayer.Proofs.Coverage

/-!
# Queries in derived tables

A query is prepared as part of another one as it is prepared alone, as far as its tables and columns
lie in SELECTs: every pass works below the SELECTs, and nothing around a SELECT counts for what lies
in it. What lies beside the SELECTs of a query, such as a column in its ORDER BY, is not looked at
where the query stands alone. In a derived table it is dealt with by the SELECT around it, and a bare
column among it is not found.
-/

namespace SemanticLayer

/-- The query that takes one column from a derived table of another query. -/
def Grammar.Query.wrapped (label column : Sql.Name) (inner : Grammar.Query) : Grammar.Query :=
  { body := .select
      { distinct := .all
        projection := [.unnamed (.compound label { last := column })]
        sources := [{ relation := .derived false inner (some { name := label }) }] } }

namespace Access

open Document

/-! ## Frames -/

/-- Documents with one document in a place of theirs. -/
structure Frame (base : Pointer) (frame : Document → Document) : Prop where
  at? : ∀ inner, (frame inner).at? base = some inner
  changeAt : ∀ change inner, Document.changeAt change base (frame inner) = frame (change inner)

namespace Frame

variable {base : Pointer} {frame : Document → Document}

/-- Steps that do in a frame what they do in the document do so one after the other. -/
theorem foldl_commutes {step : Document → Pointer → Document} {pointers : List Pointer}
    (each : ∀ pointer ∈ pointers, ∀ inner,
      step (frame inner) (base ++ pointer) = frame (step inner pointer)) (inner : Document) :
    (pointers.map (base ++ ·)).foldl step (frame inner) = frame (pointers.foldl step inner) := by
  induction pointers generalizing inner with
  | nil => rfl
  | cons pointer rest ih =>
      rw [List.map_cons, List.foldl_cons, each pointer List.mem_cons_self, List.foldl_cons]
      exact ih (fun other later => each other (List.mem_cons_of_mem _ later)) _

theorem foldlM_commutes {step : Document → Pointer → Result Document} {pointers : List Pointer}
    (each : ∀ pointer ∈ pointers, ∀ inner,
      step (frame inner) (base ++ pointer) = frame <$> step inner pointer) (inner : Document) :
    (pointers.map (base ++ ·)).foldlM step (frame inner) =
      frame <$> pointers.foldlM step inner := by
  induction pointers generalizing inner with
  | nil => rfl
  | cons pointer rest ih =>
      rw [List.map_cons, List.foldlM_cons, each pointer List.mem_cons_self, List.foldlM_cons]
      cases step inner pointer with
      | ok next => exact ih (fun other later => each other (List.mem_cons_of_mem _ later)) next
      | error failure => rfl

variable (framed : Frame base frame)
include framed

theorem at?_append (inner : Document) (pointer : Pointer) :
    (frame inner).at? (base ++ pointer) = inner.at? pointer := by
  rw [Document.at?_append, framed.at?, Option.bind_some]

theorem changeAt_append (change : Document → Document) (pointer : Pointer) (inner : Document) :
    Document.changeAt change (base ++ pointer) (frame inner) =
      frame (Document.changeAt change pointer inner) := by
  rw [Document.changeAt_append, framed.changeAt]

theorem findBelow_append (inner : Document) (key : String) (pointer : Pointer)
    (stop : Option String) :
    (frame inner).findBelow key (base ++ pointer) stop =
      (inner.findBelow key pointer stop).map (base ++ ·) := by
  rw [findBelow, findBelow, framed.at?_append]
  cases inner.at? pointer with
  | none => rfl
  | some start =>
      rw [List.map_map]
      apply List.map_congr_left
      intro tail _
      exact List.append_assoc base pointer tail

theorem collectTable (inner : Document) (scope : Scope) (pointer : Pointer) :
    collectTable (frame inner, scope) (base ++ pointer) =
      (frame (Access.collectTable (inner, scope) pointer).1,
        (Access.collectTable (inner, scope) pointer).2) := by
  simp only [Access.collectTable, framed.at?_append]
  cases inner.at? pointer with
  | none => rfl
  | some table =>
      cases table with
      | object fields =>
          dsimp only
          split
          · rfl
          · rw [framed.changeAt_append]
      | array items => rfl
      | null => rfl
      | bool value => rfl
      | number mantissa places => rfl
      | string value => rfl

theorem foldl_collectTable (pointers : List Pointer) (inner : Document) (scope : Scope) :
    (pointers.map (base ++ ·)).foldl Access.collectTable (frame inner, scope) =
      (frame (pointers.foldl Access.collectTable (inner, scope)).1,
        (pointers.foldl Access.collectTable (inner, scope)).2) := by
  induction pointers generalizing inner scope with
  | nil => rfl
  | cons pointer rest ih =>
      rw [List.map_cons, List.foldl_cons, framed.collectTable, ih, List.foldl_cons]

theorem qualifyCompound (scope : Scope) (start : List String) (inner : Document)
    (pointer : Pointer) :
    qualifyCompound scope start (frame inner) (base ++ pointer) =
      frame (Access.qualifyCompound scope start inner pointer) := by
  simp only [Access.qualifyCompound, framed.at?_append]
  split
  · rw [framed.changeAt_append]
  · rfl

theorem qualifyBare (inspector : Inspector) (placeholder : String) (scope : Scope)
    (inner : Document) {pointer : Pointer} (nonempty : pointer ≠ []) :
    qualifyBare inspector placeholder scope (frame inner) (base ++ pointer) =
      frame <$> Access.qualifyBare inspector placeholder scope inner pointer := by
  simp only [Access.qualifyBare, framed.at?_append, List.dropLast_append_of_ne_nil nonempty,
    framed.changeAt_append]
  cases owner inspector placeholder scope.tables
    (((inner.at? pointer).map identValue).getD "") with
  | ok table => rfl
  | error failure => rfl

/-- A SELECT of a document is qualified in a frame as in the document. -/
theorem qualifySelect (inspector : Inspector) (start : List String) (placeholder : String)
    (inner : Document) (select : Pointer) :
    qualifySelect inspector start placeholder (frame inner) (base ++ select) =
      frame <$> Access.qualifySelect inspector start placeholder inner select := by
  simp only [Access.qualifySelect, collectTables, List.append_assoc base select,
    framed.findBelow_append, framed.foldl_collectTable,
    foldl_commutes fun pointer _ inner => framed.qualifyCompound _ start inner pointer]
  refine foldlM_commutes (fun pointer listed inner => ?_) _
  obtain ⟨front, rfl⟩ := exists_front_of_mem_findBelow listed
  exact framed.qualifyBare inspector placeholder _ inner (by simp)

theorem foldlM_qualifySelect (inspector : Inspector) (start : List String) (placeholder : String)
    (pointers : List Pointer) (inner : Document) :
    (pointers.map (base ++ ·)).foldlM (Access.qualifySelect inspector start placeholder)
        (frame inner) =
      frame <$> pointers.foldlM (Access.qualifySelect inspector start placeholder) inner :=
  foldlM_commutes (fun pointer _ inner => framed.qualifySelect inspector start placeholder inner
    pointer) inner

theorem stripAlias (inner : Document) {pointer : Pointer} (nonempty : pointer ≠ []) :
    stripAlias (frame inner) (base ++ pointer) = frame (Access.stripAlias inner pointer) := by
  rw [Access.stripAlias, Access.stripAlias, framed.at?_append,
    List.dropLast_append_of_ne_nil nonempty]
  cases (inner.at? pointer).bind (Document.field? "expr") with
  | some expr => exact framed.changeAt_append _ _ inner
  | none => rfl

theorem stripAliases {inner : Document}
    (finds : (frame inner).find "ExprWithAlias" none =
      (inner.find "ExprWithAlias" none).map (base ++ ·)) :
    stripAliases (frame inner) = frame (Access.stripAliases inner) := by
  rw [Access.stripAliases, finds, Access.stripAliases]
  exact foldl_commutes
    (fun pointer listed inner => framed.stripAlias inner (ne_nil_of_mem_find listed)) inner

theorem padTables (start : List String) (inner : Document)
    (finds : (frame inner).find "Table" none = (inner.find "Table" none).map (base ++ ·)) :
    padTables start (frame inner) = frame (Access.padTables start inner) := by
  rw [Access.padTables, finds, Access.padTables]
  exact foldl_commutes
    (fun pointer _ inner => framed.changeAt_append (padTable start) pointer inner) inner

end Frame

/-! ## A query alone and in a derived table -/

/-- Where the document of a query stands in that of a text with nothing else. -/
def statementPlace : Pointer := ["0", "Query"]

/-- A text with one query. -/
def statementFrame (inner : Document) : Document :=
  .array [.single "Query" inner]

/-- The SELECT of a query that takes a column from a derived table. -/
def outerPlace : Pointer := ["0", "Query", "body", "Select"]

/-- Where the document of a derived table stands in the SELECT that reads from it alone. -/
def subqueryPlace : Pointer := ["from", "0", "relation", "Derived", "subquery"]

/-- Where the document of a derived table stands in a text with nothing around it. -/
def derivedPlace : Pointer := outerPlace ++ subqueryPlace

/-- The SELECT of a column with some identifiers from a derived table with a label. -/
def derivedSelect (label : Sql.Name) (idents inner : Document) : Document :=
  .object
    [("cluster_by", .array []), ("connect_by", .null), ("distinct", .null),
      ("distribute_by", .array []),
      ("from", .array [.object
        [("joins", .array []),
          ("relation", .single "Derived" (.object
            [("alias", Grammar.View.tableAlias (some { name := label })),
              ("lateral", .bool false), ("subquery", inner)]))]]),
      ("group_by", Grammar.View.groupBy [] (some [])),
      ("having", .null), ("into", .null), ("lateral_views", .array []),
      ("named_window", .array []), ("prewhere", .null),
      ("projection", .array [.single "UnnamedExpr" (.single "CompoundIdentifier" idents)]),
      ("qualify", .null), ("selection", .null), ("sort_by", .array []), ("top", .null),
      ("value_table_mode", .null)]

/-- A text with one query, which takes a column with some identifiers from a derived table. -/
def derivedFrame (label : Sql.Name) (idents inner : Document) : Document :=
  statementFrame <| .object
    [("body", .single "Select" (derivedSelect label idents inner)),
      ("fetch", .null), ("for_clause", .null), ("format_clause", .null), ("limit", .null),
      ("limit_by", .array []), ("locks", .array []), ("offset", .null), ("order_by", .null),
      ("settings", .null), ("with", .null)]

theorem frame_statement : Frame statementPlace statementFrame :=
  ⟨fun _ => rfl, fun _ _ => rfl⟩

theorem frame_derived (label : Sql.Name) (idents : Document) :
    Frame derivedPlace (derivedFrame label idents) :=
  ⟨fun _ => rfl, fun _ _ => rfl⟩

theorem view_statement (query : Grammar.Query) :
    queriesView [query] = statementFrame (Grammar.View.query query) := rfl

theorem view_wrapped (label column : Sql.Name) (query : Grammar.Query) :
    queriesView [query.wrapped label column] =
      derivedFrame label (Grammar.View.names [label, column]) (Grammar.View.query query) := by
  rfl

/-! ## What is found around the query -/

variable {label : Sql.Name} {idents inner : Document} {stop : Option String}

theorem find_text? (key : String) (text : Option String) :
    (Grammar.View.text? text).find key stop = [] := by
  cases text <;> rfl

theorem find_statementFrame {key : String} (other : key ≠ "Query") (passes : stop ≠ some "Query") :
    (statementFrame inner).find key stop = (inner.find key stop).map (statementPlace ++ ·) := by
  simp only [statementFrame, Document.single, find, findInItems, findInFields, if_neg other.symm,
    if_neg passes, List.nil_append, List.append_nil, List.map_map]
  rfl

theorem find_names (label column : Sql.Name) {key : String}
    (listed : key ∈ ["Table", "CompoundIdentifier", "Select"]) :
    (Grammar.View.names [label, column]).find key stop = [] := by
  simp only [List.mem_cons, List.not_mem_nil, or_false] at listed
  rcases listed with rfl | rfl | rfl <;>
    simp [Grammar.View.names, Grammar.View.name, find, findInItems, findInFields, find_text?]

theorem step_zero : String.ofList (Number.natText 0) = "0" := by decide

/-- In a SELECT from a derived table alone everything is found in the derived table. -/
theorem find_derivedSelect {key : String}
    (listed : key ∈ ["Table", "Identifier", "ExprWithAlias", "Select"])
    (passes : stop ∈ [none, some "Select"]) (absent : idents.find key stop = []) :
    (derivedSelect label idents inner).find key stop =
      (inner.find key stop).map (subqueryPlace ++ ·) := by
  simp only [List.mem_cons, List.not_mem_nil, or_false] at listed passes
  rcases listed with rfl | rfl | rfl | rfl <;> rcases passes with rfl | rfl <;>
    simp [derivedSelect, Document.single, find, findInItems, findInFields, absent, find_text?,
      step_zero, Grammar.View.tableAlias, Grammar.View.name, Grammar.View.groupBy,
      Grammar.View.exprs, subqueryPlace]

/-- Beside the column in front of FROM. -/
theorem compounds_derivedSelect (absent : idents.find "CompoundIdentifier" (some "Select") = []) :
    (derivedSelect label idents inner).find "CompoundIdentifier" (some "Select") =
      (inner.find "CompoundIdentifier" (some "Select")).map (subqueryPlace ++ ·) ++
        [["projection", "0", "UnnamedExpr", "CompoundIdentifier"]] := by
  simp [derivedSelect, Document.single, find, findInItems, findInFields, absent, find_text?,
    step_zero, Grammar.View.tableAlias, Grammar.View.name, Grammar.View.groupBy,
    Grammar.View.exprs, subqueryPlace]

theorem find_derivedFrame {key : String} (listed : key ∈ ["Table", "ExprWithAlias"])
    (absent : idents.find key none = []) :
    (derivedFrame label idents inner).find key none =
      (inner.find key none).map (derivedPlace ++ ·) := by
  have inside : (derivedSelect label idents inner).find key none =
      (inner.find key none).map (subqueryPlace ++ ·) := by
    apply find_derivedSelect _ (by simp) absent
    simp only [List.mem_cons, List.not_mem_nil, or_false] at listed ⊢
    tauto
  simp only [List.mem_cons, List.not_mem_nil, or_false] at listed
  rcases listed with rfl | rfl <;>
    simp [derivedFrame, find_statementFrame, Document.single, find, findInItems, findInFields,
      inside, derivedPlace, outerPlace, statementPlace]

theorem selects_derivedFrame (absent : idents.find "Select" none = []) :
    (derivedFrame label idents inner).find "Select" none =
      outerPlace :: (inner.find "Select" none).map (derivedPlace ++ ·) := by
  have inside : (derivedSelect label idents inner).find "Select" none =
      (inner.find "Select" none).map (subqueryPlace ++ ·) :=
    find_derivedSelect (by simp) (by simp) absent
  simp [derivedFrame, find_statementFrame, Document.single, find, findInItems, findInFields, inside,
    derivedPlace, outerPlace, statementPlace]

/-! ## A query alone -/

variable {inspector : Inspector} {start : List String} {placeholder : String}

/-- A text with one query is prepared as the document of the query. -/
theorem prepare_statementFrame (context : Context) (inner : Document) :
    prepare inspector context placeholder (statementFrame inner) =
      statementFrame <$> prepare inspector context placeholder inner := by
  have framed := frame_statement
  have finds (key : String) (other : key ≠ "Query") (inner : Document) :
      (statementFrame inner).find key none = (inner.find key none).map (statementPlace ++ ·) :=
    find_statementFrame other (by simp)
  simp only [prepare, framed.padTables _ _ (finds "Table" (by simp) inner),
    finds "Select" (by simp), framed.foldlM_qualifySelect]
  cases ((padTables (context.start placeholder) inner).find "Select" none).foldlM
    (qualifySelect inspector (context.start placeholder) placeholder)
      (padTables (context.start placeholder) inner) with
  | error failure => rfl
  | ok qualified =>
      exact congrArg Except.ok (framed.stripAliases (finds "ExprWithAlias" (by simp) qualified))

/-! ## A query in a derived table -/

/-- A document in which all columns and all tables with a name lie in SELECTs. -/
structure Enclosed (document : Document) : Prop where
  bare : document.find "Identifier" (some "Select") = []
  compounds : document.find "CompoundIdentifier" (some "Select") = []
  tables : ∀ table ∈ document.values "Table" (some "Select"), tableName? table = none

instance (document : Document) : Decidable (Enclosed document) :=
  decidable_of_iff
    (document.find "Identifier" (some "Select") = [] ∧
      document.find "CompoundIdentifier" (some "Select") = [] ∧
      ∀ table ∈ document.values "Table" (some "Select"), tableName? table = none)
    ⟨fun ⟨bare, compounds, tables⟩ => ⟨bare, compounds, tables⟩,
      fun ⟨bare, compounds, tables⟩ => ⟨bare, compounds, tables⟩⟩

/-- Tables without names are not collected. -/
theorem foldl_collectTable_of_unnamed {document : Document} {scope : Scope}
    {pointers : List Pointer}
    (unnamed : ∀ pointer ∈ pointers, ∀ table, document.at? pointer = some table →
      tableName? table = none) :
    pointers.foldl collectTable (document, scope) = (document, scope) := by
  induction pointers with
  | nil => rfl
  | cons pointer rest ih =>
      obtain ⟨here, later⟩ := List.forall_mem_cons.1 unnamed
      rcases collectTable_cases document scope pointer with
        ⟨same, -⟩ | ⟨fields, name, leads, named, -⟩
      · rw [List.foldl_cons, same, ih later]
      · rw [here _ leads] at named
        cases named

theorem collectTables_derivedFrame (keyed : Keyed inner)
    (unnamed : ∀ table ∈ inner.values "Table" (some "Select"), tableName? table = none) :
    collectTables (derivedFrame label idents inner) outerPlace =
      (derivedFrame label idents inner, {}) := by
  have framed := frame_derived label idents
  have listed : (derivedFrame label idents inner).findBelow "Table" (outerPlace ++ ["from"])
      (some "Select") = (inner.find "Table" (some "Select")).map (derivedPlace ++ ·) := by
    change (Document.find "Table" (some "Select") (.array [.object [("joins", .array []), _]])).map
      ((outerPlace ++ ["from"]) ++ ·) = _
    simp [Document.single, find, findInItems, findInFields, find_text?, step_zero,
      Grammar.View.tableAlias, Grammar.View.name, derivedPlace, outerPlace, subqueryPlace]
  have alone : (inner.find "Table" (some "Select")).foldl collectTable (inner, {}) = (inner, {}) := by
    apply foldl_collectTable_of_unnamed
    intro pointer there table leads
    apply unnamed
    have member : inner.at? pointer ∈ (inner.find "Table" (some "Select")).map inner.at? :=
      List.mem_map_of_mem there
    rw [map_at?_find keyed, leads] at member
    simpa using member
  rw [collectTables, listed, framed.foldl_collectTable, alone]

/-- The SELECT around a derived table that encloses its columns writes its own column in full. -/
theorem qualifySelect_derivedFrame {column : Sql.Name} (keyed : Keyed inner)
    (enclosed : Enclosed inner) :
    qualifySelect inspector start placeholder
        (derivedFrame label (Grammar.View.names [label, column]) inner) outerPlace =
      .ok (derivedFrame label
        (chain (qualifierTable {} start [label.value]) column.value) inner) := by
  have compounds : (derivedFrame label (Grammar.View.names [label, column]) inner).findBelow
      "CompoundIdentifier" outerPlace (some "Select") =
        [outerPlace ++ ["projection", "0", "UnnamedExpr", "CompoundIdentifier"]] := by
    change ((derivedSelect label (Grammar.View.names [label, column]) inner).find _ _).map _ = _
    rw [compounds_derivedSelect (find_names label column (by simp)), enclosed.compounds]
    rfl
  have written : qualifyCompound {} start
      (derivedFrame label (Grammar.View.names [label, column]) inner)
        (outerPlace ++ ["projection", "0", "UnnamedExpr", "CompoundIdentifier"]) =
      derivedFrame label (chain (qualifierTable {} start [label.value]) column.value) inner := rfl
  have bare : (derivedFrame label (chain (qualifierTable {} start [label.value]) column.value)
      inner).findBelow "Identifier" outerPlace (some "Select") = [] := by
    change ((derivedSelect label _ inner).find _ _).map _ = _
    rw [find_derivedSelect (by simp) (by simp) (find_of_inert (inert_chain _ _) (by decide) _),
      enclosed.bare]
    rfl
  rw [qualifySelect, collectTables_derivedFrame keyed enclosed.tables]
  simp only [compounds, List.foldl_cons, List.foldl_nil, written, bare]
  rfl

/-- Padding names no tables that have no name. -/
theorem unnamed_padTables {document : Document} (regular : Regular document)
    (unnamed : ∀ table ∈ document.values "Table" (some "Select"), tableName? table = none)
    (start : List String) :
    ∀ table ∈ (padTables start document).values "Table" (some "Select"), tableName? table = none := by
  rw [padTables_eq_padAll regular]
  intro table member
  obtain ⟨front, passes, leads⟩ :=
    (mem_values_iff (padAll_kept regular start).1.keyed (by decide) index?_select).1 member
  rw [at?_padAll regular start (by decide)] at leads
  obtain ⟨old, here, rfl⟩ := Option.map_eq_some_iff.1 leads
  have before := unnamed old
    ((mem_values_iff regular.keyed (by decide) index?_select).2 ⟨front, passes, here⟩)
  simp [padField, tableName?_padTable, tableName?_padAll (regular.at? here), before]

theorem keyed_padTables {document : Document} (regular : Regular document) (start : List String) :
    Keyed (padTables start document) := by
  rw [padTables_eq_padAll regular]
  exact (padAll_kept regular start).1.keyed

/-- Padding brings no columns and no names of tables. -/
theorem Enclosed.padTables {document : Document} (regular : Regular document)
    (enclosed : Enclosed document) (start : List String) :
    Enclosed (padTables start document) := by
  have stays {key : String} (mark : key ∈ marks)
      (none : document.find key (some "Select") = []) :
      (Access.padTables start document).find key (some "Select") = [] := by
    rw [List.eq_nil_iff_forall_not_mem] at none ⊢
    intro pointer listed
    obtain ⟨front, rfl⟩ := exists_front_of_mem_find key _ _ listed
    obtain ⟨passes, leads⟩ := (mem_find_iff (keyed_padTables regular start)
      (index?_of_mem_marks mark) index?_select).1 listed
    rw [padTables_eq_padAll regular, at?_padAll regular start mark, Option.isSome_map] at leads
    exact none _
      ((mem_find_iff regular.keyed (index?_of_mem_marks mark) index?_select).2 ⟨passes, leads⟩)
  exact ⟨stays (by decide) enclosed.bare, stays (by decide) enclosed.compounds,
    unnamed_padTables regular enclosed.tables start⟩

/-- A query that encloses its columns is prepared in a derived table as alone. -/
theorem prepare_derivedFrame {column : Sql.Name} (context : Context) (regular : Regular inner)
    (enclosed : Enclosed inner) :
    prepare inspector context placeholder
        (derivedFrame label (Grammar.View.names [label, column]) inner) =
      derivedFrame label
        (chain (qualifierTable {} (context.start placeholder) [label.value]) column.value) <$>
          prepare inspector context placeholder inner := by
  have padded := enclosed.padTables regular (context.start placeholder)
  have keyed := keyed_padTables regular (context.start placeholder)
  have before := frame_derived label (Grammar.View.names [label, column])
  have after := frame_derived label
    (chain (qualifierTable {} (context.start placeholder) [label.value]) column.value)
  simp only [prepare,
    before.padTables _ _ (find_derivedFrame (by simp) (find_names label column (by simp))),
    selects_derivedFrame (find_names label column (by simp)), List.foldlM_cons,
    Result.bind_of_ok (qualifySelect_derivedFrame keyed padded), after.foldlM_qualifySelect]
  cases ((Access.padTables (context.start placeholder) inner).find "Select" none).foldlM
    (qualifySelect inspector (context.start placeholder) placeholder)
      (Access.padTables (context.start placeholder) inner) with
  | error failure => rfl
  | ok qualified =>
      exact congrArg Except.ok (after.stripAliases
        (find_derivedFrame (by simp) (find_of_inert (inert_chain _ _) (by decide) _)))

/-! ## What lies beside the SELECTs of a query -/

/-- Every column of a query that takes one from a derived table lies in its SELECT. -/
theorem columns_derivedFrame {key : String} (listed : key ∈ ["Identifier", "CompoundIdentifier"]) :
    (derivedFrame label idents inner).find key (some "Select") = [] := by
  simp only [List.mem_cons, List.not_mem_nil, or_false] at listed
  rcases listed with rfl | rfl <;>
    simp [derivedFrame, find_statementFrame, Document.single, find, findInItems, findInFields]

theorem mem_select_of_faulty {document : Document} (keyed : Keyed document) {fault : Fault}
    (none : document.find fault.key (some "Select") = []) {front : Pointer}
    (faulty : Faulty fault front document) : "Select" ∈ front := by
  obtain ⟨value, leads, _⟩ := faulty
  by_contra outside
  have listed : front ++ [fault.key] ∈ document.find fault.key (some "Select") := by
    refine (mem_find_iff keyed (index?_of_mem_marks fault.key_mem_marks) index?_select).2 ⟨?_, ?_⟩
    · rintro name passes ⟨⟩
      exact outside passes
    · rw [leads]
      rfl
  rw [none] at listed
  cases listed

/-- In a text that consists of a query, faults lie in the query. -/
theorem exists_faulty_of_statementFrame {fault : Fault} {front : Pointer}
    (keyed : Keyed (statementFrame inner)) (faulty : Faulty fault front (statementFrame inner)) :
    ∃ rest, front = statementPlace ++ rest ∧ Faulty fault rest inner := by
  obtain ⟨value, leads, shows⟩ := faulty
  have listed : front ++ [fault.key] ∈ (statementFrame inner).find fault.key none :=
    (mem_find_iff keyed (index?_of_mem_marks fault.key_mem_marks) (by simp)).2
      ⟨by simp, by simp [leads]⟩
  rw [find_statementFrame (by cases fault <;> simp [Fault.key]) (by simp)] at listed
  obtain ⟨tail, found, same⟩ := List.mem_map.1 listed
  obtain ⟨rest, rfl⟩ := exists_front_of_mem_find _ _ _ found
  rw [← same, frame_statement.at?_append] at leads
  rw [← List.append_assoc, List.append_left_inj] at same
  exact ⟨rest, same.symm, value, leads, shows⟩

/-- A column that lacks parts and lies beside the SELECTs of a query is not the same in the query
prepared alone and in a derived table. -/
theorem not_faulty_of_alike {context : Context} {column : Sql.Name} {query : Grammar.Query}
    {alone outer : Document}
    (first : prepare inspector context placeholder (queriesView [query]) = .ok alone)
    (second : prepare inspector context placeholder (queriesView [query.wrapped label column]) =
      .ok outer)
    (alike : outer.at? derivedPlace = alone.at? statementPlace) {fault : Fault}
    (isColumn : fault = .bare ∨ fault = .short) {front : Pointer} (outside : "Select" ∉ front) :
    ¬ Faulty fault front (queriesView [query]) := by
  have written (queries : List Grammar.Query) :
      ∀ front, ¬ Faulty .lone front (queriesView queries) :=
    not_lone_of_dotted (lists_queriesView queries).regular (dotted_queriesView queries)
  intro faulty
  obtain ⟨⟨_, whole⟩, kept⟩ :=
    (lists_queriesView [query]).exists_faulty_prepare_iff (written _) first
  obtain ⟨_, left⟩ := (lists_queriesView [_]).exists_faulty_prepare_iff (written _) second
  have uncovered : ¬ Covered fault front := by
    rcases isColumn with rfl | rfl <;> exact outside
  obtain ⟨place, remains⟩ := (kept fault).2 ⟨front, faulty, uncovered⟩
  rw [view_statement, prepare_statementFrame] at first
  obtain ⟨inner, -, rfl⟩ := Result.map_eq_ok.1 first
  obtain ⟨rest, -, value, leads, shows⟩ :=
    exists_faulty_of_statementFrame whole.lists.regular.keyed remains
  rw [frame_statement.at?] at alike
  have there : Faulty fault (derivedPlace ++ rest) outer := by
    refine ⟨value, ?_, shows⟩
    rw [List.append_assoc, Document.at?_append, alike]
    exact leads
  obtain ⟨home, before, uncovered⟩ := (left fault).1 ⟨_, there⟩
  have inSelect : "Select" ∈ home := by
    refine mem_select_of_faulty (lists_queriesView _).regular.keyed ?_ before
    rw [view_wrapped]
    exact columns_derivedFrame (by rcases isColumn with rfl | rfl <;> simp [Fault.key])
  exact uncovered (by rcases isColumn with rfl | rfl <;> exact inSelect)

/-- Without tables no owner is found. -/
theorem foldlM_qualifyBare_eq_error {document : Document} {pointers : List Pointer}
    (some : pointers ≠ []) :
    ∃ name, pointers.foldlM (qualifyBare inspector placeholder {}) document =
      .error (.columnNotInAnyTable name) := by
  obtain ⟨pointer, rest, rfl⟩ := List.exists_cons_of_ne_nil some
  exact ⟨_, rfl⟩

variable {names : List (List (List String))}

/-- The SELECT around a derived table has no tables for a bare column beside the SELECTs in it. -/
theorem exists_qualifySelect_eq_error (inspector : Inspector) (placeholder : String)
    (whole : Whole names (derivedFrame label idents inner)) (keyed : Keyed inner)
    (long : start.length = 3)
    (unnamed : ∀ table ∈ inner.values "Table" (some "Select"), tableName? table = none)
    {front : Pointer} (outside : "Select" ∉ front) (bare : Faulty .bare front inner) :
    ∃ name, qualifySelect inspector start placeholder (derivedFrame label idents inner) outerPlace =
      .error (.columnNotInAnyTable name) := by
  have none : Scope.Full {} := ⟨List.forall_mem_nil _, List.forall_mem_nil _⟩
  obtain ⟨written, faults⟩ := whole.foldl_qualifyCompound none long
    fun pointer (listed : pointer ∈ (derivedFrame label idents inner).findBelow "CompoundIdentifier"
      outerPlace (some "Select")) => exists_front_of_mem_findBelow listed
  have before : Faulty .bare (derivedPlace ++ front) (derivedFrame label idents inner) := by
    obtain ⟨value, leads, shows⟩ := bare
    refine ⟨value, ?_, shows⟩
    rw [List.append_assoc, (frame_derived label idents).at?_append, leads]
  have after := (faults .bare (derivedPlace ++ front)).2 ⟨before, by simp [Fault.key]⟩
  have listed := (mem_findBelow_of_faulty written.lists.regular after outerPlace).2
    ⟨subqueryPlace ++ front, by rw [derivedPlace, List.append_assoc],
      by simpa [subqueryPlace] using outside⟩
  rw [qualifySelect, collectTables_derivedFrame keyed unnamed]
  exact foldlM_qualifyBare_eq_error (List.ne_nil_of_mem listed)

/-- A bare column beside the SELECTs of a query has no owner in a derived table. -/
theorem exists_prepare_eq_error (context : Context) (label column : Sql.Name)
    {query : Grammar.Query}
    (unnamed : ∀ table ∈ (Grammar.View.query query).values "Table" (some "Select"),
      tableName? table = none)
    (bare : (Grammar.View.query query).find "Identifier" (some "Select") ≠ []) :
    ∃ name, prepare inspector context placeholder (queriesView [query.wrapped label column]) =
      .error (.columnNotInAnyTable name) := by
  have regular : Regular (Grammar.View.query query) := (Grammar.View.tells_query query).regular
  have keyed := keyed_padTables regular (context.start placeholder)
  have padded := (frame_derived label (Grammar.View.names [label, column])).padTables
    (context.start placeholder) (Grammar.View.query query)
    (find_derivedFrame (by simp) (find_names label column (by simp)))
  have whole := (lists_queriesView [query.wrapped label column]).whole_padTables
    (not_lone_of_dotted (lists_queriesView _).regular (dotted_queriesView _)) context placeholder
  rw [view_wrapped, padded] at whole
  obtain ⟨pointer, listed⟩ := List.exists_mem_of_ne_nil _ bare
  obtain ⟨front, rfl⟩ := exists_front_of_mem_find _ _ _ listed
  obtain ⟨passes, leads⟩ := (mem_find_iff regular.keyed (by decide) index?_select).1 listed
  obtain ⟨ident, here⟩ := Option.isSome_iff_exists.1 leads
  have faulty := (faulty_padTables regular (context.start placeholder) .bare front).2
    ⟨ident, here, trivial⟩
  obtain ⟨name, refused⟩ := exists_qualifySelect_eq_error inspector placeholder whole keyed
    (length_start context placeholder) (unnamed_padTables regular unnamed _)
    (fun passed => passes _ passed rfl) faulty
  refine ⟨name, ?_⟩
  simp only [prepare, view_wrapped, padded,
    selects_derivedFrame (find_names label column (by simp)), List.foldlM_cons, refused]
  rfl

/-- A query with all columns and all named tables in SELECTs is prepared in a derived table as alone,
and fails there as alone. One that is prepared alike has no column beside its SELECTs, unless it is
written in full. And with a bare column beside them, where no table is named, it is refused. -/
theorem queries_are_prepared_alike_in_derived_tables (inspector : Inspector) (context : Context)
    (placeholder : String) (label column : Sql.Name) (query : Grammar.Query) :
    (Enclosed (Grammar.View.query query) →
      (prepare inspector context placeholder (queriesView [query.wrapped label column])).map
          (·.at? derivedPlace) =
        (prepare inspector context placeholder (queriesView [query])).map (·.at? statementPlace)) ∧
    (∀ alone outer, prepare inspector context placeholder (queriesView [query]) = .ok alone →
      prepare inspector context placeholder (queriesView [query.wrapped label column]) = .ok outer →
      outer.at? derivedPlace = alone.at? statementPlace →
        (Grammar.View.query query).find "Identifier" (some "Select") = [] ∧
        ∀ parts ∈ (Grammar.View.query query).values "CompoundIdentifier" (some "Select"),
          tableParts < (identValues parts).length) ∧
    ((∀ table ∈ (Grammar.View.query query).values "Table" (some "Select"), tableName? table = none) →
      (Grammar.View.query query).find "Identifier" (some "Select") ≠ [] →
        ∃ name, prepare inspector context placeholder (queriesView [query.wrapped label column]) =
          .error (.columnNotInAnyTable name)) := by
  have regular : Regular (Grammar.View.query query) := (Grammar.View.tells_query query).regular
  refine ⟨fun enclosed => ?_, fun alone outer first second alike => ?_,
    fun unnamed bare => exists_prepare_eq_error context label column unnamed bare⟩
  · rw [view_wrapped, view_statement, prepare_derivedFrame context regular enclosed,
      prepare_statementFrame]
    cases prepare inspector context placeholder (Grammar.View.query query) with
    | error failure => rfl
    | ok inner => rfl
  · have lacking {fault : Fault} (isColumn : fault = .bare ∨ fault = .short) {front : Pointer}
        (outside : "Select" ∉ front) : ¬ Faulty fault front (Grammar.View.query query) := by
      rintro ⟨value, leads, shows⟩
      have beside : "Select" ∉ statementPlace ++ front := by simpa [statementPlace] using outside
      refine not_faulty_of_alike first second alike isColumn beside ⟨value, ?_, shows⟩
      rw [List.append_assoc, view_statement, frame_statement.at?_append, leads]
    constructor
    · rw [List.eq_nil_iff_forall_not_mem]
      intro pointer listed
      obtain ⟨front, rfl⟩ := exists_front_of_mem_find _ _ _ listed
      obtain ⟨passes, leads⟩ := (mem_find_iff regular.keyed (by decide) index?_select).1 listed
      obtain ⟨ident, here⟩ := Option.isSome_iff_exists.1 leads
      exact lacking (.inl rfl) (fun passed => passes _ passed rfl) ⟨ident, here, trivial⟩
    · intro parts member
      obtain ⟨front, passes, leads⟩ :=
        (mem_values_iff regular.keyed (by decide) index?_select).1 member
      by_contra few
      exact lacking (.inr rfl) (fun passed => passes _ passed rfl) ⟨parts, leads, Nat.not_lt.1 few⟩

/-- A text that is read as one query, of which a check holds. -/
theorem exists_query_of_any (text : String) (check : Grammar.Query → Bool)
    (holds : ((queries? text).any fun queries => queries.length == 1 && queries.all check) = true) :
    ∃ query, queries? text = some [query] ∧ check query = true := by
  obtain ⟨queries, read, both⟩ := (Option.any_eq_true _ _).1 holds
  rw [Bool.and_eq_true, beq_iff_eq] at both
  obtain ⟨query, rfl⟩ := List.length_eq_one_iff.1 both.1
  exact ⟨query, read, by simpa using both.2⟩

/-- A query that is prepared in a derived table as alone, and one that orders its rows by a bare
column: it is prepared alone, and refused in a derived table. -/
theorem queries_are_prepared_alike_in_derived_tables_sales :
    let inspector : Inspector := .declared [{ table := "sales", columns := ["price", "region"] }]
    let context : Context := { database := "db" }
    let label : Sql.Name := { value := "t" }
    let column : Sql.Name := { value := "x" }
    (∃ query inner, queries? "SELECT s.price FROM sales AS s WHERE region = 'x'" = some [query] ∧
      Enclosed (Grammar.View.query query) ∧
      (prepare inspector context "null" (queriesView [query])).map (·.at? statementPlace) =
        .ok (some inner) ∧
      (prepare inspector context "null" (queriesView [query.wrapped label column])).map
        (·.at? derivedPlace) = .ok (some inner)) ∧
    ∃ query name, queries? "SELECT price FROM sales ORDER BY price" = some [query] ∧
      (∃ alone, prepare inspector context "null" (queriesView [query]) = .ok alone) ∧
      prepare inspector context "null" (queriesView [query.wrapped label column]) =
        .error (.columnNotInAnyTable name) := by
  intro inspector context label column
  obtain ⟨first, firstRead, firstHolds⟩ :=
    exists_query_of_any "SELECT s.price FROM sales AS s WHERE region = 'x'"
      (fun query => decide (Enclosed (Grammar.View.query query)) &&
        (prepare inspector context "null" (queriesView [query])).toOption.isSome)
      (by decide +kernel)
  obtain ⟨second, secondRead, secondHolds⟩ :=
    exists_query_of_any "SELECT price FROM sales ORDER BY price"
      (fun query =>
        (decide (∀ table ∈ (Grammar.View.query query).values "Table" (some "Select"),
            tableName? table = none) &&
          decide ((Grammar.View.query query).find "Identifier" (some "Select") ≠ [])) &&
          (prepare inspector context "null" (queriesView [query])).toOption.isSome)
      (by decide +kernel)
  simp only [Bool.and_eq_true, decide_eq_true_eq] at firstHolds secondHolds
  obtain ⟨enclosed, firstDone⟩ := firstHolds
  obtain ⟨⟨unnamed, bare⟩, secondDone⟩ := secondHolds
  constructor
  · obtain ⟨alike, -, -⟩ :=
      queries_are_prepared_alike_in_derived_tables inspector context "null" label column first
    obtain ⟨alone, done⟩ := Result.exists_eq_ok firstDone
    have shape := done
    rw [view_statement, prepare_statementFrame] at shape
    obtain ⟨inner, -, rfl⟩ := Result.map_eq_ok.1 shape
    refine ⟨first, inner, firstRead, enclosed, ?_, ?_⟩
    · rw [done]
      rfl
    · rw [alike enclosed, done]
      rfl
  · obtain ⟨-, -, refused⟩ :=
      queries_are_prepared_alike_in_derived_tables inspector context "null" label column second
    obtain ⟨name, failed⟩ := refused unnamed bare
    exact ⟨second, name, secondRead, Result.exists_eq_ok secondDone, failed⟩

example : ((queries? "SELECT t.x FROM (SELECT price FROM sales ORDER BY price) AS t").bind
    fun queries => Result.failure? (prepare
      (.declared [{ table := "sales", columns := ["price", "region"] }]) { database := "db" } "null"
        (queriesView queries))) = some (.columnNotInAnyTable "price") := by decide +kernel

end Access
end SemanticLayer
