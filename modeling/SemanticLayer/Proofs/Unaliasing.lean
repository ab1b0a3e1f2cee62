import Mathlib.Algebra.Order.BigOperators.Group.List
import Mathlib.Algebra.Order.Ring.Nat
import Mathlib.Logic.Function.Iterate
import SemanticLayer.Proofs.Readers
import SemanticLayer.Proofs.Wrapping

/-!
# Entries without their aliases

The pass that takes the aliases from the entries of projections lists all entries first and rewrites
one after the other. Rewriting an entry renames a field on the way to every entry in it, and those
are not found any more where they were listed. One run reaches the entries that lie in no other one,
and it takes as many runs as entries lie in one another to reach them all.
-/

namespace SemanticLayer

/-! ## The document of a text -/

namespace Grammar

open Document

/-- A reader reads only what has a property. -/
def Reader.Yields {α : Type} (property : α → Prop) (reader : Reader α) : Prop :=
  ∀ lexemes rest value, reader lexemes = .ok (value, rest) → property value

namespace Reader.Yields

variable {α β : Type} {property : β → Prop}

theorem pure {value : β} (holds : property value) : Yields property (Pure.pure value) := by
  rintro _ _ _ ⟨⟩
  exact holds

theorem unexpected : Yields property unexpected := by
  rintro _ _ _ ⟨⟩

theorem bind {first : α → Prop} {reader : Reader α} {further : α → Reader β}
    (here : Yields first reader) (later : ∀ value, first value → Yields property (further value)) :
    Yields property (reader >>= further) := by
  intro lexemes rest value read
  obtain ⟨found, behind, start, read⟩ := bind_eq_ok.1 read
  exact later found (here _ _ _ start) _ _ _ read

/-- What is read first may be anything. -/
theorem behind {reader : Reader α} {further : α → Reader β}
    (later : ∀ value, Yields property (further value)) : Yields property (reader >>= further) :=
  bind (fun _ _ _ _ => trivial) fun value _ => later value

theorem map {f : α → β} {reader : Reader α} (holds : ∀ value, property (f value)) :
    Yields property (f <$> reader) := by
  intro lexemes rest value read
  obtain ⟨found, _, rfl⟩ := map_eq_ok.1 read
  exact holds found

theorem ite {p : Prop} [Decidable p] {first second : Reader β}
    (ifTrue : p → Yields property first) (ifFalse : ¬ p → Yields property second) :
    Yields property (if p then first else second) := by
  by_cases holds : p
  · rw [if_pos holds]
    exact ifTrue holds
  · rw [if_neg holds]
    exact ifFalse holds

end Reader.Yields

open Reader (Yields)

theorem regular_view_query (found : Query) : Regular (View.statement (.query found)) :=
  ((View.tells_query found).single (by decide)).regular

theorem regular_view_change (keyword : String) (change : Body) :
    Regular (View.statement (.other keyword (some change))) :=
  (View.tells_body change).regular

theorem regular_view_keyword {keyword : String} (plain : keyword ∉ marks) :
    Regular (View.statement (.other keyword none)) :=
  (View.inert_single plain .null).regular

/-- No statement is written with a word that marks tables or columns. -/
theorem Level.yields_statement (level : Level) :
    Yields (fun found => Regular (View.statement found)) level.statement := by
  have others : ∀ keyword ∈ bareKeywords ++ otherKeywords, keyword ∉ marks := by decide
  have change (keyword : String) (reader : Reader Body) :
      Yields (fun found => Regular (View.statement found))
        (do let change ← reader; pure (.other keyword (some change))) :=
    .behind fun found => .pure (regular_view_change keyword found)
  have explained {keyword : String} (plain : keyword ∉ marks) :
      Yields (fun found => Regular (View.statement found)) (do
        let _ ← Reader.keyword? "ANALYZE"
        goesOn
        if ← Reader.ahead startsQuery then
          let query ← level.query
          pure (.other keyword (some (.query query)))
        else
          restOfStatement
          pure (.other keyword none)) := by
    refine .behind fun _ => .behind fun _ => .behind fun _ => .ite (fun _ => ?_) fun _ => ?_
    · exact .behind fun query => .pure (regular_view_change keyword (.query query))
    · exact .behind fun _ => .pure (regular_view_keyword plain)
  refine .behind fun lexemes => .ite (fun _ => .map regular_view_query) fun _ => .behind fun _ => ?_
  generalize frontKeyword lexemes = keyword
  split
  · exact change _ _
  · exact .ite (fun _ => change _ _) fun _ => .unexpected
  · exact change _ _
  · exact change _ _
  · exact .behind fun _ => .pure (regular_view_keyword (by decide))
  · refine .behind fun source => .pure ?_
    cases source with
    | none => exact regular_view_keyword (by decide)
    | some found => exact regular_view_change _ found
  · exact explained (by decide)
  · exact explained (by decide)
  · exact explained (by decide)
  · exact .behind fun _ => .behind fun _ => .pure (regular_view_keyword (by decide))
  · refine .ite (fun listed => ?_) fun _ => .ite (fun listed => ?_) fun _ => .unexpected
    · exact .behind fun _ => .pure (regular_view_keyword
        (others _ (List.mem_append_left _ (List.contains_iff_mem.1 listed))))
    · exact .behind fun _ => .behind fun _ => .pure (regular_view_keyword
        (others _ (List.mem_append_right _ (List.contains_iff_mem.1 listed))))

theorem Level.yields_statements (level : Level) (fuel : Nat) :
    Yields (fun all => ∀ found ∈ all, Regular (View.statement found)) (level.statements fuel) := by
  induction fuel with
  | zero => exact .pure (List.forall_mem_nil _)
  | succ fuel ih =>
      refine .behind fun _ => .behind fun _ => .ite (fun _ => .pure (List.forall_mem_nil _)) fun _ =>
        .bind level.yields_statement fun first regular => .behind fun _ => ?_
      refine .ite (fun _ => .pure (List.forall_mem_singleton.2 regular)) fun _ => .behind fun _ => ?_
      refine .ite (fun _ => .bind ih fun others later => ?_) fun _ => .unexpected
      exact .pure (List.forall_mem_cons.2 ⟨regular, later⟩)

/-- The document of every text that can be read is regular. -/
theorem regular_view_statements {rules : Rules} {text : String} {all : List Statement}
    (read : statements? rules text = some all) : Regular (View.statements all) := by
  obtain ⟨lexemes, _, read⟩ := Option.bind_eq_some_iff.1 read
  split at read
  · rename_i found rest run
    cases read
    apply Regular.array
    intro item listed
    obtain ⟨statement, member, rfl⟩ := List.mem_map.1 listed
    exact Level.yields_statements _ _ _ _ _ run statement member
  · cases read

end Grammar

namespace Document

/-! ## Entries in entries -/

/-- An entry of a projection with an alias. -/
def aliasedEntry (label expr : Document) : Document :=
  .single "ExprWithAlias" (.object [("alias", label), ("expr", expr)])

/-- A regular document is inert, a list, an object that is no entry, or an entry. -/
theorem Regular.byEntries {motive : Document → Prop}
    (inert : ∀ document, Inert document → motive document)
    (array : ∀ items, (∀ item ∈ items, motive item) → motive (.array items))
    (object : ∀ fields : Fields, (fields.map Prod.fst).Nodup →
      (∀ field ∈ fields, field.1 ≠ "ExprWithAlias") → (∀ field ∈ fields, Regular field.2) →
        (∀ field ∈ fields, motive field.2) → motive (.object fields))
    (entry : ∀ label expr, Inert label → Regular expr → motive expr →
      motive (aliasedEntry label expr))
    {document : Document} (regular : Regular document) : motive document := by
  induction regular with
  | null => exact inert _ .null
  | bool value => exact inert _ (.bool value)
  | number mantissa places => exact inert _ (.number mantissa places)
  | string value => exact inert _ (.string value)
  | array _ ih => exact array _ ih
  | column mark within =>
      refine object _ (by simp) ?_ (List.forall_mem_singleton.2 within.regular)
        (List.forall_mem_singleton.2 (inert _ within))
      rw [List.forall_mem_singleton]
      rintro rfl
      exact absurd mark (by decide)
  | aliased within inner ih => exact entry _ _ within inner ih
  | object distinct ordinary _ inner ih =>
      refine object _ distinct (fun field here same => ordinary field here ?_) inner ih
      rw [same]
      decide

/-- Some entry of a projection lies in `n` others. -/
def Nests (n : Nat) (document : Document) : Prop :=
  ∃ pointer ∈ document.find "ExprWithAlias" none, n < pointer.count "ExprWithAlias"

variable {n : Nat}

theorem not_nests_of_inert {document : Document} (inert : Inert document) : ¬ Nests n document := by
  rw [Nests, find_of_inert inert (by decide)]
  simp

theorem nests_array_iff (items : List Document) :
    Nests n (.array items) ↔ ∃ item ∈ items, Nests n item := by
  have step (i : Nat) : String.ofList (Number.natText i) ≠ "ExprWithAlias" := by
    intro same
    have index := Pointer.index?_natText i
    rw [same, Access.index?_of_mem_marks (by decide)] at index
    cases index
  constructor
  · rintro ⟨pointer, listed, many⟩
    rw [find] at listed
    obtain ⟨i, item, tail, here, below, rfl⟩ := mem_findInItems_iff.1 listed
    rw [List.count_cons_of_ne (step _)] at many
    exact ⟨item, List.mem_of_getElem? here, tail, below, many⟩
  · rintro ⟨item, member, tail, below, many⟩
    obtain ⟨i, here⟩ := List.mem_iff_getElem?.1 member
    refine ⟨_, by rw [find]; exact mem_findInItems_iff.2 ⟨i, item, tail, here, below, rfl⟩, ?_⟩
    rwa [List.count_cons_of_ne (step _)]

theorem nests_object_iff {fields : Fields}
    (ordinary : ∀ field ∈ fields, field.1 ≠ "ExprWithAlias") :
    Nests n (.object fields) ↔ ∃ field ∈ fields, Nests n field.2 := by
  constructor
  · rintro ⟨pointer, listed, many⟩
    rw [find_object] at listed
    obtain ⟨field, here, inField⟩ := List.mem_flatMap.1 listed
    obtain ⟨step, tail, rfl⟩ := List.exists_cons_of_ne_nil (ne_nil_of_mem_find
      (by rw [find_object]; exact listed))
    obtain ⟨rfl, ⟨same, _⟩ | ⟨_, below⟩⟩ := mem_findInField_iff.1 inField
    · exact absurd same (ordinary field here)
    · rw [List.count_cons_of_ne (ordinary field here)] at many
      exact ⟨field, here, tail, below, many⟩
  · rintro ⟨field, here, tail, below, many⟩
    refine ⟨field.1 :: tail, ?_, by rwa [List.count_cons_of_ne (ordinary field here)]⟩
    rw [find_object]
    exact List.mem_flatMap.2 ⟨field, here, mem_findInField_iff.2 ⟨rfl, .inr ⟨by simp, below⟩⟩⟩

theorem nests_single_iff {key : String} (other : key ≠ "ExprWithAlias") (value : Document) :
    Nests n (.single key value) ↔ Nests n value := by
  rw [Document.single, nests_object_iff (List.forall_mem_singleton.2 other)]
  simp

theorem find_aliasedEntry {label : Document} (inert : Inert label) (expr : Document) :
    (aliasedEntry label expr).find "ExprWithAlias" none =
      ["ExprWithAlias"] ::
        (expr.find "ExprWithAlias" none).map (["ExprWithAlias", "expr"] ++ ·) := by
  simp [aliasedEntry, Document.single, find, findInFields,
    find_of_inert inert (show "ExprWithAlias" ∈ marks by decide)]

theorem nests_entry {label : Document} (inert : Inert label) (expr : Document) :
    Nests 0 (aliasedEntry label expr) :=
  ⟨["ExprWithAlias"], by rw [find_aliasedEntry inert]; exact List.mem_cons_self, by decide⟩

theorem nests_succ_entry_iff {label : Document} (inert : Inert label) (expr : Document) :
    Nests (n + 1) (aliasedEntry label expr) ↔ Nests n expr := by
  rw [Nests, find_aliasedEntry inert]
  simp [Nests]

/-- However an entry lies in others, it lies in less than so many. -/
theorem exists_not_nests (document : Document) : ∃ n, ¬ Nests n document := by
  refine ⟨((document.find "ExprWithAlias" none).map (List.count "ExprWithAlias")).sum, ?_⟩
  rintro ⟨pointer, listed, many⟩
  exact absurd (List.le_sum_of_mem (List.mem_map_of_mem listed)) (Nat.not_le.2 many)

theorem nests_zero_iff (document : Document) :
    Nests 0 document ↔ document.find "ExprWithAlias" none ≠ [] := by
  constructor
  · rintro ⟨pointer, listed, _⟩
    exact List.ne_nil_of_mem listed
  · intro some
    obtain ⟨pointer, listed⟩ := List.exists_mem_of_ne_nil _ some
    obtain ⟨front, rfl⟩ := exists_front_of_mem_find _ _ _ listed
    exact ⟨_, listed, List.count_pos_iff.2 (by simp)⟩

end Document

namespace Access

open Document

/-! ## Writing entries without their aliases -/

mutual

/-- The document with the entries of projections written without their aliases: those that lie in
fewer than `levels` others, or all. -/
def withoutAliases (levels : Option Nat) : Document → Document
  | .object fields => .object (fieldsWithoutAliases levels fields)
  | .array items => .array (itemsWithoutAliases levels items)
  | document => document

/-- Fields with the entries of projections written without their aliases. -/
def fieldsWithoutAliases (levels : Option Nat) :
    List (String × Document) → List (String × Document)
  | [] => []
  | (name, value) :: rest =>
    (if name = "ExprWithAlias" ∧ levels ≠ some 0 then
        ((withoutAliases (levels.map Nat.pred) value).field? "expr").elim (name, value)
          fun expr => ("UnnamedExpr", expr)
      else (name, withoutAliases levels value)) :: fieldsWithoutAliases levels rest

/-- Items with the entries of projections written without their aliases. -/
def itemsWithoutAliases (levels : Option Nat) : List Document → List Document
  | [] => []
  | item :: rest => withoutAliases levels item :: itemsWithoutAliases levels rest

end

/-- A field that is no entry, with the entries in it written without their aliases. -/
def fieldWithoutAliases (levels : Option Nat) (field : String × Document) : String × Document :=
  (field.1, withoutAliases levels field.2)

variable {levels : Option Nat}

theorem withoutAliases_object {fields : Fields}
    (ordinary : ∀ field ∈ fields, field.1 ≠ "ExprWithAlias") :
    withoutAliases levels (.object fields) = .object (fields.map (fieldWithoutAliases levels)) := by
  rw [withoutAliases]
  congr 1
  induction fields with
  | nil => rfl
  | cons field rest ih =>
      obtain ⟨here, later⟩ := List.forall_mem_cons.1 ordinary
      rw [fieldsWithoutAliases, if_neg fun both => here both.1, ih later, List.map_cons,
        fieldWithoutAliases]

theorem withoutAliases_array (items : List Document) :
    withoutAliases levels (.array items) = .array (items.map (withoutAliases levels)) := by
  rw [withoutAliases]
  congr 1
  induction items with
  | nil => rfl
  | cons item rest ih => rw [itemsWithoutAliases, ih, List.map_cons]

theorem withoutAliases_of_inert {document : Document} (inert : Inert document) :
    withoutAliases levels document = document := by
  induction inert with
  | null => rfl
  | bool value => rfl
  | number mantissa places => rfl
  | string value => rfl
  | array _ ih => rw [withoutAliases_array, List.map_congr_left ih, List.map_id']
  | @object fields _ unmarked _ ih =>
      have ordinary : ∀ field ∈ fields, field.1 ≠ "ExprWithAlias" := fun field here same =>
        unmarked field here (same ▸ by decide)
      have same : ∀ field ∈ fields, fieldWithoutAliases levels field = field := fun field here => by
        rw [fieldWithoutAliases, ih field here]
      rw [withoutAliases_object ordinary, List.map_congr_left same, List.map_id']

theorem withoutAliases_entry (label expr : Document) (some : levels ≠ some 0) :
    withoutAliases levels (aliasedEntry label expr) =
      .single "UnnamedExpr" (withoutAliases (levels.map Nat.pred) expr) := by
  simp [aliasedEntry, Document.single, withoutAliases, fieldsWithoutAliases, some, field?,
    Fields.get?]

theorem withoutAliases_zero_entry (label expr : Document) :
    withoutAliases (some 0) (aliasedEntry label expr) =
      aliasedEntry (withoutAliases (some 0) label) (withoutAliases (some 0) expr) := by
  simp [aliasedEntry, Document.single, withoutAliases, fieldsWithoutAliases]

theorem withoutAliases_zero {document : Document} (regular : Regular document) :
    withoutAliases (some 0) document = document := by
  apply regular.byEntries
  · exact fun document inert => withoutAliases_of_inert inert
  · intro items ih
    rw [withoutAliases_array, List.map_congr_left ih, List.map_id']
  · intro fields _ ordinary _ ih
    have same : ∀ field ∈ fields, fieldWithoutAliases (some 0) field = field := fun field here => by
      rw [fieldWithoutAliases, ih field here]
    rw [withoutAliases_object ordinary, List.map_congr_left same, List.map_id']
  · intro label expr inert _ ih
    rw [withoutAliases_zero_entry, withoutAliases_of_inert inert, ih]

theorem ordinary_map_fieldWithoutAliases {fields : Fields}
    (ordinary : ∀ field ∈ fields, field.1 ≠ "ExprWithAlias") :
    ∀ field ∈ fields.map (fieldWithoutAliases levels), field.1 ≠ "ExprWithAlias" := by
  intro field listed
  obtain ⟨old, here, rfl⟩ := List.mem_map.1 listed
  exact ordinary old here

/-- Where aliases are taken away on some levels, the entries that are left lie in as many others
less. -/
theorem nests_withoutAliases_iff {document : Document} (regular : Regular document) (n m : Nat) :
    Nests m (withoutAliases (some n) document) ↔ Nests (n + m) document := by
  revert n
  apply regular.byEntries
  · intro document inert n
    rw [withoutAliases_of_inert inert]
    exact iff_of_false (not_nests_of_inert inert) (not_nests_of_inert inert)
  · intro items ih n
    simp only [withoutAliases_array, nests_array_iff, List.mem_map, exists_exists_and_eq_and]
    exact exists_congr fun item => and_congr_right fun here => ih item here n
  · intro fields _ ordinary _ ih n
    rw [withoutAliases_object ordinary, nests_object_iff ordinary,
      nests_object_iff (ordinary_map_fieldWithoutAliases ordinary)]
    simp only [List.mem_map, exists_exists_and_eq_and]
    exact exists_congr fun field => and_congr_right fun here => ih field here n
  · intro label expr inert regular ih n
    cases n with
    | zero =>
        have whole : Regular (aliasedEntry label expr) := .aliased inert regular
        rw [withoutAliases_zero whole, Nat.zero_add]
    | succ n =>
        rw [withoutAliases_entry _ _ (by simp), nests_single_iff (by simp), Nat.add_right_comm,
          nests_succ_entry_iff inert]
        exact ih n

theorem regular_withoutAliases {document : Document} (regular : Regular document)
    (levels : Option Nat) : Regular (withoutAliases levels document) := by
  induction regular generalizing levels with
  | null => exact .null
  | bool value => exact .bool value
  | number mantissa places => exact .number mantissa places
  | string value => exact .string value
  | array _ ih =>
      rw [withoutAliases_array]
      refine .array fun item listed => ?_
      obtain ⟨old, here, rfl⟩ := List.mem_map.1 listed
      exact ih old here levels
  | @column key value mark inert =>
      have ordinary : ∀ field ∈ [(key, value)], field.1 ≠ "ExprWithAlias" := by
        rw [List.forall_mem_singleton]
        rintro rfl
        exact absurd mark (by decide)
      rw [withoutAliases_object ordinary, List.map_singleton, fieldWithoutAliases,
        withoutAliases_of_inert inert]
      exact .column mark inert
  | @aliased label expr inert inner ih =>
      change Regular (withoutAliases levels (aliasedEntry label expr))
      by_cases kept : levels = some 0
      · subst kept
        rw [withoutAliases_zero_entry, withoutAliases_of_inert inert]
        exact .aliased inert (ih _)
      · rw [withoutAliases_entry _ _ kept]
        exact .object (by simp) (by simp [loneMarks]) (by simp [labels]) (by simpa using ih _)
  | object distinct ordinary named inner ih =>
      rw [withoutAliases_object fun field here same => ordinary field here (same ▸ by decide)]
      constructor
      · simpa [fieldWithoutAliases, Function.comp_def] using distinct
      · intro field listed
        obtain ⟨old, here, rfl⟩ := List.mem_map.1 listed
        exact ordinary old here
      · intro field listed label
        obtain ⟨old, here, rfl⟩ := List.mem_map.1 listed
        rw [fieldWithoutAliases, withoutAliases_of_inert (named old here label)]
        exact named old here label
      · intro field listed
        obtain ⟨old, here, rfl⟩ := List.mem_map.1 listed
        exact ih old here levels

/-- Where no entry lies in as many others as aliases are taken away on levels, all are taken
away. -/
theorem withoutAliases_of_not_nests {document : Document} (regular : Regular document) {n : Nat}
    (few : ¬ Nests n document) : withoutAliases (some n) document = withoutAliases none document := by
  revert n
  apply regular.byEntries
  · intro document inert n _
    rw [withoutAliases_of_inert inert, withoutAliases_of_inert inert]
  · intro items ih n few
    rw [nests_array_iff] at few
    rw [withoutAliases_array, withoutAliases_array]
    congr 1
    exact List.map_congr_left fun item here => ih item here fun nests => few ⟨item, here, nests⟩
  · intro fields _ ordinary _ ih n few
    rw [nests_object_iff ordinary] at few
    rw [withoutAliases_object ordinary, withoutAliases_object ordinary]
    congr 1
    refine List.map_congr_left fun field here => ?_
    rw [fieldWithoutAliases, ih field here fun nests => few ⟨field, here, nests⟩,
      fieldWithoutAliases]
  · intro label expr inert _ ih n few
    cases n with
    | zero => exact absurd (nests_entry inert expr) few
    | succ n =>
        rw [nests_succ_entry_iff inert] at few
        rw [withoutAliases_entry _ _ (by simp), withoutAliases_entry _ _ (by simp)]
        exact congrArg _ (ih few)

/-- Where all aliases are taken away no entry is left. -/
theorem not_nests_withoutAliases {document : Document} (regular : Regular document) :
    ¬ Nests 0 (withoutAliases none document) := by
  obtain ⟨n, few⟩ := exists_not_nests document
  rw [← withoutAliases_of_not_nests regular few, nests_withoutAliases_iff regular, Nat.add_zero]
  exact few

theorem withoutAliases_succ {document : Document} (regular : Regular document) (n : Nat) :
    withoutAliases (some 1) (withoutAliases (some n) document) =
      withoutAliases (some (n + 1)) document := by
  revert n
  apply regular.byEntries
  · intro document inert n
    simp only [withoutAliases_of_inert inert]
  · intro items ih n
    simp only [withoutAliases_array, List.map_map]
    congr 1
    exact List.map_congr_left fun item here => ih item here n
  · intro fields _ ordinary _ ih n
    rw [withoutAliases_object ordinary, withoutAliases_object ordinary,
      withoutAliases_object (ordinary_map_fieldWithoutAliases ordinary), List.map_map]
    congr 1
    refine List.map_congr_left fun field here => ?_
    simp only [Function.comp_apply, fieldWithoutAliases, ih field here n]
  · intro label expr inert regular ih n
    cases n with
    | zero =>
        have whole : Regular (aliasedEntry label expr) := .aliased inert regular
        rw [withoutAliases_zero whole]
    | succ n =>
        have ordinary (value : Document) :
            ∀ field ∈ [("UnnamedExpr", value)], field.1 ≠ "ExprWithAlias" := by simp
        rw [withoutAliases_entry _ _ (by simp), withoutAliases_entry _ _ (by simp),
          Document.single, withoutAliases_object (ordinary _)]
        simp only [List.map_singleton, fieldWithoutAliases, Option.map_some, Nat.pred_succ, ih n,
          Document.single]

/-! ## The pass -/

theorem frame_field {front rest : Fields} {field : String × Document}
    (distinct : ((front ++ field :: rest).map Prod.fst).Nodup) :
    Frame [field.1] fun inner => .object (front ++ (field.1, inner) :: rest) := by
  have distinct' (inner : Document) :
      ((front ++ (field.1, inner) :: rest).map Prod.fst).Nodup := by simpa using distinct
  constructor
  · intro inner
    have here : Fields.get? (front ++ (field.1, inner) :: rest) field.1 = some inner :=
      Fields.get?_eq_some_of_mem (distinct' inner) (List.mem_append_right front List.mem_cons_self)
    simp [at?, child?, here]
  · intro change inner
    rw [changeAt]
    exact congrArg Document.object (changeField_append_of_distinct (distinct' inner) change)

theorem frame_item (front items : List Document) :
    Frame [String.ofList (Number.natText front.length)]
      fun inner => .array (front ++ inner :: items) := by
  constructor
  · intro inner
    simp [at?, child?_index]
  · intro change inner
    rw [changeAt, Pointer.index?_natText]
    exact congrArg Document.array (modify_length_append_cons _ front items inner)

theorem Frame.foldl_stripAlias {base : Pointer} {frame : Document → Document}
    (framed : Frame base frame) (inner : Document) :
    ((inner.find "ExprWithAlias" none).map (base ++ ·)).foldl Access.stripAlias (frame inner) =
      frame (Access.stripAliases inner) :=
  foldl_commutes
    (fun _ listed inner => framed.stripAlias inner (ne_nil_of_mem_find listed)) inner

theorem foldl_stripAlias_fields {fields : Fields}
    (ordinary : ∀ field ∈ fields, field.1 ≠ "ExprWithAlias")
    (inner : ∀ field ∈ fields, stripAliases field.2 = withoutAliases (some 1) field.2)
    (front : Fields) (distinct : ((front ++ fields).map Prod.fst).Nodup) :
    (fields.flatMap (findInField "ExprWithAlias" none)).foldl stripAlias
        (.object (front ++ fields)) =
      .object (front ++ fields.map (fieldWithoutAliases (some 1))) := by
  induction fields generalizing front with
  | nil => rfl
  | cons field rest ih =>
      obtain ⟨here, later⟩ := List.forall_mem_cons.1 ordinary
      obtain ⟨first, others⟩ := List.forall_mem_cons.1 inner
      have listed : findInField "ExprWithAlias" none field =
          (field.2.find "ExprWithAlias" none).map ([field.1] ++ ·) := by
        rw [findInField, if_neg here, if_neg (by simp)]
        rfl
      have behind := ih later others (front ++ [fieldWithoutAliases (some 1) field])
        (by simpa [fieldWithoutAliases] using distinct)
      rw [List.flatMap_cons, List.foldl_append, listed,
        (frame_field distinct).foldl_stripAlias field.2, first]
      simpa [fieldWithoutAliases] using behind

theorem foldl_stripAlias_items {items : List Document}
    (inner : ∀ item ∈ items, stripAliases item = withoutAliases (some 1) item)
    (front : List Document) :
    (findInItems "ExprWithAlias" none front.length items).foldl stripAlias
        (.array (front ++ items)) =
      .array (front ++ items.map (withoutAliases (some 1))) := by
  induction items generalizing front with
  | nil => rfl
  | cons item rest ih =>
      obtain ⟨first, others⟩ := List.forall_mem_cons.1 inner
      have behind := ih others (front ++ [withoutAliases (some 1) item])
      have here := (frame_item front rest).foldl_stripAlias item
      simp only [List.singleton_append] at here
      rw [findInItems, List.foldl_append, here, first]
      simpa using behind

/-- Behind an entry that is written without its alias the entries in it are not found any more. -/
theorem stripAliases_entry {label : Document} (inert : Inert label) (expr : Document) :
    stripAliases (aliasedEntry label expr) = .single "UnnamedExpr" expr := by
  have first : stripAlias (aliasedEntry label expr) ["ExprWithAlias"] =
      .single "UnnamedExpr" expr := by
    simp [stripAlias, aliasedEntry, Document.single, at?, child?, Fields.get?, field?, changeAt]
  have lost (pointers : List Pointer) :
      (pointers.map (["ExprWithAlias", "expr"] ++ ·)).foldl stripAlias
        (.single "UnnamedExpr" expr) = .single "UnnamedExpr" expr := by
    induction pointers with
    | nil => rfl
    | cons pointer rest ih =>
        have same : stripAlias (.single "UnnamedExpr" expr)
            (["ExprWithAlias", "expr"] ++ pointer) = .single "UnnamedExpr" expr := by
          simp [stripAlias, Document.single, at?, child?, Fields.get?]
        rw [List.map_cons, List.foldl_cons, same, ih]
  rw [stripAliases, find_aliasedEntry inert, List.foldl_cons, first, lost]

/-- The pass takes the aliases from the entries that lie in no other one. -/
theorem stripAliases_eq {document : Document} (regular : Regular document) :
    stripAliases document = withoutAliases (some 1) document := by
  apply regular.byEntries
  · intro document inert
    rw [withoutAliases_of_inert inert, stripAliases, find_of_inert inert (by decide)]
    rfl
  · intro items ih
    rw [withoutAliases_array]
    exact foldl_stripAlias_items ih []
  · intro fields distinct ordinary _ ih
    rw [withoutAliases_object ordinary, stripAliases, find_object]
    exact foldl_stripAlias_fields ordinary ih [] distinct
  · intro label expr inert regular _
    rw [stripAliases_entry inert, withoutAliases_entry _ _ (by simp)]
    exact congrArg _ (withoutAliases_zero regular).symm

/-- So many runs of the pass take the aliases away on so many levels. -/
theorem iterate_stripAliases {document : Document} (regular : Regular document) (n : Nat) :
    stripAliases^[n] document = withoutAliases (some n) document := by
  induction n with
  | zero => exact (withoutAliases_zero regular).symm
  | succ n ih =>
      rw [Function.iterate_succ_apply', ih, stripAliases_eq (regular_withoutAliases regular _),
        withoutAliases_succ regular]

/-- A further run changes nothing just if no entry is left. -/
theorem stripAliases_eq_self_iff {document : Document} (regular : Regular document) :
    stripAliases document = document ↔ ¬ Nests 0 document := by
  constructor
  · intro same
    -- What lies in some others would lie in one more, without an end.
    have deeper (n : Nat) : Nests n document → Nests (1 + n) document := by
      rw [← nests_withoutAliases_iff regular, ← stripAliases_eq regular, same]
      exact id
    have nests (n : Nat) (some : Nests 0 document) : Nests n document := by
      induction n with
      | zero => exact some
      | succ n ih => exact Nat.add_comm 1 n ▸ deeper n ih
    obtain ⟨n, few⟩ := exists_not_nests document
    exact fun some => few (nests n some)
  · intro none
    rw [nests_zero_iff, not_not] at none
    rw [stripAliases, none, List.foldl_nil]

/-- The entries of projections in the document of a text. One run of the pass takes the aliases from
those that lie in no other one, and `n` runs from those that lie in fewer than `n` others. Just if no
entry lies in `n` others, no entry is left after `n` runs, they come to what all entries come to
without their aliases, and a further run changes nothing. -/
theorem aliases_are_taken_away_iff {rules : Grammar.Rules} {text : String}
    {statements : List Grammar.Statement} (read : Grammar.statements? rules text = some statements) :
    let document := Grammar.View.statements statements
    (stripAliases document = withoutAliases (some 1) document) ∧
    (withoutAliases none document).find "ExprWithAlias" none = [] ∧
    ∀ n, (stripAliases^[n] document = withoutAliases (some n) document) ∧
      ((stripAliases^[n] document).find "ExprWithAlias" none = [] ↔ ¬ Nests n document) ∧
      (stripAliases^[n] document = withoutAliases none document ↔ ¬ Nests n document) ∧
      (stripAliases (stripAliases^[n] document) = stripAliases^[n] document ↔
        ¬ Nests n document) := by
  intro document
  have regular : Regular document := Grammar.regular_view_statements read
  have all : (withoutAliases none document).find "ExprWithAlias" none = [] := by
    simpa [nests_zero_iff] using not_nests_withoutAliases regular
  refine ⟨stripAliases_eq regular, all, fun n => ?_⟩
  have left : Nests 0 (withoutAliases (some n) document) ↔ Nests n document := by
    rw [nests_withoutAliases_iff regular, Nat.add_zero]
  rw [iterate_stripAliases regular, stripAliases_eq_self_iff (regular_withoutAliases regular _)]
  refine ⟨rfl, ?_, ⟨fun same => ?_, withoutAliases_of_not_nests regular⟩, not_congr left⟩
  · rw [← left, nests_zero_iff, not_not]
  · rw [← left, same]
    exact not_nests_withoutAliases regular

/-- An entry in an entry keeps its alias in the first run and loses it in the second. -/
theorem aliases_are_taken_away_iff_nested :
    ∃ statements, Grammar.statements? (.ofDialect? none) "SELECT (SELECT 1 AS x) AS y" =
        some statements ∧
      let document := Grammar.View.statements statements
      (stripAliases document).find "ExprWithAlias" none ≠ [] ∧
      stripAliases document ≠ withoutAliases none document ∧
      stripAliases (stripAliases document) ≠ stripAliases document ∧
      stripAliases (stripAliases document) = withoutAliases none document := by
  have counts : ((Grammar.statements? (.ofDialect? none) "SELECT (SELECT 1 AS x) AS y").any
      fun statements =>
        ((Grammar.View.statements statements).find "ExprWithAlias" none).map
          (List.count "ExprWithAlias") == [1, 2]) = true := by
    decide +kernel
  obtain ⟨statements, read, counted⟩ := (Option.any_eq_true _ _).1 counts
  rw [beq_iff_eq] at counted
  have nests (n : Nat) : Nests n (Grammar.View.statements statements) ↔ n < 2 := by
    have counting : Nests n (Grammar.View.statements statements) ↔
        ∃ count ∈ ((Grammar.View.statements statements).find "ExprWithAlias" none).map
          (List.count "ExprWithAlias"), n < count := by
      simp only [Nests, List.mem_map, exists_exists_and_eq_and]
    rw [counting, counted]
    simp only [List.mem_cons, List.not_mem_nil, or_false, exists_eq_or_imp, exists_eq_left]
    omega
  have runs := (aliases_are_taken_away_iff read).2.2
  obtain ⟨-, one, oneAll, oneMore⟩ := runs 1
  obtain ⟨-, -, two, -⟩ := runs 2
  rw [nests] at one oneAll oneMore two
  exact ⟨statements, read, fun same => absurd (one.1 same) (by decide),
    fun same => absurd (oneAll.1 same) (by decide),
    fun same => absurd (oneMore.1 same) (by decide), two.2 (by decide)⟩

end Access
end SemanticLayer
