import SemanticLayer.Proofs.Coverage
import SemanticLayer.Proofs.Searches

/-!
# What a SELECT touches

When its turn comes a SELECT takes the tables of its FROM into a scope, and their aliases out of the
document; it writes the columns in it in full. No table and no column with a qualifier that lies in
another SELECT is changed by this, so what a SELECT finds does not depend on when its turn comes.
-/

namespace SemanticLayer
namespace Access

open Document

/-! ## What a table tells of itself -/

/-- The name of a table and its alias. -/
def listedTable? (table : Document) : Option (List String × Option String) :=
  (tableName? table).map fun name => (name, tableAlias? table)

/-- The name and the alias of the table at a position. -/
def entryAt (document : Document) (pointer : Pointer) : Option (List String × Option String) :=
  (document.at? pointer).bind listedTable?

/-- A table tells by its labels alone. -/
theorem bind_listedTable?_congr {first second : Option Document}
    (same : ∀ label ∈ labels, first.bind (field? label) = second.bind (field? label)) :
    first.bind listedTable? = second.bind listedTable? := by
  have read (table : Option Document) : table.bind listedTable? =
      (((table.bind (field? "name")).map identValues).filter fun name => !name.isEmpty).map
        fun name => (name, ((table.bind (field? "alias")).bind (field? "name")).map identValue) := by
    cases table <;> rfl
  rw [read, read, same "name" (by decide), same "alias" (by decide)]

/-! ## Steps and what they leave alone -/

/-- What stands at a mark elsewhere than at a change and below is left alone, or is changed further
below and not in its labels. -/
theorem at?_changeAt_mark {document value : Document} (regular : Regular document) {key : String}
    (mark : key ∈ marks) {home pointer tail : Pointer} (above : pointer ++ tail = home ++ [key])
    (leads : document.at? (home ++ [key]) = some value) (change : Document → Document)
    {other : String} {front : Pointer} (apart : ¬ pointer <+: front ++ [other]) :
    (changeAt change pointer document).at? (front ++ [other]) = document.at? (front ++ [other]) ∨
      ∃ step rest found, document.at? (front ++ [other]) = some found ∧ ¬ Inert found ∧
        step ∉ labels ∧ (changeAt change pointer document).at? (front ++ [other]) =
          some (changeAt change (step :: rest) found) := by
  rcases at?_changeAt_of_elsewhere change apart document with kept | ⟨step, rest, rfl, changed⟩
  · exact Or.inl kept
  · refine Or.inr ⟨step, rest, ?_⟩
    rw [← above, List.append_assoc, at?_append] at leads
    rw [List.append_assoc] at above
    obtain ⟨found, here, below⟩ := Option.bind_eq_some_iff.1 leads
    obtain ⟨last, ends, _⟩ := exists_middle_of_append above (by simp)
    refine ⟨found, here, fun inert => ?_, fun label => ?_, by rw [changed, here, Option.map_some]⟩
    · rw [ends, at?_eq_none_of_inert inert mark] at below
      cases below
    · exact label_ne_of_leads (regular.at? here) mark ends below label rfl

/-- The document of a column with a qualifier is inert. -/
theorem inert_of_compound {document parts : Document} (regular : Regular document) {front : Pointer}
    (leads : document.at? (front ++ ["CompoundIdentifier"]) = some parts) : Inert parts := by
  obtain ⟨fields, here, field⟩ := exists_marked_of_at? (by decide) leads
  exact ((regular.at? here).eq_column (by decide) field).2

/-- A step from one document to another, by the columns with qualifiers and the tables that it may
change. The tables stay where they are. -/
structure Touches (columns tables : Pointer → Prop) (before after : Document) : Prop where
  listed : after.find "Table" none = before.find "Table" none
  compounds : ∀ front, ¬ columns front →
    after.at? (front ++ ["CompoundIdentifier"]) = before.at? (front ++ ["CompoundIdentifier"])
  entries : ∀ front, ¬ tables front →
    entryAt after (front ++ ["Table"]) = entryAt before (front ++ ["Table"])

namespace Touches

variable {columns tables : Pointer → Prop}

theorem refl (document : Document) : Touches columns tables document document :=
  ⟨rfl, fun _ _ => rfl, fun _ _ => rfl⟩

theorem trans {before between after : Document} (first : Touches columns tables before between)
    (second : Touches columns tables between after) : Touches columns tables before after :=
  ⟨second.listed.trans first.listed,
    fun front apart => (second.compounds front apart).trans (first.compounds front apart),
    fun front apart => (second.entries front apart).trans (first.entries front apart)⟩

theorem mono {before after : Document} (touches : Touches columns tables before after)
    {moreColumns moreTables : Pointer → Prop} (wider : ∀ front, columns front → moreColumns front)
    (more : ∀ front, tables front → moreTables front) :
    Touches moreColumns moreTables before after :=
  ⟨touches.listed, fun front apart => touches.compounds front fun here => apart (wider front here),
    fun front apart => touches.entries front fun here => apart (more front here)⟩

end Touches

/-- A change at or above a mark touches what stands right there and nothing else, if it finds as
many tables there and marks below as before. -/
theorem touches_changeAt {document value old : Document} (regular : Regular document) {key : String}
    (mark : key ∈ marks) {home pointer tail : Pointer} (above : pointer ++ tail = home ++ [key])
    (leads : document.at? (home ++ [key]) = some value) (here : document.at? pointer = some old)
    {change : Document → Document}
    (listed : (change old).find "Table" none = old.find "Table" none)
    {columns tables : Pointer → Prop}
    (compounds : ∀ front middle, ¬ columns front → pointer ++ middle = front ++ ["CompoundIdentifier"] →
      (change old).at? middle = old.at? middle)
    (entries : ∀ front middle, ¬ tables front → pointer ++ middle = front ++ ["Table"] →
      entryAt (change old) middle = entryAt old middle) :
    Touches columns tables document (changeAt change pointer document) := by
  have below (middle : Pointer) : (changeAt change pointer document).at? (pointer ++ middle) =
      (change old).at? middle := by rw [at?_changeAt_append, here, Option.bind_some]
  have before (middle : Pointer) : document.at? (pointer ++ middle) = old.at? middle := by
    rw [at?_append, here, Option.bind_some]
  refine ⟨find_changeAt regular.keyed here listed, fun front outside => ?_, fun front outside => ?_⟩
  · by_cases apart : pointer <+: front ++ ["CompoundIdentifier"]
    · obtain ⟨middle, same⟩ := apart
      rw [← same, below, before, compounds front middle outside same]
    · rcases at?_changeAt_mark regular mark above leads change apart with kept | ⟨_, _, found, there, lively, _⟩
      · exact kept
      · exact absurd (inert_of_compound regular there) lively
  · by_cases apart : pointer <+: front ++ ["Table"]
    · obtain ⟨middle, same⟩ := apart
      have kept := entries front middle outside same
      rwa [← same, entryAt, below, entryAt, before]
    · rcases at?_changeAt_mark regular mark above leads change apart with
        kept | ⟨step, rest, found, there, -, unlabelled, changed⟩
      · rw [entryAt, kept, entryAt]
      · apply bind_listedTable?_congr
        intro label isLabel
        rw [changed, there, Option.bind_some, Option.bind_some]
        refine field?_changeAt_of_ne change rest ?_ found
        rintro rfl
        exact unlabelled isLabel

/-- A column with a qualifier or without one tells of no table. -/
theorem Column.find_table {document : Document} (column : Column document) :
    document.find "Table" none = [] := by
  cases column with
  | @intro key value mark inert =>
      have other : key ≠ "Table" := by
        rintro rfl
        exact absurd mark (by decide)
      simp [find, findInFields, other, find_of_inert inert (show "Table" ∈ marks by decide)]

theorem Column.entryAt_eq_none {document : Document} (column : Column document) (front : Pointer) :
    entryAt document (front ++ ["Table"]) = none ∧ listedTable? document = none := by
  cases column with
  | @intro key value mark inert =>
      have apart : ∀ name ∈ ["Identifier", "CompoundIdentifier"], name ≠ "Table" ∧ name ≠ "name" := by
        decide
      constructor
      · rw [entryAt, at?_column_of_ne inert (by decide)]
        · rfl
        · intro same
          have last := congrArg List.getLast? same
          simp only [List.getLast?_append, List.getLast?_singleton, Option.some_or,
            Option.some.injEq] at last
          exact (apart key mark).1 last.symm
      · simp [listedTable?, tableName?, field?, Fields.get?, (apart key mark).2]

/-- Below a position with another last step lies something. -/
theorem exists_middle_of_ne {home front middle : Pointer} {key other : String}
    (same : home ++ [key] ++ middle = front ++ [other])
    (elsewhere : ¬ (front = home ∧ other = key)) : ∃ rest, middle = rest ++ [other] := by
  by_cases empty : middle = []
  · rw [empty, List.append_nil] at same
    obtain ⟨rfl, last⟩ := List.append_inj' same rfl
    exact absurd ⟨rfl, (List.singleton_inj.1 last).symm⟩ elsewhere
  · obtain ⟨rest, ends, _⟩ := exists_middle_of_append same empty
    exact ⟨rest, ends⟩

theorem touches_collectTable {document : Document} (regular : Regular document) (scope : Scope)
    (home : Pointer) :
    Touches (fun _ => False) (· = home) document
      (collectTable (document, scope) (home ++ ["Table"])).1 := by
  rcases collectTable_cases document scope (home ++ ["Table"]) with
    ⟨same, _⟩ | ⟨fields, name, leads, named, changed⟩
  · rw [same]
    exact .refl document
  · rw [changed]
    have plain : Plain fields := by
      obtain ⟨label, found, _⟩ := Option.map_eq_some_iff.1 (Option.filter_eq_some_iff.1 named).1
      exact (regular.at? leads).plain found (by decide)
    refine touches_changeAt regular (by decide) (List.append_nil _) leads leads ?_
      (fun front middle _ same => ?_) fun front middle elsewhere same => ?_
    · cases found : Fields.get? fields "alias" with
      | none => rw [changeField_eq_self ((Fields.get?_eq_none_iff fields "alias").1 found)]
      | some label =>
          have inert : Inert label :=
            plain.named _ (Fields.mem_of_get?_eq_some found) (by simp [labels])
          exact find_changeField plain.distinct found (find_of_inert inert (by decide) none).symm
    · obtain ⟨rest, rfl⟩ := exists_middle_of_ne same (by simp)
      exact at?_changeField_label plain (by decide) .null (by decide) rest
    · obtain ⟨rest, rfl⟩ := exists_middle_of_ne same (fun both => elsewhere both.1)
      rw [entryAt, at?_changeField_label plain (by decide) .null (by decide) rest, entryAt]

/-- A column with a qualifier as it is written in full. -/
def fullColumn (scope : Scope) (start : List String) (parts : Document) : Document :=
  (identValues parts).getLast?.elim parts fun column =>
    chain (qualifierTable scope start (identValues parts).dropLast) column

theorem qualifyCompound_eq {document parts : Document} {home : Pointer}
    (leads : document.at? (home ++ ["CompoundIdentifier"]) = some parts) (scope : Scope)
    (start : List String) :
    qualifyCompound scope start document (home ++ ["CompoundIdentifier"]) = document ∧
        fullColumn scope start parts = parts ∨
      qualifyCompound scope start document (home ++ ["CompoundIdentifier"]) =
          changeAt (fun _ => fullColumn scope start parts) (home ++ ["CompoundIdentifier"]) document ∧
        Inert (fullColumn scope start parts) := by
  cases last : (identValues parts).getLast? with
  | none => exact Or.inl (by simp [qualifyCompound, fullColumn, leads, last])
  | some column =>
      refine Or.inr ⟨by simp [qualifyCompound, fullColumn, leads, last], ?_⟩
      rw [fullColumn, last]
      exact inert_chain _ column

theorem touches_qualifyCompound {document : Document} (regular : Regular document) (scope : Scope)
    (start : List String) (home : Pointer) :
    Touches (· = home) (fun _ => False) document
      (qualifyCompound scope start document (home ++ ["CompoundIdentifier"])) := by
  cases leads : document.at? (home ++ ["CompoundIdentifier"]) with
  | none =>
      have same : qualifyCompound scope start document (home ++ ["CompoundIdentifier"]) = document := by
        simp [qualifyCompound, leads]
      rw [same]
      exact .refl document
  | some parts =>
      have inert := inert_of_compound regular leads
      rcases qualifyCompound_eq leads scope start with ⟨same, _⟩ | ⟨changed, after⟩
      · rw [same]
        exact .refl document
      · rw [changed]
        refine touches_changeAt regular (by decide) (List.append_nil _) leads leads ?_
          (fun front middle elsewhere same => ?_) fun front middle _ same => ?_
        · rw [find_of_inert inert (by decide), find_of_inert after (by decide)]
        · obtain ⟨rest, rfl⟩ := exists_middle_of_ne same (fun both => elsewhere both.1)
          rw [at?_eq_none_of_inert inert (by decide), at?_eq_none_of_inert after (by decide)]
        · obtain ⟨rest, rfl⟩ := exists_middle_of_ne same (by simp)
          rw [entryAt, entryAt, at?_eq_none_of_inert inert (by decide),
            at?_eq_none_of_inert after (by decide)]

theorem at?_qualifyCompound {document parts : Document} {home : Pointer}
    (leads : document.at? (home ++ ["CompoundIdentifier"]) = some parts) (scope : Scope)
    (start : List String) :
    (qualifyCompound scope start document (home ++ ["CompoundIdentifier"])).at?
        (home ++ ["CompoundIdentifier"]) = some (fullColumn scope start parts) := by
  rcases qualifyCompound_eq leads scope start with ⟨same, full⟩ | ⟨changed, _⟩
  · rw [same, full, leads]
  · have there := at?_changeAt_append (fun _ => fullColumn scope start parts)
      (home ++ ["CompoundIdentifier"]) [] document
    rw [List.append_nil, leads] at there
    rw [changed, there]
    rfl

theorem touches_qualifyBare {document after found : Document} (regular : Regular document)
    {inspector : Inspector} {placeholder : String} {scope : Scope} {home : Pointer}
    (leads : document.at? home = some found) (column : Column found)
    (done : qualifyBare inspector placeholder scope document (home ++ ["Identifier"]) = .ok after) :
    Touches (· = home) (fun _ => False) document after := by
  rw [qualifyBare] at done
  obtain ⟨table, _, done⟩ := Result.bind_eq_ok.1 done
  obtain rfl := Result.pure_eq_ok.1 done
  rw [List.dropLast_concat]
  generalize ((document.at? (home ++ ["Identifier"])).map identValue).getD "" = label
  have new : Column (Document.single "CompoundIdentifier" (chain table label)) :=
    ⟨by decide, inert_chain table label⟩
  cases column with
  | @intro key value mark inert =>
      have old : Column (.object [(key, value)]) := ⟨mark, inert⟩
      have isMark : key ∈ marks :=
        mem_marks_of_mem_loneMarks (List.mem_append_left ["ExprWithAlias"] mark)
      have leadsBelow : document.at? (home ++ [key]) = some value := by
        rw [at?_append, leads]
        simp [at?, child?, Fields.get?]
      refine touches_changeAt regular isMark rfl leadsBelow leads ?_
        (fun front middle elsewhere same => ?_) fun front middle _ same => ?_
      · rw [new.find_table, old.find_table]
      · by_cases empty : middle = []
        · rw [empty, List.append_nil] at same
          rw [same] at leads
          exact absurd old.marked (inert_of_compound regular leads).not_marked
        · obtain ⟨rest, rfl, rfl⟩ := exists_middle_of_append same empty
          have deeper : rest ≠ [] := by
            rintro rfl
            exact elsewhere (List.append_nil _)
          have long (name : String) : rest ++ ["CompoundIdentifier"] ≠ [name] := fun only =>
            deeper (by simpa using congrArg List.dropLast only)
          rw [Document.single, at?_column_of_ne (inert_chain table label) (by decide) (long _),
            at?_column_of_ne inert (by decide) (long _)]
      · by_cases empty : middle = []
        · rw [empty, entryAt, entryAt]
          exact (new.entryAt_eq_none []).2.trans (old.entryAt_eq_none []).2.symm
        · obtain ⟨rest, rfl, _⟩ := exists_middle_of_append same empty
          rw [(new.entryAt_eq_none rest).1, (old.entryAt_eq_none rest).1]

/-! ## The loops of a SELECT -/

variable {names : List (List (List String))} {document after : Document} {pointers : List Pointer}

/-- The scope with the tables that tell of themselves taken in. -/
def Scope.addAll (scope : Scope) (entries : List (List String × Option String)) : Scope :=
  entries.foldl (fun others entry => others.add entry.1 entry.2) scope

/-- To take several tables into a scope removes their aliases, and brings in what each told at
first. -/
theorem foldl_collectTable_spec (lists : Lists names document) (scope : Scope)
    (ends : ∀ pointer ∈ pointers, ∃ front, pointer = front ++ ["Table"])
    (distinct : pointers.Nodup) :
    Lists names (pointers.foldl collectTable (document, scope)).1 ∧
      Touches (fun _ => False) (fun front => front ++ ["Table"] ∈ pointers) document
        (pointers.foldl collectTable (document, scope)).1 ∧
      (pointers.foldl collectTable (document, scope)).2 =
        scope.addAll (pointers.filterMap (entryAt document)) := by
  induction pointers generalizing document scope with
  | nil => exact ⟨lists, .refl document, rfl⟩
  | cons pointer rest ih =>
      obtain ⟨⟨home, rfl⟩, others⟩ := List.forall_mem_cons.1 ends
      obtain ⟨fresh, distinct⟩ := List.nodup_cons.1 distinct
      have step := touches_collectTable lists.regular scope home
      obtain ⟨kept, touches, gathered⟩ := ih (lists.collectTable scope home)
        (collectTable (document, scope) (home ++ ["Table"])).2 others distinct
      refine ⟨kept, (step.mono (fun _ no => no) ?_).trans (touches.mono (fun _ no => no) ?_), ?_⟩
      · rintro front rfl
        exact List.mem_cons_self
      · exact fun front listed => List.mem_cons_of_mem _ listed
      · have same : rest.filterMap (entryAt (collectTable (document, scope) (home ++ ["Table"])).1) =
            rest.filterMap (entryAt document) := by
          refine List.filterMap_congr fun pointer listed => ?_
          obtain ⟨front, rfl⟩ := others pointer listed
          refine step.entries front ?_
          rintro rfl
          exact fresh listed
        rw [List.foldl_cons, gathered, same]
        rcases collectTable_cases document scope (home ++ ["Table"]) with
          ⟨unchanged, unnamed⟩ | ⟨fields, name, leads, named, changed⟩
        · have silent : entryAt document (home ++ ["Table"]) = none := by
            cases leads : document.at? (home ++ ["Table"]) with
            | none => rw [entryAt, leads, Option.bind_none]
            | some table =>
                rw [entryAt, leads, Option.bind_some, listedTable?, unnamed table leads,
                  Option.map_none]
          rw [unchanged, List.filterMap_cons_none silent]
        · have told : entryAt document (home ++ ["Table"]) =
              some (name, tableAlias? (.object fields)) := by
            rw [entryAt, leads, Option.bind_some, listedTable?, named, Option.map_some]
          rw [changed, List.filterMap_cons_some told]
          rfl

/-- Of several columns with qualifiers each is written in full, and nothing else is touched. -/
theorem foldl_qualifyCompound_spec (lists : Lists names document) (scope : Scope)
    (start : List String)
    (ends : ∀ pointer ∈ pointers, ∃ front, pointer = front ++ ["CompoundIdentifier"])
    (distinct : pointers.Nodup) :
    Lists names (pointers.foldl (qualifyCompound scope start) document) ∧
      Touches (fun front => front ++ ["CompoundIdentifier"] ∈ pointers) (fun _ => False) document
        (pointers.foldl (qualifyCompound scope start) document) ∧
      ∀ front parts, front ++ ["CompoundIdentifier"] ∈ pointers →
        document.at? (front ++ ["CompoundIdentifier"]) = some parts →
        (pointers.foldl (qualifyCompound scope start) document).at?
          (front ++ ["CompoundIdentifier"]) = some (fullColumn scope start parts) := by
  induction pointers generalizing document with
  | nil => exact ⟨lists, .refl document, fun _ _ listed => absurd listed List.not_mem_nil⟩
  | cons pointer rest ih =>
      obtain ⟨⟨home, rfl⟩, others⟩ := List.forall_mem_cons.1 ends
      obtain ⟨fresh, distinct⟩ := List.nodup_cons.1 distinct
      have step := touches_qualifyCompound lists.regular scope start home
      obtain ⟨kept, touches, written⟩ := ih (lists.qualifyCompound scope start home) others distinct
      refine ⟨kept, (step.mono ?_ fun _ no => no).trans (touches.mono ?_ fun _ no => no), ?_⟩
      · rintro front rfl
        exact List.mem_cons_self
      · exact fun front listed => List.mem_cons_of_mem _ listed
      · intro front parts listed leads
        rw [List.foldl_cons]
        rcases List.mem_cons.1 listed with here | later
        · rw [here] at leads ⊢
          rw [touches.compounds home fresh]
          exact at?_qualifyCompound leads scope start
        · refine written front parts later ?_
          rw [step.compounds front, leads]
          rintro rfl
          exact fresh later

/-- Several bare columns are written in full, and nothing else is touched. -/
theorem touches_foldlM_qualifyBare (lists : Lists names document) {inspector : Inspector}
    {placeholder : String} {scope : Scope}
    (ends : ∀ pointer ∈ pointers, ∃ front, pointer = front ++ ["Identifier"])
    (columns : ∀ pointer ∈ pointers,
      ∃ found, document.at? pointer.dropLast = some found ∧ Column found)
    (done : pointers.foldlM (qualifyBare inspector placeholder scope) document = .ok after) :
    Touches (fun front => front ++ ["Identifier"] ∈ pointers) (fun _ => False) document after := by
  induction pointers generalizing document with
  | nil =>
      cases done
      exact .refl _
  | cons pointer rest ih =>
      rw [List.foldlM_cons] at done
      obtain ⟨next, first, remaining⟩ := Result.bind_eq_ok.1 done
      obtain ⟨nextLists, nextColumns⟩ := lists.qualifyBare columns first
      obtain ⟨⟨home, rfl⟩, others⟩ := List.forall_mem_cons.1 ends
      obtain ⟨found, leads, column⟩ := columns _ List.mem_cons_self
      rw [List.dropLast_concat] at leads
      have step := touches_qualifyBare lists.regular leads column first
      refine (step.mono ?_ fun _ no => no).trans
        ((ih nextLists others nextColumns remaining).mono ?_ fun _ no => no)
      · rintro front rfl
        exact List.mem_cons_self
      · exact fun front listed => List.mem_cons_of_mem _ listed

/-! ## One SELECT -/

/-- A position lies below another one, without a SELECT in between. -/
def Within (base front : Pointer) : Prop :=
  ∃ middle, front = base ++ middle ∧ "Select" ∉ middle

/-- What the tables in the FROM of a SELECT tell of themselves. -/
def entriesOf (document : Document) (select : Pointer) : List (List String × Option String) :=
  (document.findBelow "Table" (select ++ ["from"]) (some "Select")).filterMap (entryAt document)

/-- The scope of a SELECT. -/
def scopeOf (document : Document) (select : Pointer) : Scope :=
  Scope.addAll {} (entriesOf document select)

theorem within_of_mem_findBelow (regular : Regular document) {key : String} (mark : key ∈ marks)
    {base front : Pointer} (listed : front ++ [key] ∈ document.findBelow key base (some "Select")) :
    Within base front := by
  obtain ⟨⟨middle, rfl, passes⟩, _⟩ :=
    (mem_findBelow_iff regular.keyed (index?_of_mem_marks mark) index?_select).1 listed
  exact ⟨middle, rfl, fun passed => passes _ passed rfl⟩

/-- A SELECT touches the columns and the tables in it, where no other SELECT lies in between, and
writes the columns with qualifiers in full. -/
theorem qualifySelect_spec (lists : Lists names document) {inspector : Inspector}
    {start : List String} {placeholder : String} {select : Pointer}
    (done : qualifySelect inspector start placeholder document select = .ok after) :
    Touches (Within select) (Within (select ++ ["from"])) document after ∧
      ∀ front parts, Within select front →
        document.at? (front ++ ["CompoundIdentifier"]) = some parts →
        after.at? (front ++ ["CompoundIdentifier"]) =
          some (fullColumn (scopeOf document select) start parts) := by
  rw [qualifySelect, collectTables] at done
  obtain ⟨collected, first, gathered⟩ := foldl_collectTable_spec lists {}
    (fun pointer (listed : pointer ∈
      document.findBelow "Table" (select ++ ["from"]) (some "Select")) =>
        exists_front_of_mem_findBelow listed) (nodup_findBelow lists.regular.keyed _)
  rw [← entriesOf, ← scopeOf] at gathered
  generalize List.foldl collectTable _ _ = state at done collected first gathered
  obtain ⟨given, scope⟩ := state
  obtain rfl : scope = scopeOf document select := gathered
  simp only at done collected first
  obtain ⟨qualified, second, written⟩ := foldl_qualifyCompound_spec collected
    (scopeOf document select) start
    (fun pointer (listed : pointer ∈ given.findBelow "CompoundIdentifier" select (some "Select")) =>
        exists_front_of_mem_findBelow listed) (nodup_findBelow collected.regular.keyed _)
  generalize List.foldl (qualifyCompound _ _) _ _ = result at done qualified second written
  have third := touches_foldlM_qualifyBare qualified
    (fun pointer listed => exists_front_of_mem_findBelow listed)
    (fun pointer listed => exists_column_of_mem_findBelow qualified.regular listed) done
  constructor
  · refine (first.mono (fun _ no => no.elim) ?_).trans
      ((second.mono ?_ fun _ no => no.elim).trans (third.mono ?_ fun _ no => no.elim))
    · exact fun front listed => within_of_mem_findBelow lists.regular (by decide) listed
    · exact fun front listed => within_of_mem_findBelow collected.regular (by decide) listed
    · exact fun front listed => within_of_mem_findBelow qualified.regular (by decide) listed
  · rintro front parts ⟨middle, rfl, fresh⟩ leads
    have here := (first.compounds (select ++ middle) id).trans leads
    have listed : select ++ middle ++ ["CompoundIdentifier"] ∈
        given.findBelow "CompoundIdentifier" select (some "Select") := by
      refine (mem_findBelow_iff collected.regular.keyed (by decide) index?_select).2
        ⟨⟨middle, rfl, ?_⟩, by rw [here]; rfl⟩
      rintro name passed ⟨⟩
      exact fresh passed
    have full := written _ parts listed here
    rw [third.compounds, full]
    intro bare
    obtain ⟨ident, there⟩ := exists_at?_of_mem_findBelow qualified.regular.keyed bare
    obtain ⟨fields, outer, field⟩ := exists_marked_of_at? (by decide) there
    obtain ⟨alone, _⟩ := (qualified.regular.at? outer).eq_column (by decide) field
    rw [at?_append, outer, alone] at full
    simp [at?, child?, Fields.get?] at full

end Access
end SemanticLayer
