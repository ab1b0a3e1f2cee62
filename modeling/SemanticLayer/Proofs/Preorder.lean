import SemanticLayer.Proofs.PointerTexts
import SemanticLayer.Proofs.Searches

/-!
# The order of a search

A position is a list of steps, each to a field or to an item. A search lists every position below
another that ends in the field it looks for and passes no field where it stops: what lies above in
front of what lies below, and else by the order of the fields and items where two positions part.
The texts of the positions lead to what is there.
-/

namespace SemanticLayer.Document

variable {key : String} {stop : Option String} {document child : Document}

/-! ## Positions -/

/-- A step down in a document: to a field, or to an item. -/
inductive Step where
  | field (name : String)
  | item (index : Nat)
  deriving DecidableEq

/-- The step as a pointer has it. -/
def Step.name : Step → String
  | field name => name
  | item index => String.ofList (Number.natText index)

/-- A list of steps as a pointer. -/
def toPointer (position : List Step) : Pointer :=
  position.map Step.name

/-- The steps down from a document, each with what it leads to, in the order of the document. -/
def children : Document → List (Step × Document)
  | .object fields => fields.map fun field => (.field field.1, field.2)
  | .array items => items.zipIdx.map fun item => (.item item.2, item.1)
  | _ => []

/-- The document that a step leads to. -/
def below? : Document → Step → Option Document
  | .object fields, .field name => Fields.get? fields name
  | .array items, .item index => items[index]?
  | _, _ => none

/-- The document that some steps lead to. -/
def follow : Document → List Step → Option Document
  | document, [] => some document
  | document, step :: rest => (document.below? step).bind fun child => child.follow rest

/-- One position is in front of another, going through a document from its root: it is above the
other, or where they part its step is the earlier one. -/
inductive Precedes : Document → List Step → List Step → Prop
  | above (document : Document) (step : Step) (rest : List Step) :
      Precedes document [] (step :: rest)
  | beside {document : Document} {first second : Step} (parted : [first, second].Sublist
      (document.children.map Prod.fst)) (rest rest' : List Step) :
      Precedes document (first :: rest) (second :: rest')
  | inside {document child : Document} {step : Step} {rest rest' : List Step}
      (here : document.below? step = some child) (inner : Precedes child rest rest') :
      Precedes document (step :: rest) (step :: rest')

/-- The position of a field called `key` that is there, and that passes no field called `stop`. -/
def Sought (key : String) (stop : Option String) (document : Document) (position : List Step) :
    Prop :=
  ∃ front, position = front ++ [.field key] ∧ (∀ step ∈ front, stop.map Step.field ≠ some step) ∧
    (document.follow position).isSome = true

/-! ## Steps -/

/-- The steps down from a document with distinct fields are different. -/
theorem Keyed.nodup_children (keyed : Keyed document) :
    (document.children.map Prod.fst).Nodup := by
  cases keyed with
  | object distinct _ =>
      rw [children, List.map_map]
      exact List.Nodup.of_map Step.name (by simpa [Function.comp_def, Step.name] using distinct)
  | @array items _ =>
      have indices : (children (.array items)).map Prod.fst =
          (List.range items.length).map Step.item := by
        rw [children, List.map_map, List.range_eq_range', ← List.zipIdx_map_snd 0 items,
          List.map_map]
        rfl
      rw [indices]
      exact List.nodup_range.map fun _ _ same => Step.item.inj same
  | null => exact List.nodup_nil
  | bool value => exact List.nodup_nil
  | number mantissa places => exact List.nodup_nil
  | string value => exact List.nodup_nil

theorem Keyed.mem_children_iff (keyed : Keyed document) {step : Step} :
    (step, child) ∈ document.children ↔ document.below? step = some child := by
  cases keyed with
  | @object fields distinct _ =>
      rw [children, List.mem_map]
      constructor
      · rintro ⟨field, here, same⟩
        cases same
        exact Fields.get?_eq_some_of_mem distinct here
      · intro found
        cases step with
        | field name => exact ⟨_, Fields.mem_of_get?_eq_some found, rfl⟩
        | item index => cases found
  | @array items _ =>
      rw [children, List.mem_map]
      constructor
      · rintro ⟨item, here, same⟩
        cases same
        exact List.mk_mem_zipIdx_iff_getElem?.1 here
      · intro found
        cases step with
        | field name => cases found
        | item index => exact ⟨(child, index), List.mk_mem_zipIdx_iff_getElem?.2 found, rfl⟩
  | null => simp [children, below?]
  | bool value => simp [children, below?]
  | number mantissa places => simp [children, below?]
  | string value => simp [children, below?]

/-- What holds of a document once it holds of all that its steps lead to holds of every document. -/
@[elab_as_elim]
theorem Keyed.induction_children {motive : Document → Prop}
    (above : ∀ document, Keyed document → (∀ child ∈ document.children, motive child.2) →
      motive document) (keyed : Keyed document) : motive document := by
  induction keyed with
  | object distinct inner ih =>
      refine above _ (.object distinct inner) fun child among => ?_
      obtain ⟨field, here, rfl⟩ := List.mem_map.1 among
      exact ih field here
  | array inner ih =>
      refine above _ (.array inner) fun child among => ?_
      obtain ⟨item, here, rfl⟩ := List.mem_map.1 among
      exact ih item.1 (List.fst_mem_of_mem_zipIdx here)
  | null => exact above _ .null fun _ among => absurd among List.not_mem_nil
  | bool value => exact above _ (.bool value) fun _ among => absurd among List.not_mem_nil
  | number mantissa places =>
      exact above _ (.number mantissa places) fun _ among => absurd among List.not_mem_nil
  | string value => exact above _ (.string value) fun _ among => absurd among List.not_mem_nil

/-- A step of a pointer leads where the step to the field or item leads. -/
theorem child?_name {step : Step} (found : document.below? step = some child) :
    document.child? step.name = some child := by
  cases document with
  | object fields =>
      cases step with
      | field name => exact found
      | item index => cases found
  | array items =>
      cases step with
      | field name => cases found
      | item index => exact (child?_index items index).trans found
  | null => cases found
  | bool value => cases found
  | number mantissa places => cases found
  | string value => cases found

theorem at?_toPointer {position : List Step} {value : Document}
    (leads : document.follow position = some value) :
    document.at? (toPointer position) = some value := by
  induction position generalizing document with
  | nil => exact leads
  | cons step rest ih =>
      obtain ⟨child, here, inner⟩ := Option.bind_eq_some_iff.1 leads
      rw [toPointer, List.map_cons, at?_cons, child?_name here, Option.bind_some]
      exact ih inner

theorem follow_append (document : Document) (front rest : List Step) :
    document.follow (front ++ rest) =
      (document.follow front).bind fun found => found.follow rest := by
  induction front generalizing document with
  | nil => rfl
  | cons step front ih =>
      rw [List.cons_append, follow, follow, Option.bind_assoc]
      congr
      funext child
      exact ih child

/-! ## The order of positions -/

/-- Of two different items only one is in front of the other. -/
theorem not_sublist_swap {α : Type} {items : List α} (once : items.Nodup) {one other : α}
    (first : [one, other].Sublist items) : ¬ [other, one].Sublist items := by
  intro second
  induction items with
  | nil => cases first
  | cons item rest ih =>
      obtain ⟨fresh, once⟩ := List.nodup_cons.1 once
      cases first with
      | cons _ first =>
          cases second with
          | cons _ second => exact ih once first second
          | cons_cons _ second => exact fresh (first.subset (by simp))
      | cons_cons _ first =>
          cases second with
          | cons _ second => exact fresh (second.subset (by simp))
          | cons_cons _ second => exact fresh (second.subset (by simp))

/-- Of two positions only one is in front of the other, and none is in front of itself. -/
theorem Precedes.asymm (keyed : Keyed document) {position position' : List Step}
    (first : document.Precedes position position') : ¬ document.Precedes position' position := by
  induction first with
  | above document step rest => rintro ⟨⟩
  | beside parted rest rest' =>
      intro second
      cases second with
      | beside parted' => exact not_sublist_swap keyed.nodup_children parted parted'
      | inside _ _ => exact not_sublist_swap keyed.nodup_children parted parted
  | inside here inner ih =>
      intro second
      cases second with
      | beside parted => exact not_sublist_swap keyed.nodup_children parted parted
      | inside here' inner' =>
          cases here.symm.trans here'
          exact ih (keyed.child? (child?_name here)) inner'

/-! ## What is sought -/

theorem not_sought_nil : ¬ Sought key stop document [] := by
  rintro ⟨front, same, -⟩
  simp at same

/-- A position that is sought ends with its first step, or goes on below it. -/
theorem sought_cons_iff {step : Step} {rest : List Step} :
    Sought key stop document (step :: rest) ↔ ∃ child, document.below? step = some child ∧
      (step = .field key ∧ rest = [] ∨
        stop.map Step.field ≠ some step ∧ Sought key stop child rest) := by
  constructor
  · rintro ⟨front, same, passes, leads⟩
    obtain ⟨value, leads⟩ := Option.isSome_iff_exists.1 leads
    obtain ⟨child, here, inner⟩ := Option.bind_eq_some_iff.1 leads
    refine ⟨child, here, ?_⟩
    cases front with
    | nil =>
        cases same
        exact .inl ⟨rfl, rfl⟩
    | cons first front =>
        cases same
        obtain ⟨passes, later⟩ := List.forall_mem_cons.1 passes
        exact .inr ⟨passes, front, rfl, later, Option.isSome_iff_exists.2 ⟨value, inner⟩⟩
  · rintro ⟨child, here, ⟨rfl, rfl⟩ | ⟨passes, front, rfl, later, leads⟩⟩
    · exact ⟨[], rfl, by simp, by simp [follow, here]⟩
    · refine ⟨step :: front, rfl, List.forall_mem_cons.2 ⟨passes, later⟩, ?_⟩
      rw [follow, here, Option.bind_some]
      exact leads

/-! ## What a search lists -/

/-- What a search lists of one step down. -/
def findInChild (key : String) (stop : Option String) (child : Step × Document) : List Pointer :=
  (if child.1 = .field key then [[key]] else []) ++
    if stop.map Step.field = some child.1 then []
    else (find key stop child.2).map (child.1.name :: ·)

/-- A search goes through the steps down from a document. -/
theorem find_eq_flatMap_children (key : String) (stop : Option String) (document : Document) :
    find key stop document = document.children.flatMap (findInChild key stop) := by
  cases document with
  | object fields =>
      rw [find_object, children, List.flatMap_map]
      congr 1
      funext field
      have stops : stop.map Step.field = some (Step.field field.1) ↔ stop = some field.1 := by
        cases stop <;> simp
      simp only [findInField, findInChild, Step.field.injEq, stops, Step.name]
      by_cases same : field.1 = key
      · simp only [same]
      · simp only [same, if_false]
  | array items =>
      have general (i : Nat) : findInItems key stop i items =
          (items.zipIdx i).flatMap fun item => findInChild key stop (.item item.2, item.1) := by
        induction items generalizing i with
        | nil => rfl
        | cons item rest ih =>
            have open' : stop.map Step.field ≠ some (Step.item i) := by cases stop <;> simp
            rw [findInItems, ih, List.zipIdx_cons, List.flatMap_cons]
            simp [findInChild, open', Step.name]
      rw [find, general, children, List.flatMap_map]
  | null => rfl
  | bool value => rfl
  | number mantissa places => rfl
  | string value => rfl

/-- The positions listed by a search of a document: all that is sought, in the order of the
document. -/
structure Lists (key : String) (stop : Option String) (document : Document)
    (positions : List (List Step)) : Prop where
  pointers : find key stop document = positions.map toPointer
  ordered : positions.Pairwise document.Precedes
  mem_iff : ∀ position, position ∈ positions ↔ Sought key stop document position

/-- The positions listed of one step down, from those that are listed below it. -/
def listBelow (key : String) (stop : Option String) (step : Step) (inner : List (List Step)) :
    List (List Step) :=
  (if step = .field key then [[step]] else []) ++
    if stop.map Step.field = some step then [] else inner.map (step :: ·)

theorem mem_listBelow_iff {step : Step} {inner : List (List Step)} {position : List Step} :
    position ∈ listBelow key stop step inner ↔ ∃ rest, position = step :: rest ∧
      (step = .field key ∧ rest = [] ∨ stop.map Step.field ≠ some step ∧ rest ∈ inner) := by
  rw [listBelow, List.mem_append]
  constructor
  · rintro (here | below)
    · split at here
      · rename_i found
        exact ⟨[], List.mem_singleton.1 here, .inl ⟨found, rfl⟩⟩
      · cases here
    · split at below
      · cases below
      · rename_i passes
        obtain ⟨rest, among, same⟩ := List.mem_map.1 below
        exact ⟨rest, same.symm, .inr ⟨passes, among⟩⟩
  · rintro ⟨rest, rfl, ⟨found, rfl⟩ | ⟨passes, among⟩⟩
    · exact .inl (by simp [found])
    · exact .inr (by rw [if_neg passes]; exact List.mem_map_of_mem among)

theorem map_toPointer_listBelow {step : Step} {inner : List (List Step)}
    (same : find key stop child = inner.map toPointer) :
    findInChild key stop (step, child) = (listBelow key stop step inner).map toPointer := by
  rw [findInChild, listBelow, List.map_append]
  congr 1
  · by_cases found : step = .field key
    · simp [found, toPointer, Step.name]
    · simp [found]
  · split
    · rfl
    · rw [same, List.map_map, List.map_map]
      rfl

/-- What lies below a step comes behind the step and in its own order. -/
theorem pairwise_listBelow {step : Step} {inner : List (List Step)}
    (here : document.below? step = some child) (nonempty : [] ∉ inner)
    (ordered : inner.Pairwise child.Precedes) :
    (listBelow key stop step inner).Pairwise document.Precedes := by
  have below : (inner.map (step :: ·)).Pairwise document.Precedes :=
    List.pairwise_map.2 (ordered.imp (.inside here))
  have above : ∀ position ∈ inner.map (step :: ·), document.Precedes [step] position := by
    intro position among
    obtain ⟨rest, inside, rfl⟩ := List.mem_map.1 among
    cases rest with
    | nil => exact absurd inside nonempty
    | cons next rest => exact .inside here (.above child next rest)
  rw [listBelow]
  split
  · split
    · exact List.pairwise_singleton ..
    · exact List.pairwise_cons.2 ⟨above, below⟩
  · split
    · exact List.Pairwise.nil
    · exact below

/-- A search lists what is sought, in the order of the document. -/
theorem Keyed.exists_lists (keyed : Keyed document) (key : String) (stop : Option String) :
    ∃ positions, Lists key stop document positions := by
  refine keyed.induction_children fun document keyed ih => ?_
  choose! inner lists using ih
  refine ⟨document.children.flatMap fun child => listBelow key stop child.1 (inner child),
    ?_, ?_, fun position => ?_⟩
  · rw [find_eq_flatMap_children, List.map_flatMap, List.flatMap_def, List.flatMap_def]
    congr 1
    exact List.map_congr_left fun child among =>
      map_toPointer_listBelow (lists child among).pointers
  · refine List.pairwise_flatMap.2 ⟨fun child among => ?_, ?_⟩
    · exact pairwise_listBelow (keyed.mem_children_iff.1 among)
        (fun none => not_sought_nil (((lists child among).mem_iff []).1 none))
        (lists child among).ordered
    · refine List.pairwise_iff_forall_sublist.2 fun {child child'} parted => ?_
      intro position among position' among'
      obtain ⟨rest, rfl, -⟩ := mem_listBelow_iff.1 among
      obtain ⟨rest', rfl, -⟩ := mem_listBelow_iff.1 among'
      exact .beside (parted.map Prod.fst) rest rest'
  · rw [List.mem_flatMap]
    constructor
    · rintro ⟨child, among, listed⟩
      obtain ⟨rest, rfl, shape⟩ := mem_listBelow_iff.1 listed
      rw [(lists child among).mem_iff] at shape
      exact sought_cons_iff.2 ⟨child.2, keyed.mem_children_iff.1 among, shape⟩
    · intro sought
      cases position with
      | nil => exact absurd sought not_sought_nil
      | cons step rest =>
          obtain ⟨child, here, shape⟩ := sought_cons_iff.1 sought
          have among := keyed.mem_children_iff.2 here
          refine ⟨(step, child), among, mem_listBelow_iff.2 ⟨rest, rfl, ?_⟩⟩
          rw [(lists _ among).mem_iff]
          exact shape

/-! ## What a search writes -/

/-- The text of a pointer that goes on from a path, with that of the pointer above it. -/
def withParent (path : String) (pointer : Pointer) : String × String :=
  (path ++ Pointer.text pointer, path ++ Pointer.text pointer.dropLast)

theorem withParent_cons (path step : String) {rest : Pointer} (nonempty : rest ≠ []) :
    withParent path (step :: rest) = withParent (path ++ "/" ++ Pointer.escape step) rest := by
  rw [withParent, withParent, List.dropLast_cons_of_ne_nil nonempty, Pointer.text_cons,
    Pointer.text_cons]
  simp only [String.append_assoc]

/-- What is found below a step is written behind it. -/
theorem map_withParent_find (path step : String) (document : Document) :
    ((find key stop document).map (step :: ·)).map (withParent path) =
      (find key stop document).map (withParent (path ++ "/" ++ Pointer.escape step)) := by
  rw [List.map_map]
  exact List.map_congr_left fun rest listed => withParent_cons path step (ne_nil_of_mem_find listed)

mutual

/-- A search by text writes down the pointers that a search by steps finds. -/
theorem walk_eq (key : String) (stop : Option String) (path : String) : (document : Document) →
    walk key stop path document = (find key stop document).map (withParent path)
  | .object fields => walkFields_eq key stop path fields
  | .array items => walkItems_eq key stop path 0 items
  | .null => rfl
  | .bool _ => rfl
  | .number _ _ => rfl
  | .string _ => rfl

theorem walkFields_eq (key : String) (stop : Option String) (path : String) :
    (fields : List (String × Document)) →
      walkFields key stop path fields = (findInFields key stop fields).map (withParent path)
  | [] => rfl
  | (name, value) :: rest => by
      have here : withParent path [name] = (path ++ "/" ++ Pointer.escape name, path) := by
        simp [withParent, Pointer.text, String.append_assoc]
      rw [walkFields, findInFields, walkFields_eq key stop path rest, List.map_append,
        List.map_append, walk_eq key stop _ value]
      congr 2
      · split
        · rw [List.map_singleton, here]
        · rfl
      · split
        · rfl
        · rw [map_withParent_find]

theorem walkItems_eq (key : String) (stop : Option String) (path : String) (i : Nat) :
    (items : List Document) →
      walkItems key stop path i items = (findInItems key stop i items).map (withParent path)
  | [] => rfl
  | item :: rest => by
      rw [walkItems, findInItems, walkItems_eq key stop path (i + 1) rest, List.map_append,
        walk_eq key stop _ item, map_withParent_find, Pointer.escape_natText]

end

/-! ## What the texts lead to -/

/-- The text of what is sought leads to it, and the text above to the object that has it. -/
theorem resolve?_of_sought {base : String} {start : Document}
    (leads : document.resolve? base = some start) {position : List Step}
    (sought : Sought key stop start position) :
    ∃ fields value, Fields.get? fields key = some value ∧
      start.follow position = some value ∧
      document.resolve? (base ++ Pointer.text (toPointer position)) = some value ∧
      document.resolve? (base ++ Pointer.text (toPointer position).dropLast) =
        some (.object fields) := by
  obtain ⟨front, rfl, -, there⟩ := sought
  obtain ⟨value, found⟩ := Option.isSome_iff_exists.1 there
  have ends := found
  rw [follow_append] at ends
  obtain ⟨holder, above, last⟩ := Option.bind_eq_some_iff.1 ends
  obtain ⟨child, field, same⟩ := Option.bind_eq_some_iff.1 last
  cases same
  cases holder with
  | object fields =>
      refine ⟨fields, value, field, found, ?_, ?_⟩
      · rw [resolve?_append_text leads, at?_toPointer found]
      · rw [resolve?_append_text leads, toPointer, List.map_append, List.map_singleton,
          List.dropLast_concat]
        exact at?_toPointer above
  | array items => cases field
  | null => cases field
  | bool value => cases field
  | number mantissa places => cases field
  | string value => cases field

/-- Pointers of different steps are different texts. -/
theorem Pointer.append_text_injective {base : String} {front : Pointer}
    (reads : Pointer.ofText? base = some front) :
    Function.Injective fun pointer => base ++ Pointer.text pointer := by
  intro one other same
  have read := ofText?_append_text reads one
  rw [show base ++ text one = base ++ text other from same, ofText?_append_text reads] at read
  exact (List.append_cancel_left (Option.some.inj read)).symm

/-- Below a text that leads to a position of a document with distinct fields, a search writes down
every position that is sought, once and in the order of the document: a position in front of those
below it, then by the order of the fields and items. Each text leads to the value that is in the
field, and the text with it to the object that has the field. -/
theorem search_writes_what_is_sought (keyed : Keyed document) {base : String} {start : Document}
    (leads : document.resolve? base = some start) (key : String) (stop : Option String) :
    ∃ positions : List (List Step),
      document.findWithin key base stop =
        positions.map (fun position => withParent base (toPointer position)) ∧
      positions.Pairwise start.Precedes ∧
      (∀ position, position ∈ positions ↔ Sought key stop start position) ∧
      ((document.findWithin key base stop).map Prod.fst).Nodup ∧
      ∀ position ∈ positions, ∃ fields value, Fields.get? fields key = some value ∧
        start.follow position = some value ∧
        document.resolve? (withParent base (toPointer position)).1 = some value ∧
        document.resolve? (withParent base (toPointer position)).2 = some (.object fields) := by
  obtain ⟨front, reads, here⟩ := Option.bind_eq_some_iff.1 leads
  have inner := keyed.at? here
  obtain ⟨positions, lists⟩ := inner.exists_lists key stop
  have written : document.findWithin key base stop =
      (find key stop start).map (withParent base) := by
    rw [findWithin, leads]
    exact walk_eq key stop base start
  refine ⟨positions, ?_, lists.ordered, lists.mem_iff, ?_, fun position among => ?_⟩
  · rw [written, lists.pointers, List.map_map]
    rfl
  · rw [written, List.map_map]
    exact (nodup_find inner).map (Pointer.append_text_injective reads)
  · exact resolve?_of_sought leads ((lists.mem_iff position).1 among)

/-- A field with a slash in its name, and in it one named with a tilde, that holds an array. -/
def slashed : Document :=
  single "a/b" (.object
    [("k", .object [("k", .bool true), ("s", single "k" .null)]),
     ("~", .array [.null, single "k" (.string "x")])])

/-- The field in `s` is left out if the search stops there, and the others are written with their
escapes. -/
theorem search_writes_what_is_sought_slashed :
    slashed.findWithin "k" "/a~1b" (some "s") =
        [("/a~1b/k", "/a~1b"), ("/a~1b/k/k", "/a~1b/k"), ("/a~1b/~0/1/k", "/a~1b/~0/1")] ∧
      ∀ pair ∈ slashed.findWithin "k" "/a~1b" (some "s"),
        (slashed.resolve? pair.1).isSome = true ∧ (slashed.resolve? pair.2).isSome = true := by
  have keyed : Keyed slashed := by
    have one {name : String} {value : Document} (inner : Keyed value) :
        Keyed (.object [(name, value)]) := .object (by simp) (by simpa using inner)
    have two {name other : String} {first second : Document} (differ : name ≠ other)
        (inner : Keyed first ∧ Keyed second) : Keyed (.object [(name, first), (other, second)]) :=
      .object (by simpa using differ) (by simpa using inner)
    have items : Keyed (.array [.null, single "k" (.string "x")]) :=
      .array (by simpa using ⟨Keyed.null, one (.string "x")⟩)
    exact one (two (by decide) ⟨two (by decide) ⟨.bool true, one .null⟩, items⟩)
  obtain ⟨start, leads⟩ : ∃ start, slashed.resolve? "/a~1b" = some start :=
    Option.isSome_iff_exists.1 (by decide +kernel)
  obtain ⟨positions, written, -, -, -, found⟩ :=
    search_writes_what_is_sought keyed leads "k" (some "s")
  refine ⟨by decide +kernel, fun pair among => ?_⟩
  rw [written] at among
  obtain ⟨position, listed, rfl⟩ := List.mem_map.1 among
  obtain ⟨fields, value, -, -, here, above⟩ := found position listed
  exact ⟨by simp [here], by simp [above]⟩

end SemanticLayer.Document
