import SemanticLayer.Proofs.Positions

/-!
# Where a change shows

A search lists exactly the positions that end in the field it looks for, lead somewhere and pass no
field where it stops. A change at a position shows there and below; above it shows as a change below,
and nowhere else.
-/

namespace SemanticLayer
namespace Document

/-! ## Indices -/

/-- Only its decimal digits are a step to an index. -/
theorem Pointer.eq_natText_of_index? {step : String} {i : Nat} (index : index? step = some i) :
    step = String.ofList (Number.natText i) := by
  rw [index?.eq_def] at index
  split at index
  · cases index
  · rename_i lead
    rw [Number.natural?] at index
    split at index
    · rename_i digits
      cases index
      rw [Number.natText_digitsValue digits.1 digits.2, String.ofList_toList]
      intro zero
      obtain ⟨rest, shape⟩ : ∃ rest, step.toList = '0' :: rest := by
        cases chars : step.toList with
        | nil => exact absurd chars digits.1
        | cons c rest =>
            rw [chars] at zero
            exact ⟨rest, by rw [Option.some.inj zero]⟩
      cases rest with
      | nil => exact shape
      | cons d rest => exact absurd shape (lead d rest)
    · cases index

/-! ## What a search lists -/

theorem mem_findInItems_iff {key : String} {stop : Option String} {pointer : Pointer}
    {items : List Document} {start : Nat} :
    pointer ∈ findInItems key stop start items ↔
      ∃ i item tail, items[i]? = some item ∧ tail ∈ find key stop item ∧
        pointer = String.ofList (Number.natText (start + i)) :: tail := by
  induction items generalizing start with
  | nil => simp [findInItems]
  | cons item rest ih =>
      rw [findInItems, List.mem_append, ih]
      constructor
      · rintro (here | ⟨i, other, tail, found, listed, rfl⟩)
        · obtain ⟨tail, listed, rfl⟩ := List.mem_map.1 here
          exact ⟨0, item, tail, rfl, listed, rfl⟩
        · exact ⟨i + 1, other, tail, found, listed, by rw [Nat.add_right_comm, Nat.add_assoc]⟩
      · rintro ⟨i, other, tail, found, listed, rfl⟩
        cases i with
        | zero =>
            cases found
            exact Or.inl (List.mem_map_of_mem listed)
        | succ i =>
            exact Or.inr ⟨i, other, tail, found, listed, by rw [Nat.add_right_comm, Nat.add_assoc]⟩

theorem ne_nil_of_mem_find {key : String} {stop : Option String} {document : Document}
    {pointer : Pointer} (listed : pointer ∈ find key stop document) : pointer ≠ [] := by
  obtain ⟨front, rfl⟩ := exists_front_of_mem_find key stop document listed
  simp

theorem mem_findInField_iff {key step : String} {stop : Option String} {rest : Pointer}
    {field : String × Document} :
    step :: rest ∈ findInField key stop field ↔
      field.1 = step ∧ (step = key ∧ rest = [] ∨ stop ≠ some step ∧ rest ∈ find key stop field.2) := by
  rw [findInField, List.mem_append]
  constructor
  · rintro (here | below)
    · split at here
      · rename_i same
        obtain ⟨rfl, rfl⟩ := List.cons.inj (List.mem_singleton.1 here)
        exact ⟨rfl, Or.inl ⟨same, rfl⟩⟩
      · cases here
    · split at below
      · cases below
      · rename_i open'
        obtain ⟨tail, listed, same⟩ := List.mem_map.1 below
        obtain ⟨rfl, rfl⟩ := List.cons.inj same
        exact ⟨rfl, Or.inr ⟨open', listed⟩⟩
  · rintro ⟨rfl, ⟨rfl, rfl⟩ | ⟨open', listed⟩⟩
    · exact Or.inl (by simp)
    · exact Or.inr (by rw [if_neg open']; exact List.mem_map_of_mem listed)

/-- What is found in a field where the search does not stop is found in the object. -/
theorem find_ne_nil_of_field {key : String} {stop : Option String} {fields : Fields}
    (name : String) {value : Document} (here : (name, value) ∈ fields) (passes : stop ≠ some name)
    (found : find key stop value ≠ []) : find key stop (.object fields) ≠ [] := by
  obtain ⟨pointer, listed⟩ := List.exists_mem_of_ne_nil _ found
  rw [find_object]
  exact List.ne_nil_of_mem
    (List.mem_flatMap.2 ⟨_, here, mem_findInField_iff.2 ⟨rfl, Or.inr ⟨passes, listed⟩⟩⟩)

theorem find_ne_nil_of_item {key : String} {stop : Option String} {items : List Document}
    {item : Document} (here : item ∈ items) (found : find key stop item ≠ []) :
    find key stop (.array items) ≠ [] := by
  obtain ⟨pointer, listed⟩ := List.exists_mem_of_ne_nil _ found
  obtain ⟨i, place⟩ := List.mem_iff_getElem?.1 here
  rw [find]
  exact List.ne_nil_of_mem (mem_findInItems_iff.2 ⟨i, item, pointer, place, listed, rfl⟩)

/-- A search lists the positions of its field that lead somewhere without passing a field where it
stops. -/
theorem mem_find_iff {document : Document} (keyed : Keyed document) {key : String}
    {stop : Option String} (named : Pointer.index? key = none)
    (stopNamed : ∀ name, stop = some name → Pointer.index? name = none) {front : Pointer} :
    front ++ [key] ∈ find key stop document ↔
      (∀ name ∈ front, stop ≠ some name) ∧ (document.at? (front ++ [key])).isSome := by
  induction front generalizing document with
  | nil =>
      simp only [List.nil_append, List.not_mem_nil, false_implies, implies_true, true_and]
      cases keyed with
      | object distinct _ =>
          rw [find_object, List.mem_flatMap]
          constructor
          · rintro ⟨field, here, listed⟩
            obtain ⟨rfl, _⟩ := mem_findInField_iff.1 listed
            simp [at?, child?, Fields.get?_eq_some_of_mem distinct here]
          · intro leads
            obtain ⟨value, found⟩ := Option.isSome_iff_exists.1 leads
            obtain ⟨child, here, _⟩ := Option.bind_eq_some_iff.1 found
            exact ⟨_, Fields.mem_of_get?_eq_some here,
              mem_findInField_iff.2 ⟨rfl, Or.inl ⟨rfl, rfl⟩⟩⟩
      | array _ =>
          rw [find, mem_findInItems_iff]
          constructor
          · rintro ⟨i, item, tail, _, listed, same⟩
            exact absurd (List.cons.inj same).2.symm (ne_nil_of_mem_find listed)
          · simp [at?, child?, named]
      | null => simp [find, at?, child?]
      | bool value => simp [find, at?, child?]
      | number mantissa places => simp [find, at?, child?]
      | string value => simp [find, at?, child?]
  | cons step rest ih =>
      rw [List.cons_append, List.forall_mem_cons, at?_cons]
      cases keyed with
      | @object fields distinct inner =>
          rw [find_object, List.mem_flatMap]
          constructor
          · rintro ⟨field, here, listed⟩
            obtain ⟨rfl, ⟨_, short⟩ | ⟨open', below⟩⟩ := mem_findInField_iff.1 listed
            · simp at short
            · obtain ⟨passes, leads⟩ := (ih (inner field here)).1 below
              refine ⟨⟨open', passes⟩, ?_⟩
              rw [child?, Fields.get?_eq_some_of_mem distinct here, Option.bind_some]
              exact leads
          · rintro ⟨⟨open', passes⟩, leads⟩
            obtain ⟨value, found⟩ := Option.isSome_iff_exists.1 leads
            obtain ⟨child, here, below⟩ := Option.bind_eq_some_iff.1 found
            have field := Fields.mem_of_get?_eq_some here
            exact ⟨_, field, mem_findInField_iff.2 ⟨rfl, Or.inr ⟨open',
              (ih (inner _ field)).2 ⟨passes, Option.isSome_iff_exists.2 ⟨value, below⟩⟩⟩⟩⟩
      | @array items inner =>
          rw [find, mem_findInItems_iff]
          constructor
          · rintro ⟨i, item, tail, found, listed, same⟩
            obtain ⟨rfl, rfl⟩ := List.cons.inj same
            obtain ⟨passes, leads⟩ := (ih (inner item (List.mem_of_getElem? found))).1 listed
            rw [Nat.zero_add]
            refine ⟨⟨?_, passes⟩, ?_⟩
            · intro stops
              have index := stopNamed _ stops
              rw [Pointer.index?_natText] at index
              cases index
            · rw [child?_index, found, Option.bind_some]
              exact leads
          · rintro ⟨⟨_, passes⟩, leads⟩
            obtain ⟨value, found⟩ := Option.isSome_iff_exists.1 leads
            obtain ⟨child, here, below⟩ := Option.bind_eq_some_iff.1 found
            obtain ⟨i, index, item⟩ := Option.bind_eq_some_iff.1 here
            refine ⟨i, child, _, item, (ih (inner child (List.mem_of_getElem? item))).2
              ⟨passes, Option.isSome_iff_exists.2 ⟨value, below⟩⟩, ?_⟩
            rw [Nat.zero_add, ← Pointer.eq_natText_of_index? index]
      | null => simp [find, child?]
      | bool value => simp [find, child?]
      | number mantissa places => simp [find, child?]
      | string value => simp [find, child?]

/-- The values that a search finds are those at the positions it lists. -/
theorem mem_values_iff {document value : Document} (keyed : Keyed document) {key : String}
    {stop : Option String} (named : Pointer.index? key = none)
    (stopNamed : ∀ name, stop = some name → Pointer.index? name = none) :
    value ∈ values key stop document ↔
      ∃ front, (∀ name ∈ front, stop ≠ some name) ∧
        document.at? (front ++ [key]) = some value := by
  have listed : value ∈ values key stop document ↔
      ∃ pointer ∈ find key stop document, document.at? pointer = some value := by
    rw [← List.mem_map, map_at?_find keyed]
    simp
  rw [listed]
  constructor
  · rintro ⟨pointer, here, found⟩
    obtain ⟨front, rfl⟩ := exists_front_of_mem_find key stop document here
    exact ⟨front, ((mem_find_iff keyed named stopNamed).1 here).1, found⟩
  · rintro ⟨front, passes, found⟩
    exact ⟨_, (mem_find_iff keyed named stopNamed).2
      ⟨passes, Option.isSome_iff_exists.2 ⟨value, found⟩⟩, found⟩

/-- A search below a position lists what a search there lists. -/
theorem mem_findBelow_iff {document : Document} (keyed : Keyed document) {key : String}
    {base : Pointer} {stop : Option String} (named : Pointer.index? key = none)
    (stopNamed : ∀ name, stop = some name → Pointer.index? name = none) {front : Pointer} :
    front ++ [key] ∈ document.findBelow key base stop ↔
      (∃ middle, front = base ++ middle ∧ ∀ name ∈ middle, stop ≠ some name) ∧
        (document.at? (front ++ [key])).isSome := by
  rw [findBelow]
  constructor
  · intro listed
    split at listed
    · rename_i start here
      obtain ⟨tail, place, same⟩ := List.mem_map.1 listed
      obtain ⟨middle, rfl⟩ := exists_front_of_mem_find key stop start place
      rw [← List.append_assoc] at same
      obtain rfl := List.append_cancel_right same
      obtain ⟨passes, leads⟩ := (mem_find_iff (keyed.at? here) named stopNamed).1 place
      refine ⟨⟨middle, rfl, passes⟩, ?_⟩
      rw [List.append_assoc, at?_append, here, Option.bind_some]
      exact leads
    · cases listed
  · rintro ⟨⟨middle, rfl, passes⟩, leads⟩
    obtain ⟨value, found⟩ := Option.isSome_iff_exists.1 leads
    rw [List.append_assoc, at?_append] at found
    obtain ⟨start, here, below⟩ := Option.bind_eq_some_iff.1 found
    rw [here, List.append_assoc]
    exact List.mem_map_of_mem ((mem_find_iff (keyed.at? here) named stopNamed).2
      ⟨passes, Option.isSome_iff_exists.2 ⟨value, below⟩⟩)

/-! ## What a change leaves as it was -/

/-- At the changed position and below stands what the change makes of it. -/
theorem at?_changeAt_append (change : Document → Document) (front rest : Pointer)
    (document : Document) :
    (changeAt change front document).at? (front ++ rest) =
      (document.at? front).bind fun found => (change found).at? rest := by
  induction front generalizing document with
  | nil => rfl
  | cons step front ih =>
      rw [List.cons_append, at?_cons, at?_cons, Option.bind_assoc]
      cases document with
      | object fields =>
          rw [changeAt, child?, Fields.get?_changeField, if_pos rfl, child?, Option.bind_map]
          congr 1
          funext value
          exact ih value
      | array items =>
          cases index : Pointer.index? step with
          | none => simp [changeAt, index, child?]
          | some i =>
              simp only [changeAt, index, child?, Option.bind_some, List.getElem?_modify, if_true,
                Option.map_eq_map, Option.bind_map]
              congr 1
              funext value
              exact ih value
      | null => rfl
      | bool value => rfl
      | number mantissa places => rfl
      | string value => rfl

theorem child?_changeAt_of_ne (change : Document → Document) {step other : String}
    (rest : Pointer) (differ : other ≠ step) (document : Document) :
    (changeAt change (step :: rest) document).child? other = document.child? other := by
  cases document with
  | object fields => rw [changeAt, child?, Fields.get?_changeField, if_neg differ, child?]
  | array items =>
      cases index : Pointer.index? step with
      | none => simp [changeAt, index]
      | some i =>
          cases index' : Pointer.index? other with
          | none => simp [changeAt, index, child?, index']
          | some j =>
              have apart : i ≠ j := by
                rintro rfl
                exact differ ((Pointer.eq_natText_of_index? index').trans
                  (Pointer.eq_natText_of_index? index).symm)
              simp [changeAt, index, child?, index', List.getElem?_modify, apart]
  | null => rfl
  | bool value => rfl
  | number mantissa places => rfl
  | string value => rfl

theorem child?_changeAt (change : Document → Document) (step : String) (rest : Pointer)
    (document : Document) :
    (changeAt change (step :: rest) document).child? step =
      (document.child? step).map (changeAt change rest) := by
  cases document with
  | object fields => rw [changeAt, child?, Fields.get?_changeField, if_pos rfl, child?]
  | array items =>
      cases index : Pointer.index? step with
      | none => simp [changeAt, index, child?]
      | some i => simp [changeAt, index, child?, List.getElem?_modify]
  | null => rfl
  | bool value => rfl
  | number mantissa places => rfl
  | string value => rfl

/-- A change below one field keeps the others. -/
theorem field?_changeAt_of_ne (change : Document → Document) {step key : String}
    (rest : Pointer) (differ : key ≠ step) (document : Document) :
    (changeAt change (step :: rest) document).field? key = document.field? key := by
  cases document with
  | object fields => rw [changeAt, field?, Fields.get?_changeField, if_neg differ, field?]
  | array items =>
      rw [changeAt]
      split <;> rfl
  | null => rfl
  | bool value => rfl
  | number mantissa places => rfl
  | string value => rfl

/-- Elsewhere than at a position and below it a change leaves what there is, or changes it further
below. -/
theorem at?_changeAt_of_elsewhere (change : Document → Document) {pointer other : Pointer}
    (apart : ¬ pointer <+: other) (document : Document) :
    (changeAt change pointer document).at? other = document.at? other ∨
      ∃ step rest, pointer = other ++ step :: rest ∧
        (changeAt change pointer document).at? other =
          (document.at? other).map (changeAt change (step :: rest)) := by
  induction pointer generalizing document other with
  | nil => exact absurd List.nil_prefix apart
  | cons step rest ih =>
      cases other with
      | nil => exact Or.inr ⟨step, rest, rfl, rfl⟩
      | cons next later =>
          rw [at?_cons, at?_cons]
          by_cases same : next = step
          · subst same
            rw [child?_changeAt, Option.bind_map]
            cases here : document.child? next with
            | none => exact Or.inl rfl
            | some child =>
                simp only [Option.bind_some]
                rcases ih (fun before => apart (List.cons_prefix_cons.2 ⟨rfl, before⟩)) child with
                  kept | ⟨first, tail, rfl, changed⟩
                · exact Or.inl kept
                · exact Or.inr ⟨first, tail, rfl, changed⟩
          · rw [child?_changeAt_of_ne change rest same]
            exact Or.inl rfl

end Document
end SemanticLayer
