import SemanticLayer.Document.Pointer
import SemanticLayer.Proofs.Numerals

/-!
# Positions in documents

A pointer is followed step by step, and a change below a pointer is a change at it. The pointers
that a search lists lead to the fields it looks for, `Document.values` in their order.
-/

namespace SemanticLayer

/-! ## Indices -/

namespace Document

namespace Pointer

/-- An index is read back from the step that is written for it. -/
theorem index?_natText (i : Nat) : index? (String.ofList (Number.natText i)) = some i := by
  rw [index?, String.toList_ofList]
  split
  · rename_i c rest digits
    rcases Nat.eq_zero_or_pos i with zero | positive
    · subst zero
      rw [Number.natText_of_lt (by decide)] at digits
      cases digits
    · exact absurd (by simp [digits]) (Number.natText_head?_ne_zero positive)
  · exact Number.natural?_natText i

end Pointer

/-! ## Steps -/

theorem at?_cons (document : Document) (step : String) (rest : Pointer) :
    document.at? (step :: rest) = (document.child? step).bind fun child => child.at? rest := rfl

theorem at?_append (document : Document) (front rest : Pointer) :
    document.at? (front ++ rest) = (document.at? front).bind fun found => found.at? rest := by
  induction front generalizing document with
  | nil => rfl
  | cons step front ih =>
      rw [List.cons_append, at?_cons, at?_cons, Option.bind_assoc]
      congr
      funext child
      exact ih child

theorem changeField_changeField
    (step : String) (first second : Document → Document) (fields : Fields) :
    changeField step second (changeField step first fields) =
      changeField step (fun value => second (first value)) fields := by
  simp only [changeField, List.map_map]
  apply List.map_congr_left
  intro field _
  by_cases same : field.1 = step
  · simp [same]
  · simp [same]

theorem changeField_id (step : String) (fields : Fields) :
    changeField step (fun value => value) fields = fields := by
  have unchanged : (fun field : String × Document =>
      if field.1 == step then (field.1, field.2) else field) = id := by
    funext field
    split <;> rfl
  simp only [changeField, unchanged, List.map_id]

theorem changeField_eq_self {fields : Fields} {step : String}
    (others : ∀ field ∈ fields, field.1 ≠ step) (change : Document → Document) :
    changeField step change fields = fields := by
  conv => rhs; rw [← List.map_id fields]
  apply List.map_congr_left
  intro field here
  simp [others field here]

theorem changeField_comm
    {first second : String} (differ : first ≠ second) (f g : Document → Document)
    (fields : Fields) :
    changeField first f (changeField second g fields) =
      changeField second g (changeField first f fields) := by
  simp only [changeField, List.map_map]
  apply List.map_congr_left
  intro field _
  by_cases same : field.1 = first
  · simp [same, differ]
  · by_cases other : field.1 = second
    · simp [other, Ne.symm differ]
    · simp [same, other]

theorem keys_changeField (step : String) (change : Document → Document) (fields : Fields) :
    (changeField step change fields).map Prod.fst = fields.map Prod.fst := by
  rw [changeField, List.map_map]
  apply List.map_congr_left
  intro field _
  simp only [Function.comp_apply]
  split <;> rfl

theorem changeAt_append
    (change : Document → Document) (front rest : Pointer) (document : Document) :
    changeAt change (front ++ rest) document =
      changeAt (changeAt change rest) front document := by
  induction front generalizing document with
  | nil => rfl
  | cons step front ih =>
      have below : changeAt change (front ++ rest) = changeAt (changeAt change rest) front :=
        funext ih
      cases document with
      | object fields => simp only [List.cons_append, changeAt, below]
      | array items => simp only [List.cons_append, changeAt, below]
      | null => rfl
      | bool value => rfl
      | number mantissa places => rfl
      | string value => rfl

namespace Fields

theorem get?_cons (field : String × Document) (rest : Fields) (key : String) :
    get? (field :: rest) key = if field.1 = key then some field.2 else get? rest key := by
  by_cases same : field.1 = key
  · simp [get?, same]
  · simp [get?, same]

theorem get?_eq_some_of_mem
    {fields : Fields} (distinct : (fields.map Prod.fst).Nodup)
    {field : String × Document} (found : field ∈ fields) :
    get? fields field.1 = some field.2 := by
  induction fields with
  | nil => cases found
  | cons first rest ih =>
      rw [List.map_cons, List.nodup_cons] at distinct
      rw [get?_cons]
      cases found with
      | head => simp
      | tail _ later =>
          have other : first.1 ≠ field.1 := by
            intro same
            exact distinct.1 (same ▸ List.mem_map_of_mem later)
          rw [if_neg other, ih distinct.2 later]

theorem mem_of_get?_eq_some {fields : Fields} {key : String} {value : Document}
    (found : get? fields key = some value) : (key, value) ∈ fields := by
  induction fields with
  | nil => cases found
  | cons first rest ih =>
      rw [get?_cons] at found
      split at found
      · rename_i same
        cases found
        exact same ▸ List.mem_cons_self
      · exact List.mem_cons_of_mem _ (ih found)

theorem get?_eq_none_iff (fields : Fields) (key : String) :
    get? fields key = none ↔ ∀ field ∈ fields, field.1 ≠ key := by
  simp [get?]

theorem get?_changeField (fields : Fields) (step key : String) (change : Document → Document) :
    get? (changeField step change fields) key =
      if key = step then (get? fields key).map change else get? fields key := by
  induction fields with
  | nil => simp [changeField, get?]
  | cons first rest ih =>
      have tail := ih
      simp only [changeField] at tail
      simp only [changeField, List.map_cons, get?_cons, tail]
      by_cases wanted : key = step
      · subst wanted
        by_cases here : first.1 = key
        · simp [here]
        · simp [here]
      · by_cases here : first.1 = step
        · simp [here, wanted, Ne.symm wanted]
        · simp [here, wanted]

end Fields

/-! ## Documents with distinct fields -/

/-- A document in which no object has two fields of one name. -/
inductive Keyed : Document → Prop
  | null : Keyed .null
  | bool (value : Bool) : Keyed (.bool value)
  | number (mantissa : Int) (places : Nat) : Keyed (.number mantissa places)
  | string (value : String) : Keyed (.string value)
  | array {items : List Document} (inner : ∀ item ∈ items, Keyed item) : Keyed (.array items)
  | object {fields : Fields} (distinct : (fields.map Prod.fst).Nodup)
      (inner : ∀ field ∈ fields, Keyed field.2) : Keyed (.object fields)

theorem Keyed.child? {document child : Document} {step : String} (keyed : Keyed document)
    (found : document.child? step = some child) : Keyed child := by
  cases keyed with
  | array inner =>
      obtain ⟨i, _, item⟩ := Option.bind_eq_some_iff.1 found
      exact inner child (List.mem_of_getElem? item)
  | object distinct inner => exact inner _ (Fields.mem_of_get?_eq_some found)
  | null => cases found
  | bool value => cases found
  | number mantissa places => cases found
  | string value => cases found

theorem Keyed.at? {document found : Document} {pointer : Pointer} (keyed : Keyed document)
    (leads : document.at? pointer = some found) : Keyed found := by
  induction pointer generalizing document with
  | nil =>
      cases leads
      exact keyed
  | cons step rest ih =>
      rw [at?_cons] at leads
      obtain ⟨child, here, below⟩ := Option.bind_eq_some_iff.1 leads
      exact ih (keyed.child? here) below

/-! ## Searching -/

/-- What is listed of one field. -/
def findInField (key : String) (stop : Option String) (field : String × Document) : List Pointer :=
  (if field.1 = key then [[field.1]] else []) ++
    if stop = some field.1 then [] else (find key stop field.2).map (field.1 :: ·)

theorem findInFields_eq_flatMap (key : String) (stop : Option String) (fields : Fields) :
    findInFields key stop fields = fields.flatMap (findInField key stop) := by
  induction fields with
  | nil => rfl
  | cons field rest ih => rw [findInFields, ih, List.flatMap_cons, findInField]

theorem find_object (key : String) (stop : Option String) (fields : Fields) :
    find key stop (.object fields) = fields.flatMap (findInField key stop) := by
  rw [find, findInFields_eq_flatMap]

mutual

/-- The documents in every field called `key`, in the order of the document, fields before what
they hold. What lies in a field called `stop` is left out. -/
def values (key : String) (stop : Option String) : Document → List Document
  | .object fields => valuesInFields key stop fields
  | .array items => valuesInItems key stop items
  | _ => []

/-- The documents in every field called `key` in some fields. -/
def valuesInFields (key : String) (stop : Option String) :
    List (String × Document) → List Document
  | [] => []
  | (name, value) :: rest =>
    (if name = key then [value] else []) ++
      (if stop = some name then [] else values key stop value) ++ valuesInFields key stop rest

/-- The documents in every field called `key` in some items. -/
def valuesInItems (key : String) (stop : Option String) : List Document → List Document
  | [] => []
  | item :: rest => values key stop item ++ valuesInItems key stop rest

end

/-- What one field holds of the documents in fields called `key`. -/
def valuesInField (key : String) (stop : Option String) (field : String × Document) :
    List Document :=
  (if field.1 = key then [field.2] else []) ++
    if stop = some field.1 then [] else values key stop field.2

theorem values_object (key : String) (stop : Option String) (fields : Fields) :
    values key stop (.object fields) = fields.flatMap (valuesInField key stop) := by
  rw [values]
  induction fields with
  | nil => rfl
  | cons field rest ih => rw [valuesInFields, ih, List.flatMap_cons, valuesInField]

theorem values_array (key : String) (stop : Option String) (items : List Document) :
    values key stop (.array items) = items.flatMap (values key stop) := by
  rw [values]
  induction items with
  | nil => rfl
  | cons item rest ih => rw [valuesInItems, ih, List.flatMap_cons]

theorem child?_index (items : List Document) (i : Nat) :
    (Document.array items).child? (String.ofList (Number.natText i)) = items[i]? := by
  rw [child?, Pointer.index?_natText, Option.bind_some]

theorem map_at?_findInField
    {key : String} {stop : Option String} {fields : Fields}
    (distinct : (fields.map Prod.fst).Nodup) {field : String × Document} (here : field ∈ fields)
    (inner : (find key stop field.2).map field.2.at? = (values key stop field.2).map some) :
    (findInField key stop field).map (Document.object fields).at? =
      (valuesInField key stop field).map some := by
  have found : (Document.object fields).child? field.1 = some field.2 :=
    Fields.get?_eq_some_of_mem distinct here
  have below : (Document.object fields).at? ∘ (field.1 :: ·) = field.2.at? := by
    funext pointer
    rw [Function.comp_apply, at?_cons, found, Option.bind_some]
  rw [findInField, valuesInField, List.map_append, List.map_append]
  congr 1
  · split
    · simp [at?, found]
    · rfl
  · split
    · rfl
    · rw [List.map_map, below, inner]

theorem map_at?_findInItems
    {key : String} {stop : Option String} (front items : List Document)
    (inner : ∀ item ∈ items,
      (find key stop item).map item.at? = (values key stop item).map some) :
    (findInItems key stop front.length items).map (Document.array (front ++ items)).at? =
      (valuesInItems key stop items).map some := by
  induction items generalizing front with
  | nil => rfl
  | cons item rest ih =>
      have found : (Document.array (front ++ item :: rest)).child?
          (String.ofList (Number.natText front.length)) = some item := by
        rw [child?_index, List.getElem?_append_right (Nat.le_refl _)]
        simp
      have below : (Document.array (front ++ item :: rest)).at? ∘
          (String.ofList (Number.natText front.length) :: ·) = item.at? := by
        funext pointer
        rw [Function.comp_apply, at?_cons, found, Option.bind_some]
      have later := ih (front ++ [item]) fun other found => inner other (List.mem_cons_of_mem _ found)
      rw [List.append_assoc, List.length_append] at later
      rw [findInItems, valuesInItems, List.map_append, List.map_append, List.map_map, below,
        inner item List.mem_cons_self]
      congr 1

/-- A search lists the positions of the fields it looks for, in their order. -/
theorem map_at?_find {document : Document} (keyed : Keyed document)
    (key : String) (stop : Option String) :
    (find key stop document).map document.at? = (values key stop document).map some := by
  induction keyed with
  | object distinct _ ih =>
      rw [find_object, values_object, List.map_flatMap, List.map_flatMap, List.flatMap_def,
        List.flatMap_def]
      congr 1
      apply List.map_congr_left
      intro field here
      exact map_at?_findInField distinct here (ih field here)
  | array _ ih => exact map_at?_findInItems [] _ ih
  | null => rfl
  | bool value => rfl
  | number mantissa places => rfl
  | string value => rfl

/-- Every position that a search lists leads somewhere. -/
theorem exists_at?_of_mem_find {document : Document} (keyed : Keyed document)
    {key : String} {stop : Option String} {pointer : Pointer}
    (listed : pointer ∈ find key stop document) : ∃ found, document.at? pointer = some found := by
  have leads : document.at? pointer ∈ (values key stop document).map some := by
    rw [← map_at?_find keyed]
    exact List.mem_map_of_mem listed
  obtain ⟨found, _, same⟩ := List.mem_map.1 leads
  exact ⟨found, same.symm⟩

mutual

/-- The last step of a position that a search lists is the field it looks for. -/
theorem exists_front_of_mem_find (key : String) (stop : Option String) :
    (document : Document) → {pointer : Pointer} → pointer ∈ find key stop document →
      ∃ front, pointer = front ++ [key]
  | .object fields, _, listed => exists_front_of_mem_findInFields key stop fields listed
  | .array items, _, listed => exists_front_of_mem_findInItems key stop 0 items listed
  | .null, _, listed => by cases listed
  | .bool _, _, listed => by cases listed
  | .number _ _, _, listed => by cases listed
  | .string _, _, listed => by cases listed

theorem exists_front_of_mem_findInFields (key : String) (stop : Option String) :
    (fields : List (String × Document)) → {pointer : Pointer} →
      pointer ∈ findInFields key stop fields → ∃ front, pointer = front ++ [key]
  | [], _, listed => by cases listed
  | (name, value) :: rest, pointer, listed => by
      rw [findInFields, List.mem_append, List.mem_append] at listed
      rcases listed with (here | below) | later
      · split at here
        · rename_i same
          exact ⟨[], by simpa [same] using here⟩
        · cases here
      · split at below
        · cases below
        · obtain ⟨tail, found, same⟩ := List.mem_map.1 below
          obtain ⟨front, ends⟩ := exists_front_of_mem_find key stop value found
          exact ⟨name :: front, by rw [← same, ends, List.cons_append]⟩
      · exact exists_front_of_mem_findInFields key stop rest later

theorem exists_front_of_mem_findInItems (key : String) (stop : Option String) (i : Nat) :
    (items : List Document) → {pointer : Pointer} →
      pointer ∈ findInItems key stop i items → ∃ front, pointer = front ++ [key]
  | [], _, listed => by cases listed
  | item :: rest, pointer, listed => by
      rw [findInItems, List.mem_append] at listed
      rcases listed with below | later
      · obtain ⟨tail, found, same⟩ := List.mem_map.1 below
        obtain ⟨front, ends⟩ := exists_front_of_mem_find key stop item found
        exact ⟨_ :: front, by rw [← same, ends, List.cons_append]⟩
      · exact exists_front_of_mem_findInItems key stop (i + 1) rest later

end

/-- The last step of a position that is listed below another is the field that is looked for. -/
theorem exists_front_of_mem_findBelow
    {document : Document} {key : String} {base pointer : Pointer} {stop : Option String}
    (listed : pointer ∈ findBelow document key base stop) : ∃ front, pointer = front ++ [key] := by
  rw [findBelow] at listed
  split at listed
  · obtain ⟨tail, found, same⟩ := List.mem_map.1 listed
    obtain ⟨front, ends⟩ := exists_front_of_mem_find key stop _ found
    exact ⟨base ++ front, by rw [← same, ends, List.append_assoc]⟩
  · cases listed

/-- Every position that is listed below another leads somewhere. -/
theorem exists_at?_of_mem_findBelow
    {document : Document} (keyed : Keyed document) {key : String} {base pointer : Pointer}
    {stop : Option String} (listed : pointer ∈ findBelow document key base stop) :
    ∃ found, document.at? pointer = some found := by
  rw [findBelow] at listed
  split at listed
  · rename_i start here
    obtain ⟨tail, place, same⟩ := List.mem_map.1 listed
    obtain ⟨found, leads⟩ := exists_at?_of_mem_find (keyed.at? here) place
    exact ⟨found, by rw [← same, at?_append, here, Option.bind_some, leads]⟩
  · cases listed

end Document
end SemanticLayer
