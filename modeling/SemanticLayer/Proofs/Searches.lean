import Mathlib.Data.List.Nodup
import SemanticLayer.Proofs.Places

/-!
# Searches in documents that change

A search lists no position twice, and what it lists below a position it lists in the whole document
as well, in the same order. So a search below any position stays as it is where that of the whole
document does, which depends on what is found at the changed position alone.
-/

namespace SemanticLayer
namespace Document

variable {key : String} {stop : Option String}

/-! ## No position twice -/

theorem Pointer.natText_injective :
    Function.Injective fun i => String.ofList (Number.natText i) := by
  intro i j same
  have first := index?_natText i
  rw [show String.ofList (Number.natText i) = String.ofList (Number.natText j) from same,
    index?_natText] at first
  exact (Option.some.inj first).symm

theorem nodup_findInField {field : String × Document} (inner : (find key stop field.2).Nodup) :
    (findInField key stop field).Nodup := by
  have below : ((find key stop field.2).map (field.1 :: ·)).Nodup := inner.map List.cons_injective
  rw [findInField]
  split
  · split
    · simp
    · refine List.nodup_cons.2 ⟨fun listed => ?_, below⟩
      obtain ⟨tail, found, same⟩ := List.mem_map.1 listed
      exact ne_nil_of_mem_find found (List.cons.inj same).2
  · split
    · exact List.nodup_nil
    · exact below

theorem nodup_findInItems {items : List Document}
    (inner : ∀ item ∈ items, (find key stop item).Nodup) (i : Nat) :
    (findInItems key stop i items).Nodup := by
  induction items generalizing i with
  | nil => exact List.nodup_nil
  | cons item rest ih =>
      obtain ⟨here, later⟩ := List.forall_mem_cons.1 inner
      rw [findInItems, List.nodup_append]
      refine ⟨here.map List.cons_injective, ih later (i + 1), ?_⟩
      rintro _ first _ second rfl
      obtain ⟨tail, _, same⟩ := List.mem_map.1 first
      obtain ⟨j, _, tail', _, _, same'⟩ := mem_findInItems_iff.1 second
      have index := Pointer.natText_injective (List.cons.inj (same.trans same')).1
      omega

/-- A search lists no position twice. -/
theorem nodup_find {document : Document} (keyed : Keyed document) :
    (find key stop document).Nodup := by
  induction keyed with
  | object distinct _ ih =>
      rw [find_object, List.nodup_flatMap]
      refine ⟨fun field here => nodup_findInField (ih field here), ?_⟩
      refine (List.pairwise_map.1 distinct).imp fun {first second} differ => ?_
      intro pointer listed listed'
      have step (field : String × Document) (inField : pointer ∈ findInField key stop field) :
          pointer.head? = some field.1 := by
        obtain ⟨step, rest, rfl⟩ := List.exists_cons_of_ne_nil (l := pointer) (by
          rintro rfl
          rw [findInField] at inField
          grind)
        rw [(mem_findInField_iff.1 inField).1, List.head?_cons]
      exact differ (Option.some.inj ((step first listed).symm.trans (step second listed')))
  | array _ ih =>
      rw [find]
      exact nodup_findInItems ih 0
  | null => exact List.nodup_nil
  | bool value => exact List.nodup_nil
  | number mantissa places => exact List.nodup_nil
  | string value => exact List.nodup_nil

theorem nodup_findBelow {document : Document} (keyed : Keyed document) (base : Pointer) :
    (document.findBelow key base stop).Nodup := by
  rw [findBelow]
  split
  · rename_i start here
    exact (nodup_find (keyed.at? here)).map (List.append_right_injective base)
  · exact List.nodup_nil

/-! ## Parts of searches -/

theorem findInField_sublist (field : String × Document)
    (inner : (find key stop field.2).Sublist (find key none field.2)) :
    (findInField key stop field).Sublist (findInField key none field) := by
  rw [findInField, findInField, if_neg (c := none = some field.1) (by simp)]
  refine List.Sublist.append_left ?_ _
  split
  · exact List.nil_sublist _
  · exact inner.map _

theorem findInItems_sublist {items : List Document}
    (inner : ∀ item ∈ items, (find key stop item).Sublist (find key none item)) (i : Nat) :
    (findInItems key stop i items).Sublist (findInItems key none i items) := by
  induction items generalizing i with
  | nil => exact List.Sublist.refl _
  | cons item rest ih =>
      obtain ⟨here, later⟩ := List.forall_mem_cons.1 inner
      rw [findInItems, findInItems]
      exact (here.map _).append (ih later (i + 1))

theorem flatMap_sublist {α β : Type} {items : List α} {f g : α → List β}
    (inner : ∀ item ∈ items, (f item).Sublist (g item)) :
    (items.flatMap f).Sublist (items.flatMap g) := by
  induction items with
  | nil => exact List.Sublist.refl _
  | cons item rest ih =>
      obtain ⟨here, later⟩ := List.forall_mem_cons.1 inner
      rw [List.flatMap_cons, List.flatMap_cons]
      exact here.append (ih later)

/-- A search that stops somewhere lists a part of what one lists that does not. -/
theorem find_sublist {document : Document} (keyed : Keyed document) :
    (find key stop document).Sublist (find key none document) := by
  induction keyed with
  | object _ _ ih =>
      rw [find_object, find_object]
      exact flatMap_sublist fun field here => findInField_sublist field (ih field here)
  | array _ ih =>
      rw [find, find]
      exact findInItems_sublist ih 0
  | null => exact List.Sublist.refl _
  | bool value => exact List.Sublist.refl _
  | number mantissa places => exact List.Sublist.refl _
  | string value => exact List.Sublist.refl _

theorem findInItems_sublist_of_mem {items : List Document} {item : Document} {i : Nat}
    (here : items[i]? = some item) (start : Nat) :
    ((find key none item).map (String.ofList (Number.natText (start + i)) :: ·)).Sublist
      (findInItems key none start items) := by
  induction items generalizing i start with
  | nil => cases here
  | cons first rest ih =>
      rw [findInItems]
      cases i with
      | zero =>
          cases here
          exact List.sublist_append_left _ _
      | succ i =>
          have later := ih here (start + 1)
          rw [Nat.add_assoc, Nat.add_comm 1 i] at later
          exact later.trans (List.sublist_append_right _ _)

/-- What is listed below a position is a part of what is listed. -/
theorem findBelow_sublist {document : Document} (keyed : Keyed document) (base : Pointer) :
    (document.findBelow key base stop).Sublist (document.find key none) := by
  rw [findBelow]
  split
  · rename_i start here
    refine ((find_sublist (keyed.at? here)).map _).trans ?_
    induction base generalizing document with
    | nil =>
        cases here
        simp
    | cons step rest ih =>
        obtain ⟨child, below, inner⟩ := Option.bind_eq_some_iff.1 here
        have part := (ih (keyed.child? below) inner).map (step :: ·)
        rw [List.map_map] at part
        refine part.trans ?_
        cases document with
        | object fields =>
            have field := Fields.mem_of_get?_eq_some below
            rw [find_object, List.flatMap_def]
            refine List.Sublist.trans ?_ (List.sublist_flatten_of_mem (List.mem_map_of_mem field))
            rw [findInField, if_neg (c := none = some step) (by simp)]
            exact List.sublist_append_right _ _
        | array items =>
            obtain ⟨i, index, item⟩ := Option.bind_eq_some_iff.1 below
            have part := @findInItems_sublist_of_mem key _ _ _ item 0
            rw [Nat.zero_add, ← Pointer.eq_natText_of_index? index] at part
            rwa [find]
        | null => cases below
        | bool value => cases below
        | number mantissa places => cases below
        | string value => cases below
  · exact List.nil_sublist _

/-- Parts of a list without repetitions that have the same members are the same. -/
theorem eq_of_sublist_of_mem_iff {α : Type} [DecidableEq α] {first second items : List α}
    (distinct : items.Nodup) (part : first.Sublist items) (other : second.Sublist items)
    (same : ∀ item, item ∈ first ↔ item ∈ second) : first = second := by
  have whole : ∀ {some : List α}, some.Sublist items →
      some = items.filter fun item => decide (item ∈ some) := by
    intro some part
    have inside : some.Sublist (items.filter fun item => decide (item ∈ some)) := by
      conv => lhs; rw [← List.filter_eq_self (l := some) (p := fun item => decide (item ∈ some)).2
        fun item member => decide_eq_true member]
      exact part.filter _
    refine inside.eq_of_length (List.Perm.length_eq ?_)
    refine (List.perm_ext_iff_of_nodup (distinct.sublist part) (distinct.filter _)).2 fun item => ?_
    simpa using fun member => part.subset member
  rw [whole part, whole other]
  exact List.filter_congr fun item _ => by rw [decide_eq_decide, same]

/-- Documents in which a search lists the same positions are the same to searches below any
position. -/
theorem findBelow_congr {first second : Document} (keyed : Keyed first) (keyed' : Keyed second)
    (named : Pointer.index? key = none)
    (stopNamed : ∀ name, stop = some name → Pointer.index? name = none)
    (same : first.find key none = second.find key none) (base : Pointer) :
    first.findBelow key base stop = second.findBelow key base stop := by
  have leads (front : Pointer) : (first.at? (front ++ [key])).isSome ↔
      (second.at? (front ++ [key])).isSome := by
    have listed := @mem_find_iff first keyed key none named (by simp) front
    have listed' := @mem_find_iff second keyed' key none named (by simp) front
    simp only [reduceCtorEq, ne_eq, not_false_eq_true, implies_true, true_and] at listed listed'
    rw [← listed, ← listed', same]
  have alike {document other : Document} (here : Keyed document) (there : Keyed other)
      (leads : ∀ front, (document.at? (front ++ [key])).isSome → (other.at? (front ++ [key])).isSome)
      (pointer : Pointer) (listed : pointer ∈ document.findBelow key base stop) :
      pointer ∈ other.findBelow key base stop := by
    obtain ⟨front, rfl⟩ := exists_front_of_mem_findBelow listed
    obtain ⟨shape, some⟩ := (mem_findBelow_iff here named stopNamed).1 listed
    exact (mem_findBelow_iff there named stopNamed).2 ⟨shape, leads front some⟩
  refine eq_of_sublist_of_mem_iff (nodup_find keyed) (findBelow_sublist keyed base) ?_
    fun pointer => ⟨alike keyed keyed' (fun front => (leads front).1) pointer,
      alike keyed' keyed (fun front => (leads front).2) pointer⟩
  rw [same]
  exact findBelow_sublist keyed' base

/-! ## Changes -/

/-- A search lists what it listed where the changed field lists what it listed. -/
theorem find_changeField {fields : Fields} (distinct : (fields.map Prod.fst).Nodup)
    {step : String} {value : Document} {change : Document → Document}
    (found : Fields.get? fields step = some value)
    (same : find key stop (change value) = find key stop value) :
    find key stop (.object (changeField step change fields)) = find key stop (.object fields) := by
  rw [find_object, find_object, changeField, List.flatMap_map, List.flatMap_def, List.flatMap_def]
  congr 1
  refine List.map_congr_left fun field here => ?_
  split
  · rename_i there
    have old := Fields.get?_eq_some_of_mem distinct here
    rw [beq_iff_eq.1 there, found] at old
    rw [findInField, findInField, ← Option.some.inj old, same]
  · rfl

theorem findInItems_modify {items : List Document} {i : Nat} {value : Document}
    {change : Document → Document} (found : items[i]? = some value)
    (same : find key stop (change value) = find key stop value) (start : Nat) :
    findInItems key stop start (items.modify i change) = findInItems key stop start items := by
  induction items generalizing i start with
  | nil => cases found
  | cons item rest ih =>
      cases i with
      | zero =>
          cases found
          rw [List.modify_zero_cons, findInItems, same, findInItems]
      | succ i => rw [List.modify_succ_cons, findInItems, ih found, findInItems]

theorem findInItems_map {items : List Document} {change : Document → Document}
    (same : ∀ item ∈ items, find key stop (change item) = find key stop item) (start : Nat) :
    findInItems key stop start (items.map change) = findInItems key stop start items := by
  induction items generalizing start with
  | nil => rfl
  | cons item rest ih =>
      obtain ⟨here, later⟩ := List.forall_mem_cons.1 same
      rw [List.map_cons, findInItems, here, ih later, findInItems]

/-- A search lists what it listed where it does so at a changed position. -/
theorem find_changeAt {document found : Document} (keyed : Keyed document) {pointer : Pointer}
    (leads : document.at? pointer = some found) {change : Document → Document}
    (same : find key stop (change found) = find key stop found) :
    find key stop (changeAt change pointer document) = find key stop document := by
  induction pointer generalizing document with
  | nil =>
      cases leads
      exact same
  | cons step rest ih =>
      obtain ⟨child, here, below⟩ := Option.bind_eq_some_iff.1 leads
      have inner := ih (keyed.child? here) below
      cases keyed with
      | object distinct _ => exact find_changeField distinct here inner
      | array _ =>
          obtain ⟨i, index, item⟩ := Option.bind_eq_some_iff.1 here
          simp only [changeAt, index, find]
          exact findInItems_modify item inner 0
      | null => cases here
      | bool value => cases here
      | number mantissa places => cases here
      | string value => cases here

end Document
end SemanticLayer
