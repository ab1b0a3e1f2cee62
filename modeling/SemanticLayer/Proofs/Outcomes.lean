import SemanticLayer.Error
import Mathlib.Data.List.Forall2

/-!
# Runs that succeed

What the success of a sequence of steps says about each step, and what every step keeps a whole run
keeps.
-/

namespace SemanticLayer.Result

variable {ε α β : Type}

theorem bind_eq_ok {first : Except ε α} {next : α → Except ε β} {result : β} :
    first >>= next = .ok result ↔ ∃ value, first = .ok value ∧ next value = .ok result := by
  cases first with
  | ok value => simp [bind, Except.bind]
  | error failure => simp [bind, Except.bind]

/-- After a step that succeeds comes what is done with its result. -/
theorem bind_of_ok {first : Except ε α} {value : α} (done : first = .ok value)
    (next : α → Except ε β) : first >>= next = next value := by
  rw [done]
  rfl

/-- After a step that fails nothing comes. -/
theorem bind_of_error {first : Except ε α} {failure : ε} (failed : first = .error failure)
    (next : α → Except ε β) : first >>= next = .error failure := by
  rw [failed]
  rfl

theorem pure_eq_ok {value result : α} :
    (pure value : Except ε α) = .ok result ↔ value = result := by
  simp [pure, Except.pure]

theorem map_eq_ok {change : α → β} {first : Except ε α} {result : β} :
    change <$> first = .ok result ↔ ∃ value, first = .ok value ∧ change value = result := by
  cases first with
  | ok value => simp [Functor.map, Except.map]
  | error failure => simp [Functor.map, Except.map]

/-- A run that succeeds gives its result. -/
theorem eq_ok_getD {result : Result α} (other : α) (done : result.toOption.isSome = true) :
    result = .ok (result.toOption.getD other) := by
  cases result with
  | ok value => rfl
  | error failure => cases done

theorem eq_ok_of_toOption {result : Result α} {value : α}
    (done : result.toOption = some value) : result = .ok value := by
  cases result with
  | ok other => exact congrArg Except.ok (Option.some.inj done)
  | error failure => cases done

theorem exists_eq_ok {result : Result α} (done : result.toOption.isSome = true) :
    ∃ value, result = .ok value := by
  cases result with
  | ok value => exact ⟨value, rfl⟩
  | error failure => cases done

/-- The failure of a run, if it fails. -/
def failure? : Result α → Option Error
  | .ok _ => none
  | .error failure => some failure

theorem eq_error_of_failure? {result : Result α} {failure : Error}
    (failed : failure? result = some failure) : result = .error failure := by
  cases result with
  | ok value => cases failed
  | error other => exact congrArg Except.error (Option.some.inj failed)

/-- A run over several items succeeds if each of them does. -/
theorem mapM_eq_ok_iff {step : α → Except ε β} {items : List α} {results : List β} :
    items.mapM step = .ok results ↔
      List.Forall₂ (fun item result => step item = .ok result) items results := by
  induction items generalizing results with
  | nil =>
      rw [List.mapM_nil, pure_eq_ok]
      constructor
      · rintro rfl
        exact .nil
      · intro none
        cases none
        rfl
  | cons item items ih =>
      rw [List.mapM_cons, bind_eq_ok]
      constructor
      · rintro ⟨first, done, others⟩
        obtain ⟨rest, later, whole⟩ := bind_eq_ok.1 others
        cases pure_eq_ok.1 whole
        exact .cons done (ih.1 later)
      · intro each
        cases each with
        | cons done later => exact ⟨_, done, bind_eq_ok.2 ⟨_, ih.2 later, rfl⟩⟩

/-- A run over items each of which succeeds has results. -/
theorem exists_mapM {step : α → Except ε β} {items : List α}
    (each : ∀ item ∈ items, ∃ result, step item = .ok result) :
    ∃ results, items.mapM step = .ok results := by
  induction items with
  | nil => exact ⟨[], rfl⟩
  | cons item items ih =>
      rw [List.forall_mem_cons] at each
      obtain ⟨first, done⟩ := each.1
      obtain ⟨rest, others⟩ := ih each.2
      refine ⟨first :: rest, ?_⟩
      rw [List.mapM_cons, bind_of_ok done, bind_of_ok others]
      rfl

/-- Steps that give what some steps gave make the same run. -/
theorem mapM_of_agree {step other : α → Except ε β} {items : List α} {results : List β}
    (agree : ∀ item ∈ items, ∀ result, step item = .ok result → other item = .ok result)
    (done : items.mapM step = .ok results) : items.mapM other = .ok results := by
  rw [mapM_eq_ok_iff] at done ⊢
  induction done with
  | nil => exact .nil
  | cons here _ ih =>
      refine .cons (agree _ List.mem_cons_self _ here) (ih fun item member => ?_)
      exact agree item (List.mem_cons_of_mem _ member)

/-- Runs whose steps agree on every item have the same results. -/
theorem mapM_congr {m : Type → Type} [Monad m] [LawfulMonad m] {step other : α → m β}
    {items : List α}
    (same : ∀ item ∈ items, step item = other item) : items.mapM step = items.mapM other := by
  induction items with
  | nil => rfl
  | cons item rest ih =>
      rw [List.forall_mem_cons] at same
      rw [List.mapM_cons, List.mapM_cons, same.1, ih same.2]

/-- What comes after a run over items may count on as many results. -/
theorem mapM_bind_congr {m : Type → Type} [Monad m] [LawfulMonad m] {γ : Type} {step : α → m β}
    {next other : List β → m γ} {items : List α}
    (same : ∀ results, results.length = items.length → next results = other results) :
    items.mapM step >>= next = items.mapM step >>= other := by
  induction items generalizing next other with
  | nil => simpa using same [] rfl
  | cons item rest ih =>
      simp only [List.mapM_cons, bind_assoc, pure_bind]
      refine bind_congr fun first => ih fun others size => same (first :: others) ?_
      rw [List.length_cons, List.length_cons, size]

/-- What comes after a run over an optional item may count on a result just if there is an item. -/
theorem optionMapM_bind_congr {m : Type → Type} [Monad m] [LawfulMonad m] {γ : Type}
    {step : α → m β} {next other : Option β → m γ} {item? : Option α}
    (same : ∀ result?, result?.toList.length = item?.toList.length → next result? = other result?) :
    item?.mapM step >>= next = item?.mapM step >>= other := by
  cases item? with
  | none => simpa using same none rfl
  | some item =>
      simp only [Option.mapM_some, bind_map_left]
      exact bind_congr fun result => same (some result) rfl

/-- What items one after the other are related to stands one after the other. -/
theorem exists_append_of_forall₂ {related : α → β → Prop} {first second : List α} {others : List β}
    (each : List.Forall₂ related (first ++ second) others) :
    ∃ before after, others = before ++ after ∧ List.Forall₂ related first before ∧
      List.Forall₂ related second after := by
  induction first generalizing others with
  | nil => exact ⟨[], others, rfl, .nil, each⟩
  | cons item rest ih =>
      cases each with
      | cons here later =>
          obtain ⟨before, after, rfl, left, right⟩ := ih later
          exact ⟨_ :: before, after, rfl, .cons here left, right⟩

/-- Steps with the same results agree on every item. -/
theorem eq_of_forall₂ {step other : α → Except ε β} {items : List α} {results : List β}
    (first : List.Forall₂ (fun item result => step item = .ok result) items results)
    (second : List.Forall₂ (fun item result => other item = .ok result) items results) {item : α}
    (member : item ∈ items) : step item = other item := by
  induction first with
  | nil => cases member
  | cons here _ ih =>
      cases second with
      | cons there later =>
          rcases List.mem_cons.1 member with rfl | inside
          · exact here.trans there.symm
          · exact ih later inside

/-- Every result comes from one of the items. -/
theorem exists_of_forall₂ {related : α → β → Prop} {items : List α} {results : List β} {result : β}
    (each : List.Forall₂ related items results) (member : result ∈ results) :
    ∃ item ∈ items, related item result := by
  induction each with
  | nil => cases member
  | cons here _ ih =>
      rcases List.mem_cons.1 member with rfl | later
      · exact ⟨_, List.mem_cons_self, here⟩
      · obtain ⟨item, there, holds⟩ := ih later
        exact ⟨item, List.mem_cons_of_mem _ there, holds⟩

/-- Every item has one of the results. -/
theorem exists_result_of_forall₂ {related : α → β → Prop} {items : List α} {results : List β}
    {item : α} (each : List.Forall₂ related items results) (member : item ∈ items) :
    ∃ result ∈ results, related item result :=
  exists_of_forall₂ (each.flip : List.Forall₂ (flip related) results items) member

/-- What each step keeps, a run keeps. -/
theorem foldlM_induction {step : β → α → Except ε β} (kept : β → Prop) {items : List α}
    {start final : β} (holds : kept start)
    (keeps : ∀ item ∈ items, ∀ before after, kept before → step before item = .ok after →
      kept after)
    (done : items.foldlM step start = .ok final) : kept final := by
  induction items generalizing start with
  | nil =>
      cases pure_eq_ok.1 done
      exact holds
  | cons item items ih =>
      rw [List.foldlM_cons, bind_eq_ok] at done
      obtain ⟨next, first, later⟩ := done
      apply ih (keeps item List.mem_cons_self start next holds first) _ later
      intro other member
      exact keeps other (List.mem_cons_of_mem item member)

/-- Where a run succeeds each of its steps does. -/
theorem exists_step_of_foldlM {step : β → α → Except ε β} {items : List α} {start final : β}
    (done : items.foldlM step start = .ok final) {item : α} (member : item ∈ items) :
    ∃ before after, step before item = .ok after := by
  induction items generalizing start with
  | nil => cases member
  | cons first items ih =>
      rw [List.foldlM_cons, bind_eq_ok] at done
      obtain ⟨next, here, later⟩ := done
      rcases List.mem_cons.1 member with rfl | member
      · exact ⟨start, next, here⟩
      · exact ih later member

/-- A run of which every step succeeds from every state succeeds. -/
theorem foldlM_ok {items : List α} {step : β → α → Except ε β}
    (each : ∀ item ∈ items, ∀ state, ∃ next, step state item = .ok next) (start : β) :
    ∃ final, items.foldlM step start = .ok final := by
  induction items generalizing start with
  | nil => exact ⟨start, rfl⟩
  | cons item rest ih =>
      obtain ⟨next, done⟩ := each item List.mem_cons_self start
      rw [List.foldlM_cons, bind_of_ok done]
      exact ih (fun later member => each later (List.mem_cons_of_mem item member)) next

/-- Runs whose steps agree on every item agree. -/
theorem foldlM_congr {step other : β → α → Except ε β} {items : List α}
    (same : ∀ item ∈ items, ∀ state, step state item = other state item) (start : β) :
    items.foldlM step start = items.foldlM other start := by
  induction items generalizing start with
  | nil => rfl
  | cons item rest ih =>
      rw [List.foldlM_cons, List.foldlM_cons, same item List.mem_cons_self]
      congr 1
      funext next
      exact ih (fun later member => same later (List.mem_cons_of_mem item member)) next

/-! ## Two runs side by side -/

/-- Two runs that fail alike, or give results that are related. -/
inductive Alongside {α β : Type} (related : α → β → Prop) : Result α → Result β → Prop
  | ok {value : α} {other : β} (here : related value other) :
      Alongside related (.ok value) (.ok other)
  | error (failure : Error) : Alongside related (.error failure) (.error failure)

namespace Alongside

variable {γ δ : Type} {related : α → β → Prop} {next : γ → δ → Prop}

theorem of_eq {run other : Result α} (same : run = other) : Alongside Eq run other := by
  subst same
  cases run with
  | ok value => exact .ok rfl
  | error failure => exact .error failure

theorem bind {run : Result α} {other : Result β} {step : α → Result γ} {step' : β → Result δ}
    (first : Alongside related run other)
    (later : ∀ value value', related value value' → Alongside next (step value) (step' value')) :
    Alongside next (run >>= step) (other >>= step') := by
  cases first with
  | ok here => exact later _ _ here
  | error failure => exact .error failure

/-- What runs side by side give is what they give. -/
theorem along {run : Result α} {other : Result β} (first : Alongside related run other) :
    Alongside (fun value value' => run = .ok value ∧ related value value') run other := by
  cases first with
  | ok here => exact .ok ⟨rfl, here⟩
  | error failure => exact .error failure

/-- Runs that are continued in the same way from related results are the same. -/
theorem bind_eq {run : Result α} {other : Result β} {step : α → Result γ} {step' : β → Result γ}
    (first : Alongside related run other)
    (later : ∀ value value', related value value' → step value = step' value') :
    (run >>= step) = (other >>= step') := by
  cases first with
  | ok here => exact later _ _ here
  | error failure => rfl

/-- Steps that go side by side make runs that go side by side. -/
theorem foldlM {items : List γ} {others : List δ} {step : α → γ → Result α}
    {step' : β → δ → Result β}
    (each : ∀ state state' item other, related state state' → next item other →
      Alongside related (step state item) (step' state' other))
    (alike : List.Forall₂ next items others) {start : α} {start' : β}
    (begins : related start start') :
    Alongside related (items.foldlM step start) (others.foldlM step' start') := by
  induction alike generalizing start start' with
  | nil => exact .ok begins
  | cons here _ ih =>
      rw [List.foldlM_cons, List.foldlM_cons]
      exact (each _ _ _ _ begins here).bind fun _ _ reached => ih reached

/-- Steps that go side by side on every item make runs over the same items that do. -/
theorem foldlM_same {step : α → γ → Result α} {step' : β → γ → Result β}
    (each : ∀ state state' item, related state state' →
      Alongside related (step state item) (step' state' item))
    (items : List γ) {start : α} {start' : β} (begins : related start start') :
    Alongside related (items.foldlM step start) (items.foldlM step' start') := by
  refine foldlM (fun state state' item other reached (same : item = other) => ?_)
    (List.forall₂_same.2 fun _ _ => rfl) begins
  subst same
  exact each state state' item reached

end Alongside

end SemanticLayer.Result
