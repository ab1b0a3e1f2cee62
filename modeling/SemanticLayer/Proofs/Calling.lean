import Mathlib.Data.List.Chain
import SemanticLayer.Sql.Select
import SemanticLayer.Proofs.Outcomes

/-!
# Computations that make calls

A function that calls others is told by the calls it makes and by what it does with each answer, not
by where the answers come from. Functions that call each other are a body for each call. Such a call
returns if its body does, after finitely many further calls; nothing bounds how deep these nest.
-/

namespace SemanticLayer

/-- A computation that is over, or that makes a call and goes on with the answer. It ends with the
failure of a call that fails. -/
inductive Calling (Call : Type) (Answer : Call → Type) (α : Type) : Type where
  | finished (result : Result α)
  | call (target : Call) (next : Answer target → Calling Call Answer α)

namespace Calling

variable {Call : Type} {Answer : Call → Type} {α β γ : Type}

/-- A computation and what comes after it, unless it fails. -/
def andThen : Calling Call Answer α → (α → Calling Call Answer β) → Calling Call Answer β
  | finished (.ok value), next => next value
  | finished (.error failure), _ => finished (.error failure)
  | call target rest, next => call target fun answer => (rest answer).andThen next

instance : Monad (Calling Call Answer) where
  pure value := finished (.ok value)
  bind := andThen

/-- A call for its answer. -/
def make (target : Call) : Calling Call Answer (Answer target) :=
  call target fun answer => finished (.ok answer)

theorem andThen_pure (run : Calling Call Answer α) :
    run.andThen (fun value => finished (.ok value)) = run := by
  induction run with
  | finished result => cases result <;> rfl
  | call target rest ih => exact congrArg (call target) (funext ih)

theorem andThen_assoc (run : Calling Call Answer α) (next : α → Calling Call Answer β)
    (last : β → Calling Call Answer γ) :
    (run.andThen next).andThen last = run.andThen fun value => (next value).andThen last := by
  induction run with
  | finished result => cases result <;> rfl
  | call target rest ih => exact congrArg (call target) (funext ih)

instance : LawfulMonad (Calling Call Answer) :=
  LawfulMonad.mk' (Calling Call Answer) andThen_pure (fun _ _ => rfl) andThen_assoc

/-! ## Calls that are made -/

/-- Whether a computation makes a call, for some answers to those before it. -/
inductive Makes (target : Call) : Calling Call Answer α → Prop where
  | now (next : Answer target → Calling Call Answer α) : Makes target (call target next)
  | later {other : Call} {next : Answer other → Calling Call Answer α} (answer : Answer other)
      (makes : Makes target (next answer)) : Makes target (call other next)

variable {target other : Call}

theorem not_makes_finished {result : Result α} :
    ¬ Makes target (finished result : Calling Call Answer α) :=
  nofun

theorem not_makes_pure {value : α} : ¬ Makes target (pure value : Calling Call Answer α) :=
  not_makes_finished

theorem Makes.eq_of_make (makes : Makes target (make other : Calling Call Answer (Answer other))) :
    target = other := by
  cases makes with
  | now => rfl
  | later answer makes => exact absurd makes not_makes_finished

/-- A call is made before what comes after, or there. -/
theorem Makes.of_bind {run : Calling Call Answer α} {next : α → Calling Call Answer β}
    (makes : Makes target (run >>= next)) : Makes target run ∨ ∃ value, Makes target (next value) := by
  change Makes target (run.andThen next) at makes
  induction run with
  | finished result =>
      cases result with
      | ok value => exact .inr ⟨value, makes⟩
      | error failure => exact absurd makes not_makes_finished
  | call first rest ih =>
      cases makes with
      | now => exact .inl (.now rest)
      | later answer makes => exact (ih answer makes).imp_left (.later answer)

theorem Makes.of_mapM {items : List α} {step : α → Calling Call Answer β}
    (makes : Makes target (items.mapM step)) : ∃ item ∈ items, Makes target (step item) := by
  induction items with
  | nil => exact absurd makes not_makes_finished
  | cons item items ih =>
      rw [List.mapM_cons] at makes
      rcases makes.of_bind with here | ⟨_, later⟩
      · exact ⟨item, List.mem_cons_self, here⟩
      · rcases later.of_bind with there | ⟨_, none⟩
        · obtain ⟨other, member, found⟩ := ih there
          exact ⟨other, List.mem_cons_of_mem item member, found⟩
        · exact absurd none not_makes_finished

theorem Makes.of_foldlM {items : List α} {step : β → α → Calling Call Answer β} {start : β}
    (makes : Makes target (items.foldlM step start)) :
    ∃ item ∈ items, ∃ state, Makes target (step state item) := by
  induction items generalizing start with
  | nil => exact absurd makes not_makes_finished
  | cons item items ih =>
      rw [List.foldlM_cons] at makes
      rcases makes.of_bind with here | ⟨_, later⟩
      · exact ⟨item, List.mem_cons_self, start, here⟩
      · obtain ⟨other, member, found⟩ := ih later
        exact ⟨other, List.mem_cons_of_mem item member, found⟩

/-! ## Answers -/

/-- A computation whose calls are answered. -/
def answered (answer : (target : Call) → Result (Answer target)) : Calling Call Answer α → Result α
  | finished result => result
  | call target next => answer target >>= fun value => (next value).answered answer

variable {answer : (target : Call) → Result (Answer target)}

theorem answered_make (target : Call) :
    (make target : Calling Call Answer (Answer target)).answered answer = answer target :=
  bind_pure (answer target)

theorem answered_bind (run : Calling Call Answer α) (next : α → Calling Call Answer β) :
    (run >>= next).answered answer =
      run.answered answer >>= fun value => (next value).answered answer := by
  change (run.andThen next).answered answer = _
  induction run with
  | finished result => cases result <;> rfl
  | call target rest ih =>
      rw [andThen, answered, answered, bind_assoc]
      exact bind_congr ih

theorem answered_mapM (items : List α) (step : α → Calling Call Answer β) :
    (items.mapM step).answered answer = items.mapM fun item => (step item).answered answer := by
  induction items with
  | nil => rfl
  | cons item items ih =>
      rw [List.mapM_cons, List.mapM_cons, answered_bind]
      refine bind_congr fun first => ?_
      rw [answered_bind, ih]
      rfl

theorem answered_foldlM (items : List α) (step : β → α → Calling Call Answer β) (start : β) :
    (items.foldlM step start).answered answer =
      items.foldlM (fun state item => (step state item).answered answer) start := by
  induction items generalizing start with
  | nil => rfl
  | cons item items ih =>
      rw [List.foldlM_cons, List.foldlM_cons, answered_bind]
      exact bind_congr ih

/-! ## Calls that return -/

variable {body : (target : Call) → Calling Call Answer (Answer target)}

/-- A computation ends with a result, where each call is made by running the body of its own. -/
inductive Ends (body : (target : Call) → Calling Call Answer (Answer target)) :
    {α : Type} → Calling Call Answer α → Result α → Prop where
  | finished {α : Type} (result : Result α) : Ends body (finished result) result
  | failed {α : Type} {target : Call} {next : Answer target → Calling Call Answer α} {failure : Error}
      (fails : Ends body (body target) (.error failure)) : Ends body (call target next) (.error failure)
  | answered {α : Type} {target : Call} {next : Answer target → Calling Call Answer α} {value : Answer target}
      {result : Result α} (returns : Ends body (body target) (.ok value))
      (ends : Ends body (next value) result) : Ends body (call target next) result

/-- A call returns a result. -/
abbrev Returns (body : (target : Call) → Calling Call Answer (Answer target)) (target : Call)
    (result : Result (Answer target)) : Prop :=
  Ends body (body target) result

/-- A computation ends with one result at most. -/
theorem Ends.unique {run : Calling Call Answer α} {result others : Result α}
    (ends : Ends body run result) (endsToo : Ends body run others) : result = others := by
  induction ends with
  | finished result =>
      cases endsToo
      rfl
  | failed fails ih =>
      cases endsToo with
      | failed failsToo => exact congrArg _ (Except.error.inj (ih failsToo))
      | answered returns _ => cases ih returns
  | answered returns _ ih later =>
      cases endsToo with
      | failed fails => cases ih fails
      | answered returnsToo endsToo =>
          cases ih returnsToo
          exact later endsToo

/-- A computation ends as its calls are answered if each call that it makes returns that answer. -/
theorem ends_of_makes (run : Calling Call Answer α)
    (each : ∀ target, Makes target run → Returns body target (answer target)) :
    Ends body run (run.answered answer) := by
  induction run with
  | finished result => exact .finished result
  | call target next ih =>
      have returns := each target (.now next)
      rw [Calling.answered]
      cases known : answer target with
      | error failure => exact .failed (known ▸ returns)
      | ok value =>
          exact .answered (known ▸ returns) (ih value fun other makes => each other (.later value makes))

/-- A call returns its answer if its body is answered so, and each call made there returns its own
answer. -/
theorem returns_of_makes (solves : (body target).answered answer = answer target)
    (each : ∀ other, Makes other (body target) → Returns body other (answer other)) :
    Returns body target (answer target) :=
  solves ▸ ends_of_makes (body target) each

/-! ## Chains of calls -/

/-- Calls each of which is made by the one before it. -/
abbrev Chain (body : (target : Call) → Calling Call Answer (Answer target)) (calls : List Call) : Prop :=
  calls.IsChain fun target other => Makes other (body target)

/-- Labels of some of the calls of a chain follow each other, if those that come next below a call
do. -/
theorem isChain_labels {Label : Type} {label : Call → Option Label} {below : Call → Label → Prop}
    {follows : Label → Label → Prop}
    (here : ∀ caller other name, Makes other (body caller) → label other = some name →
      below caller name)
    (there : ∀ caller other name, Makes other (body caller) → label other = none →
      below other name → below caller name)
    (enters : ∀ caller name next, label caller = some name → below caller next → follows name next)
    {target : Call} {calls : List Call} (chain : Chain body (target :: calls)) :
    ((target :: calls).filterMap label).IsChain follows ∧
      ∀ name ∈ (calls.filterMap label).head?, below target name := by
  have extend : ∀ {target calls}, (calls.filterMap label).IsChain follows →
      (∀ name ∈ (calls.filterMap label).head?, below target name) →
        ((target :: calls).filterMap label).IsChain follows := by
    intro target calls inOrder first
    cases labelled : label target with
    | none =>
        rw [List.filterMap_cons_none labelled]
        exact inOrder
    | some name =>
        rw [List.filterMap_cons_some labelled, List.isChain_cons]
        exact ⟨fun next isFirst => enters target name next labelled (first next isFirst), inOrder⟩
  induction calls generalizing target with
  | nil => exact ⟨extend .nil nofun, nofun⟩
  | cons other calls ih =>
      obtain ⟨makes, rest⟩ := List.isChain_cons_cons.1 chain
      obtain ⟨inOrder, first⟩ := ih rest
      have next : ∀ name ∈ ((other :: calls).filterMap label).head?, below target name := by
        intro name isFirst
        cases labelled : label other with
        | none =>
            rw [List.filterMap_cons_none labelled] at isFirst
            exact there target other name makes labelled (first name isFirst)
        | some called =>
            rw [List.filterMap_cons_some labelled] at isFirst
            cases isFirst
            exact here target other name makes labelled
      exact ⟨extend inOrder next, next⟩

end Calling

/-! ## Walks over relations -/

namespace Sql

open Calling

variable {Call : Type} {Answer : Call → Type} {target : Call}
  {change : Relation → Calling Call Answer Relation}

theorem Source.answered_mapRelationsM {answer : (target : Call) → Result (Answer target)} (source : Source) :
    (source.mapRelationsM change).answered answer =
      source.mapRelationsM fun relation => (change relation).answered answer := by
  simp only [mapRelationsM, answered_bind, answered_mapM]
  rfl

theorem Select.answered_mapRelationsM {answer : (target : Call) → Result (Answer target)} (select : Select) :
    (select.mapRelationsM change).answered answer =
      select.mapRelationsM fun relation => (change relation).answered answer := by
  rw [mapRelationsM, mapRelationsM]
  cases select.sources with
  | none => rfl
  | some sources =>
      simp only [answered_bind, answered_mapM, Source.answered_mapRelationsM]
      rfl

/-- A walk over the relations of FROM makes the calls that the changes make. -/
theorem Select.exists_of_makes {select : Select} (makes : Makes target (select.mapRelationsM change)) :
    ∃ relation, Makes target (change relation) := by
  rw [mapRelationsM] at makes
  split at makes
  · exact absurd makes not_makes_pure
  · rcases makes.of_bind with inside | ⟨_, none⟩
    · obtain ⟨source, _, within⟩ := inside.of_mapM
      rcases within.of_bind with primary | ⟨_, rest⟩
      · exact ⟨_, primary⟩
      · rcases rest.of_bind with joined | ⟨_, none⟩
        · obtain ⟨join, _, changed⟩ := joined.of_mapM
          rcases changed.of_bind with relation | ⟨_, none⟩
          · exact ⟨_, relation⟩
          · exact absurd none not_makes_pure
        · exact absurd none not_makes_pure
    · exact absurd none not_makes_pure

end Sql
end SemanticLayer
