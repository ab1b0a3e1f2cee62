import SemanticLayer.Proofs.Trails

/-!
# What repetitions change

An item that comes again in a list makes no difference to what takes the list for a set, nor to what
leaves out more and more of what it has. A search in breadth from nodes that are repeated finds the
same paths, since all that a node links to was seen when it comes again.
-/

namespace SemanticLayer

/-! ## Trimmed lists -/

/-- A list and what is kept of it if items may be left out that were met before, in it or in front
of it. -/
inductive Trimmed {α : Type} : List α → List α → List α → Prop
  | nil (met : List α) : Trimmed met [] []
  | keep {met items kept : List α} {item : α} (later : Trimmed (item :: met) items kept) :
      Trimmed met (item :: items) (item :: kept)
  | drop {met items kept : List α} {item : α} (again : item ∈ met)
      (later : Trimmed met items kept) : Trimmed met (item :: items) kept

namespace Trimmed

variable {α β : Type} {met items kept : List α}

theorem refl (met items : List α) : Trimmed met items items := by
  induction items generalizing met with
  | nil => exact .nil met
  | cons item rest ih => exact .keep (ih (item :: met))

theorem sublist (trimmed : Trimmed met items kept) : kept.Sublist items := by
  induction trimmed with
  | nil => exact .slnil
  | keep _ ih => exact ih.cons_cons _
  | drop _ _ ih => exact ih.cons _

theorem mem_or (trimmed : Trimmed met items kept) {item : α} (member : item ∈ items) :
    item ∈ met ∨ item ∈ kept := by
  induction trimmed with
  | nil => cases member
  | keep _ ih =>
      rcases List.mem_cons.1 member with rfl | later
      · exact .inr List.mem_cons_self
      · rcases ih later with before | after
        · exact (List.mem_cons.1 before).symm.imp_right fun same => List.mem_cons.2 (.inl same)
        · exact .inr (List.mem_cons_of_mem _ after)
  | drop again _ ih =>
      rcases List.mem_cons.1 member with rfl | later
      · exact .inl again
      · exact ih later

/-- A list that nothing is in front of has the items that are kept of it. -/
theorem mem_iff (trimmed : Trimmed [] items kept) {item : α} : item ∈ items ↔ item ∈ kept :=
  ⟨fun member => (trimmed.mem_or member).resolve_left List.not_mem_nil,
    fun member => trimmed.sublist.subset member⟩

theorem append (trimmed : Trimmed met items kept) (more : List α) :
    Trimmed met (items ++ more) (kept ++ more) := by
  induction trimmed with
  | nil met => exact refl met more
  | keep _ ih => exact .keep ih
  | drop again _ ih => exact .drop again ih

theorem filterMap (change : α → Option β) (trimmed : Trimmed met items kept) :
    Trimmed (met.filterMap change) (items.filterMap change) (kept.filterMap change) := by
  induction trimmed with
  | nil => exact .nil _
  | @keep met items kept item _ ih =>
      cases changed : change item with
      | none => simpa only [List.filterMap_cons_none changed] using ih
      | some result =>
          simp only [List.filterMap_cons_some changed] at ih ⊢
          exact .keep ih
  | @drop met items kept item again _ ih =>
      cases changed : change item with
      | none => simpa only [List.filterMap_cons_none changed] using ih
      | some result =>
          rw [List.filterMap_cons_some changed]
          exact .drop (List.mem_filterMap.2 ⟨item, again, changed⟩) ih

theorem find?_eq {test : α → Bool} (trimmed : Trimmed met items kept)
    (unlike : ∀ item ∈ met, test item = false) : items.find? test = kept.find? test := by
  induction trimmed with
  | nil => rfl
  | @keep met items kept item _ ih =>
      cases is : test item with
      | true => rw [List.find?_cons_of_pos is, List.find?_cons_of_pos is]
      | false =>
          rw [List.find?_cons_of_neg (by simp [is]), List.find?_cons_of_neg (by simp [is])]
          exact ih (List.forall_mem_cons.2 ⟨is, unlike⟩)
  | drop again _ ih =>
      rw [List.find?_cons_of_neg (by simp [unlike _ again])]
      exact ih unlike

/-- What is made of items that occur once is made of those that are kept. -/
theorem filterMap_eq [DecidableEq α] {change : α → Option β} (trimmed : Trimmed met items kept)
    (rare : ∀ item, (change item).isSome → (met ++ items).count item ≤ 1) :
    items.filterMap change = kept.filterMap change := by
  induction trimmed with
  | nil => rfl
  | @keep met items kept item _ ih =>
      have later := ih fun other some => by
        have once := rare other some
        simp only [List.count_append, List.count_cons] at once ⊢
        omega
      rw [List.filterMap_cons, List.filterMap_cons, later]
  | @drop met items kept item again _ ih =>
      have none : change item = none := by
        by_contra some
        have once := rare item (Option.isSome_iff_ne_none.2 some)
        have before := List.count_pos_iff.2 again
        rw [List.count_append, List.count_cons_self] at once
        omega
      rw [List.filterMap_cons_none none]
      refine ih fun other some => le_trans ?_ (rare other some)
      simp only [List.count_append, List.count_cons]
      omega

/-- A run is the run over what is kept if a step changes nothing when it is taken again, at once or
after other steps. -/
theorem foldlM_eq {ε : Type} {step : β → α → Except ε β}
    (settles : ∀ item state next, step state item = .ok next → step next item = .ok next)
    (stays : ∀ item other state next, step state item = .ok state → step state other = .ok next →
      step next item = .ok next)
    (trimmed : Trimmed met items kept) {start : β}
    (idle : ∀ item ∈ met, step start item = .ok start) :
    items.foldlM step start = kept.foldlM step start := by
  induction trimmed generalizing start with
  | nil => rfl
  | @keep met items kept item _ ih =>
      rw [List.foldlM_cons, List.foldlM_cons]
      cases taken : step start item with
      | error failure => rfl
      | ok next =>
          refine ih fun other before => ?_
          rcases List.mem_cons.1 before with rfl | before
          · exact settles other start next taken
          · exact stays other item start next (idle other before) taken
  | drop again _ ih =>
      rw [List.foldlM_cons, idle _ again]
      exact ih idle

end Trimmed

/-- Without later repetitions a list is trimmed. -/
theorem trimmed_eraseDups {α : Type} [DecidableEq α] (items : List α) :
    Trimmed [] items items.eraseDups := by
  have general (met : List α) :
      Trimmed met items (items.filter fun item => decide (item ∉ met)).eraseDups := by
    induction items generalizing met with
    | nil => exact .nil met
    | cons item rest ih =>
        by_cases again : item ∈ met
        · rw [List.filter_cons_of_neg (by simpa using again)]
          exact .drop again (ih met)
        · have later := ih (item :: met)
          rw [List.filter_cons_of_pos (by simpa using again), List.eraseDups_cons,
            List.filter_filter]
          convert Trimmed.keep later using 4
          funext other
          rw [Bool.eq_iff_iff]
          simp
  simpa using general []

/-- What narrows down a list by each item narrows it down by those that are kept. -/
theorem Trimmed.foldlM_filter {α β γ ε : Type} {met items kept : List α} {run : α → Except ε γ}
    {test : γ → β → Bool} (trimmed : Trimmed met items kept) {start : List β}
    (idle : ∀ item ∈ met, ∃ found, run item = .ok found ∧ start.filter (test found) = start) :
    items.foldlM (fun left item => do pure (left.filter (test (← run item)))) start =
      kept.foldlM (fun left item => do pure (left.filter (test (← run item)))) start := by
  refine trimmed.foldlM_eq ?_ ?_ fun item before => ?_
  · intro item state next done
    obtain ⟨found, known, narrowed⟩ := Result.bind_eq_ok.1 done
    cases Result.pure_eq_ok.1 narrowed
    rw [Result.bind_of_ok known, List.filter_filter]
    simp only [Bool.and_self]
    rfl
  · intro item other state next idle done
    obtain ⟨found, known, narrowed⟩ := Result.bind_eq_ok.1 idle
    obtain ⟨foundToo, _, narrowedToo⟩ := Result.bind_eq_ok.1 done
    cases Result.pure_eq_ok.1 narrowedToo
    rw [Result.bind_of_ok known, List.filter_comm, Result.pure_eq_ok.1 narrowed]
    rfl
  · obtain ⟨found, known, same⟩ := idle item before
    rw [Result.bind_of_ok known, same]
    rfl

namespace Catalog

variable {catalog : Catalog} {dimension : String} {node : Node} {path : List Hop}
  {columns : List NodeColumn} {frontier other : Frontier}

/-! ## Searches in breadth -/

/-- All that columns link to was seen. -/
def Spent (catalog : Catalog) (seen : List String) (columns : List NodeColumn) : Prop :=
  ∀ column ∈ columns, ∀ name ∈ column.dimension, (catalog.node? name).isSome → name ∈ seen

theorem Spent.mono {seen later : List String} (spent : catalog.Spent seen columns)
    (more : seen ⊆ later) : catalog.Spent later columns :=
  fun column member name links known => more (spent column member name links known)

theorem Spent.fresh?_eq (spent : catalog.Spent frontier.seen columns) {column : NodeColumn}
    (member : column ∈ columns) : catalog.fresh? frontier column = none := by
  refine Option.eq_none_iff_forall_ne_some.2 fun target found => ?_
  obtain ⟨links, known, new⟩ := fresh?_eq_some found
  exact new (spent column member target.name links (by rw [known]; rfl))

theorem expand_cons (column : NodeColumn) :
    expand catalog dimension node path (column :: columns) frontier =
      match catalog.fresh? frontier column with
      | none => expand catalog dimension node path columns frontier
      | some target =>
        let way := path ++ [.along node column target]
        if target.name = dimension then .inl way
        else
          expand catalog dimension node path columns
            { seen := target.name :: frontier.seen, queue := frontier.queue ++ [(target, way)] } := by
  rw [expand]
  rfl

/-- Columns all of whose links were seen add nothing. -/
theorem Spent.expand_eq (spent : catalog.Spent frontier.seen columns) :
    expand catalog dimension node path columns frontier = .inr frontier := by
  induction columns with
  | nil => rfl
  | cons column columns ih =>
      rw [expand_cons, spent.fresh?_eq List.mem_cons_self]
      exact ih fun column member => spent column (List.mem_cons_of_mem _ member)

theorem fresh?_congr (same : ∀ name, name ∈ frontier.seen ↔ name ∈ other.seen)
    (column : NodeColumn) : catalog.fresh? frontier column = catalog.fresh? other column := by
  simp only [fresh?, List.contains_eq_mem, same]

/-- What two searches find that have seen the same: the same way, or the same to be added to both
queues. All links were seen then. -/
inductive Together (catalog : Catalog) (columns : List NodeColumn) (frontier other : Frontier) :
    List Hop ⊕ Frontier → List Hop ⊕ Frontier → Prop
  | found (way : List Hop) : Together catalog columns frontier other (.inl way) (.inl way)
  | next {seen seenToo : List String} {added : List (Node × List Hop)}
      (same : ∀ name, name ∈ seen ↔ name ∈ seenToo) (more : frontier.seen ⊆ seen)
      (spent : catalog.Spent seen columns) :
      Together catalog columns frontier other (.inr { seen, queue := frontier.queue ++ added })
        (.inr { seen := seenToo, queue := other.queue ++ added })

theorem together_expand (same : ∀ name, name ∈ frontier.seen ↔ name ∈ other.seen) :
    Together catalog columns frontier other (expand catalog dimension node path columns frontier)
      (expand catalog dimension node path columns other) := by
  induction columns generalizing frontier other with
  | nil =>
      have stays : Together catalog [] frontier other
          (.inr { seen := frontier.seen, queue := frontier.queue ++ [] })
          (.inr { seen := other.seen, queue := other.queue ++ [] }) :=
        .next same (List.Subset.refl _) nofun
      rwa [List.append_nil, List.append_nil] at stays
  | cons column columns ih =>
      rw [expand_cons, expand_cons, ← fresh?_congr same]
      cases found : catalog.fresh? frontier column with
      | none =>
          have later := ih same
          revert later
          dsimp only
          generalize expand catalog dimension node path columns frontier = first
          generalize expand catalog dimension node path columns other = second
          rintro (way | ⟨same, more, spent⟩)
          · exact .found way
          · refine .next same more (List.forall_mem_cons.2 ⟨fun name links known => ?_, spent⟩)
            rw [fresh?, Option.mem_def.1 links, Option.bind_some] at found
            split at found
            next seen => exact more (by simpa using seen)
            next => simp [found] at known
      | some target =>
          obtain ⟨isDimension, -, -⟩ := fresh?_eq_some found
          dsimp only
          split
          · exact .found _
          · have sameNow : ∀ name, name ∈ target.name :: frontier.seen ↔
                name ∈ target.name :: other.seen := by
              simp only [List.mem_cons, same, implies_true]
            have later := @ih
              ⟨_, frontier.queue ++ [(target, path ++ [.along node column target])]⟩
              ⟨_, other.queue ++ [(target, path ++ [.along node column target])]⟩ sameNow
            revert later
            generalize expand catalog dimension node path columns _ = first
            generalize expand catalog dimension node path columns _ = second
            rintro (way | ⟨same, more, spent⟩)
            · exact .found way
            · rw [List.append_assoc, List.append_assoc]
              refine .next same (fun name seen => more (List.mem_cons_of_mem _ seen))
                (List.forall_mem_cons.2 ⟨fun name links _ => ?_, spent⟩)
              cases (Option.mem_def.1 links).symm.trans isDimension
              exact more List.mem_cons_self

/-- Two searches that have seen the same. Entries that are in the queue of the first one only repeat
such as were expanded, and all their links were seen. -/
structure Shortened (catalog : Catalog) (met : List (Node × List Hop)) (frontier other : Frontier) :
    Prop where
  seen : ∀ name, name ∈ frontier.seen ↔ name ∈ other.seen
  queue : Trimmed met frontier.queue other.queue
  spent : ∀ entry ∈ met, catalog.Spent frontier.seen entry.1.columns

/-- What the search with the shorter queue finds the other one finds, with one more step for each
entry that repeats another one. -/
theorem Shortened.searchPath {met : List (Node × List Hop)} {fuel steps : Nat} {way : List Hop}
    (shortened : Shortened catalog met frontier other)
    (enough : frontier.queue.length + fuel = other.queue.length + steps)
    (found : Catalog.searchPath catalog dimension fuel other = some way) :
    Catalog.searchPath catalog dimension steps frontier = some way := by
  induction steps generalizing frontier other met fuel with
  | zero =>
      have less := shortened.queue.sublist.length_le
      obtain rfl : fuel = 0 := by omega
      cases found
  | succ steps ih =>
      obtain ⟨seen, queue⟩ := frontier
      obtain ⟨seenToo, queueToo⟩ := other
      obtain ⟨same, trimmed, spent⟩ := shortened
      dsimp only at same trimmed spent enough
      cases trimmed with
      | nil => cases fuel <;> cases found
      | @keep _ items kept entry later =>
          cases fuel with
          | zero => cases found
          | succ fuel =>
              rw [Catalog.searchPath] at found ⊢
              have step : Together catalog entry.1.columns ⟨seen, items⟩ ⟨seenToo, kept⟩
                  (expand catalog dimension entry.1 entry.2 entry.1.columns ⟨seen, items⟩)
                  (expand catalog dimension entry.1 entry.2 entry.1.columns ⟨seenToo, kept⟩) :=
                together_expand same
              dsimp only at found step ⊢
              revert step found
              generalize expand catalog dimension entry.1 entry.2 entry.1.columns _ = first
              generalize expand catalog dimension entry.1 entry.2 entry.1.columns _ = second
              rintro found (way | @⟨seenNow, seenThere, added, sameNow, more, spentNow⟩)
              · exact found
              · refine ih ⟨sameNow, later.append added, List.forall_mem_cons.2
                  ⟨spentNow, fun entry before => (spent entry before).mono more⟩⟩ ?_ found
                simp only [List.length_cons, List.length_append] at enough ⊢
                omega
      | @drop _ items kept entry again later =>
          rw [Catalog.searchPath]
          have stays : expand catalog dimension entry.1 entry.2 entry.1.columns ⟨seen, items⟩ =
              .inr ⟨seen, items⟩ := Spent.expand_eq (spent entry again)
          dsimp only
          rw [stays]
          refine @ih ⟨seen, items⟩ _ _ _ ⟨same, later, spent⟩ ?_ found
          simp only [List.length_cons] at enough ⊢
          omega

/-- Nodes to start from that are repeated make no other paths. -/
theorem Accepted.dimensionPath_eq_of_trimmed (accepted : catalog.Accepted) {start kept : List Node}
    (inside : start ⊆ catalog.nodes) (trimmed : Trimmed [] start kept) (dimension : String) :
    catalog.dimensionPath start dimension = catalog.dimensionPath kept dimension := by
  have shortened : Shortened catalog []
      { seen := start.map Node.name, queue := start.map fun node => (node, []) }
      { seen := kept.map Node.name, queue := kept.map fun node => (node, []) } := by
    refine ⟨fun name => ?_, ?_, nofun⟩
    · simp only [List.mem_map, trimmed.mem_iff]
    · have entries := trimmed.filterMap fun node => some (node, ([] : List Hop))
      rwa [List.filterMap_eq_map'] at entries
  cases shorter : catalog.dimensionPath kept dimension with
  | some way =>
      refine shortened.searchPath ?_ shorter
      simp only [List.length_map]
      omega
  | none =>
      have insideToo : kept ⊆ catalog.nodes := fun node member =>
        inside (trimmed.mem_iff.2 member)
      refine (accepted.dimensionPath_eq_none_iff inside).2 ?_
      rcases (accepted.dimensionPath_eq_none_iff insideToo).1 shorter with isStart | unreached
      · exact .inl (List.map_subset _ trimmed.sublist.subset isStart)
      · refine .inr fun places hops node chain same => ?_
        have reached := chain.reached.of_closed (catalog.Reached kept)
          (fun root isRoot => .root (trimmed.mem_iff.1 isRoot)) fun _ there _ leads => there.link leads
        obtain ⟨placesToo, hopsToo, chainToo⟩ := reached.exists_chain
        exact unreached placesToo hopsToo node chainToo same

end Catalog
end SemanticLayer
