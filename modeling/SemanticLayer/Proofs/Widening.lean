import SemanticLayer.Proofs.Verification

/-!
# Wider permissions and more permissions

To widen a permission never takes access away: a name that covers a name covers all that this one
covers. Permissions add up by conjunction: those of two lists together allow what each of the lists
allows, so neither order nor repetition matters.
-/

namespace SemanticLayer
namespace Access

/-! ## Wider permissions -/

instance (placeholder : String) (allowed table : List String) :
    Decidable (Covers placeholder allowed table) :=
  decidable_of_iff _ (tableMatches_iff_covers placeholder allowed table)

/-- What covers a name covers all that the name covers. -/
theorem Covers.trans {placeholder : String} {wide allowed table : List String}
    (outer : Covers placeholder wide allowed) (inner : Covers placeholder allowed table) :
    Covers placeholder wide table := by
  refine ⟨Nat.le_trans outer.1 inner.1, ?_⟩
  intro i part found
  rcases outer.2 i part found with blank | same
  · exact Or.inl blank
  · exact inner.2 i part same

/-- A permission is at least as wide as another: each alternative of the other has one here that
holds, for every table the other lists, the start of its name, where the placeholder may have taken
the place of some parts. -/
def Widens (placeholder narrow wide : String) : Prop :=
  ∀ alternative ∈ (queries? narrow).getD [], ∃ wider ∈ (queries? wide).getD [],
    ∀ table ∈ alternative.factors, ∃ allowed ∈ wider.factors, Covers placeholder allowed table

instance (placeholder narrow wide : String) : Decidable (Widens placeholder narrow wide) :=
  inferInstanceAs (Decidable (∀ alternative ∈ (queries? narrow).getD [],
    ∃ wider ∈ (queries? wide).getD [], ∀ table ∈ alternative.factors,
      ∃ allowed ∈ wider.factors, Covers placeholder allowed table))

/-- An alternative of a permission covers every one of some tables. -/
def Allows (placeholder permission : String) (tables : List (List String)) : Prop :=
  ∃ alternative ∈ (queries? permission).getD [],
    ∀ table ∈ tables, ∃ allowed ∈ alternative.factors, Covers placeholder allowed table

/-- A wider permission allows what the narrower one does. -/
theorem Widens.allows {placeholder narrow wide : String} {tables : List (List String)}
    (widens : Widens placeholder narrow wide) (allowed : Allows placeholder narrow tables) :
    Allows placeholder wide tables := by
  obtain ⟨alternative, listed, covering⟩ := allowed
  obtain ⟨wider, there, coveringToo⟩ := widens alternative listed
  refine ⟨wider, there, ?_⟩
  intro table read
  obtain ⟨name, named, covers⟩ := covering table read
  obtain ⟨start, found, above⟩ := coveringToo name named
  exact ⟨start, found, above.trans covers⟩

/-! ## Answers -/

variable {inspector : Inspector} {context : Context} {placeholder text : String}
  {permissions others : List String}

/-- Permissions with an answer can all be read. -/
theorem isSome_queries?_of_verify {answer : Bool} (given : permissions ≠ [])
    (done : verify inspector context placeholder text permissions = .ok answer) :
    ∀ permission ∈ permissions, (queries? permission).isSome := by
  intro permission listed
  cases unread : queries? permission with
  | some queries => rfl
  | none =>
      obtain ⟨failure, unreadable⟩ := mapM_patternsOf_of_not_queries? listed unread
      rw [verify_of_ne_nil _ _ _ _ given, unreadable] at done
      obtain ⟨statements, _, stuck⟩ := Result.bind_eq_ok.1 done
      cases stuck

/-- Whether some permissions, those that can be read, allow all of some statements. -/
def allowAll (placeholder : String) (permissions : List String)
    (statements : List (List (List String))) : Bool :=
  statements.all fun tables => permissions.all fun permission =>
    ((queries? permission).getD []).any fun alternative =>
      Pattern.allows ⟨alternative.factors⟩ placeholder tables

theorem allowAll_iff (placeholder : String) (permissions : List String)
    (statements : List (List (List String))) :
    allowAll placeholder permissions statements = true ↔
      ∀ tables ∈ statements, ∀ permission ∈ permissions,
        Allows placeholder permission tables := by
  simp [allowAll, Allows, allows_iff, List.all_eq_true, List.any_eq_true]

/-- Permissions that can be read decide about the tables that a text reads, if it has any. -/
theorem verify_of_readable (given : permissions ≠ [])
    (readable : ∀ permission ∈ permissions, (queries? permission).isSome) :
    verify inspector context placeholder text permissions =
      (tablesRead inspector context placeholder text >>= fun statements =>
        pure (allowAll placeholder permissions statements)) := by
  rw [verify_of_ne_nil _ _ _ _ given, mapM_patternsOf_of_queries? readable]
  refine congrArg (tablesRead inspector context placeholder text >>= ·) (funext fun statements => ?_)
  simp only [allowAll, Result.bind_of_ok rfl, List.all_map, List.any_map, Function.comp_def]

/-- Permissions that widen others allow what these allow. -/
theorem verify_of_widens (widens : List.Forall₂ (Widens placeholder) permissions others)
    (readable : ∀ permission ∈ others, (queries? permission).isSome)
    (allowed : verify inspector context placeholder text permissions = .ok true) :
    verify inspector context placeholder text others = .ok true := by
  by_cases given : permissions = []
  · subst given
    cases widens
    exact allowed
  have more : others ≠ [] := by
    rintro rfl
    cases widens
    exact given rfl
  rw [verify_of_readable given (isSome_queries?_of_verify given allowed)] at allowed
  obtain ⟨statements, read, all⟩ := Result.bind_eq_ok.1 allowed
  rw [verify_of_readable more readable, Result.bind_of_ok read]
  refine congrArg Except.ok ((allowAll_iff _ _ _).2 ?_)
  intro tables named permission listed
  obtain ⟨narrow, there, wide⟩ := Result.exists_of_forall₂ widens listed
  exact wide.allows ((allowAll_iff _ _ _).1 (Result.pure_eq_ok.1 all) tables named narrow there)

/-! ## More permissions -/

theorem all_and (first second : α → Bool) (items : List α) :
    (items.all fun item => first item && second item) = (items.all first && items.all second) := by
  rw [Bool.eq_iff_iff]
  simp [List.all_eq_true, forall_and]

/-- Two lists of permissions together say yes if both do, and fail if one of them fails. -/
theorem verify_append (given : permissions ≠ []) (more : others ≠ []) :
    verify inspector context placeholder text (permissions ++ others) = (do
      let first ← verify inspector context placeholder text permissions
      let second ← verify inspector context placeholder text others
      pure (first && second)) := by
  rw [verify_of_ne_nil _ _ _ _ given, verify_of_ne_nil _ _ _ _ more,
    verify_of_ne_nil _ _ _ _ (List.append_ne_nil_of_left_ne_nil given others),
    List.mapM_append]
  cases tablesRead inspector context placeholder text with
  | error failure => rfl
  | ok statements =>
      cases permissions.mapM patternsOf with
      | error failure => rfl
      | ok patterns =>
          cases others.mapM patternsOf with
          | error failure => rfl
          | ok further =>
              refine congrArg Except.ok ?_
              rw [← all_and]
              simp only [List.all_append]

/-- Neither order nor repetition of permissions that can be read matters. -/
theorem verify_congr (readable : ∀ permission ∈ permissions, (queries? permission).isSome)
    (same : ∀ permission, permission ∈ permissions ↔ permission ∈ others) :
    verify inspector context placeholder text permissions =
      verify inspector context placeholder text others := by
  by_cases given : permissions = []
  · have none : others = [] := by
      simpa [given, List.eq_nil_iff_forall_not_mem, eq_comm] using same
    rw [given, none]
  have more : others ≠ [] := by
    rintro rfl
    simp [← List.eq_nil_iff_forall_not_mem, given] at same
  have readableToo : ∀ permission ∈ others, (queries? permission).isSome :=
    fun permission listed => readable permission ((same permission).2 listed)
  rw [verify_of_readable given readable, verify_of_readable more readableToo]
  have agree : allowAll placeholder permissions = allowAll placeholder others := by
    funext statements
    rw [Bool.eq_iff_iff, allowAll_iff, allowAll_iff]
    simp only [same]
  rw [agree]

/-- Verification under wider and under more permissions. Where each permission of a list is widened
to one that can be read, what the list allows is still allowed. Two lists of permissions together
fail if one of them does, the first failure first, and otherwise say yes if both do. Lists that
hold the same permissions, all of which can be read, give the same result. -/
theorem verify_monotone_and_conjunctive
    (inspector : Inspector) (context : Context) (placeholder text : String)
    (permissions others : List String) :
    (List.Forall₂ (Widens placeholder) permissions others →
      (∀ permission ∈ others, (queries? permission).isSome) →
      verify inspector context placeholder text permissions = .ok true →
      verify inspector context placeholder text others = .ok true) ∧
    (permissions ≠ [] → others ≠ [] →
      verify inspector context placeholder text (permissions ++ others) = (do
        let first ← verify inspector context placeholder text permissions
        let second ← verify inspector context placeholder text others
        pure (first && second))) ∧
    ((∀ permission ∈ permissions, (queries? permission).isSome) →
      (∀ permission, permission ∈ permissions ↔ permission ∈ others) →
      verify inspector context placeholder text permissions =
        verify inspector context placeholder text others) :=
  ⟨verify_of_widens, verify_append, verify_congr⟩

/-- A permission for two tables, widened to all tables of their schema in any catalog, and then
joined by one for a table that is not read. -/
theorem verify_monotone_and_conjunctive_schema :
    let inspector : Inspector := .declared
      [{ table := "users", columns := ["id"] }, { table := "orders", columns := ["user_id"] }]
    let context : Context := { database := "db", schema := some "s" }
    let text := "SELECT id FROM users u WHERE id IN (SELECT user_id FROM s.orders)"
    let narrow := ["SELECT 1 FROM db.null.s.users, db.null.s.orders"]
    let wide := ["SELECT 1; SELECT 1 FROM null.null.s"]
    let elsewhere := ["SELECT 1 FROM db.null.s.orders"]
    verify inspector context "null" text narrow = .ok true ∧
      verify inspector context "null" text wide = .ok true ∧
      verify inspector context "null" text (wide ++ elsewhere) = .ok false ∧
      verify inspector context "null" text (wide ++ wide) =
        verify inspector context "null" text wide := by
  intro inspector context text narrow wide elsewhere
  have narrowly : verify inspector context "null" text narrow = .ok true :=
    Result.eq_ok_of_toOption (by decide +kernel)
  have refused : verify inspector context "null" text elsewhere = .ok false :=
    Result.eq_ok_of_toOption (by decide +kernel)
  have readable : ∀ permission ∈ wide, (queries? permission).isSome := by decide +kernel
  have widely : verify inspector context "null" text wide = .ok true :=
    (verify_monotone_and_conjunctive inspector context "null" text narrow wide).1
      (.cons (by decide +kernel) .nil) readable narrowly
  refine ⟨narrowly, widely, ?_, ?_⟩
  · rw [(verify_monotone_and_conjunctive inspector context "null" text wide elsewhere).2.1
      (by decide) (by decide), widely, refused]
    rfl
  · apply (verify_monotone_and_conjunctive inspector context "null" text (wide ++ wide) wide).2.2
    · simpa using readable
    · simp

end Access
end SemanticLayer
