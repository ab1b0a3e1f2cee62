import SemanticLayer.Proofs.Widening

/-!
# What permissions do not see

Permissions are compared with the tables that stand where rows are read from. The table that rows
are inserted into, the one that a SELECT fills and one that stands for a whole query are tables of a
query too, but no permission is asked for them, and the query is not refused either.
-/

namespace SemanticLayer
namespace Access

variable {inspector : Inspector} {context : Context} {placeholder text other : String}
  {permissions : List String} {queries others : List Grammar.Query}

/-- A text with tables to verify is one of queries that can be prepared, and the tables are those
that stand where rows are read from. -/
theorem tablesRead_eq_ok_iff {tables : List (List (List String))} :
    tablesRead inspector context placeholder text = .ok tables ↔
      ∃ queries prepared, queries? text = some queries ∧
        prepare inspector context placeholder (queriesView queries) = .ok prepared ∧
        tables = queries.map fun query =>
          query.factors.map (paddedName (context.start placeholder)) := by
  constructor
  · intro read
    cases found : queries? text with
    | none =>
        have fails : ∃ failure, tablesRead inspector context placeholder text = .error failure :=
          tablesRead_of_failure (.inl found)
        obtain ⟨failure, fails⟩ := fails
        cases fails.symm.trans read
    | some queries =>
        cases done : prepare inspector context placeholder (queriesView queries) with
        | error failure =>
            obtain ⟨failure, fails⟩ := tablesRead_of_failure (.inr ⟨queries, failure, found, done⟩)
            cases fails.symm.trans read
        | ok prepared =>
            have tables := tablesRead_of_queries? found done
            exact ⟨queries, prepared, rfl, done, Except.ok.inj (read.symm.trans tables)⟩
  · rintro ⟨queries, prepared, found, done, rfl⟩
    exact tablesRead_of_queries? found done

/-- A text is allowed just if there are permissions, all of which are queries, the text is of
queries that can be prepared, and every permission allows the tables that each of them reads. -/
theorem verify_eq_ok_true_iff :
    verify inspector context placeholder text permissions = .ok true ↔
      permissions ≠ [] ∧ (∀ permission ∈ permissions, (queries? permission).isSome) ∧
      ∃ queries prepared, queries? text = some queries ∧
        prepare inspector context placeholder (queriesView queries) = .ok prepared ∧
        ∀ query ∈ queries, ∀ permission ∈ permissions, Allows placeholder permission
          (query.factors.map (paddedName (context.start placeholder))) := by
  by_cases given : permissions = []
  · subst given
    exact iff_of_false nofun fun allowed => allowed.1 rfl
  constructor
  · intro allowed
    have readable := isSome_queries?_of_verify given allowed
    rw [verify_of_readable given readable] at allowed
    obtain ⟨tables, read, all⟩ := Result.bind_eq_ok.1 allowed
    obtain ⟨queries, prepared, found, done, rfl⟩ := tablesRead_eq_ok_iff.1 read
    refine ⟨given, readable, queries, prepared, found, done, fun query member => ?_⟩
    exact (allowAll_iff _ _ _).1 (Result.pure_eq_ok.1 all) _ (List.mem_map_of_mem member)
  · rintro ⟨_, readable, queries, prepared, found, done, all⟩
    rw [verify_of_readable given readable, Result.bind_of_ok (tablesRead_of_queries? found done)]
    refine congrArg Except.ok ((allowAll_iff _ _ _).2 fun tables listed => ?_)
    obtain ⟨query, member, rfl⟩ := List.mem_map.1 listed
    exact all query member

/-- Texts of queries that read the same tables get the same answer, whatever else they name. -/
theorem verify_of_factors (found : queries? text = some queries)
    (foundToo : queries? other = some others)
    (same : queries.map Grammar.Query.factors = others.map Grammar.Query.factors)
    (done : (prepare inspector context placeholder (queriesView queries)).toOption.isSome)
    (doneToo : (prepare inspector context placeholder (queriesView others)).toOption.isSome) :
    verify inspector context placeholder text permissions =
      verify inspector context placeholder other permissions := by
  obtain ⟨_, prepared⟩ := Result.exists_eq_ok done
  obtain ⟨_, preparedToo⟩ := Result.exists_eq_ok doneToo
  have tables := congrArg
    (List.map (List.map (paddedName (context.start placeholder)))) same
  rw [List.map_map, List.map_map] at tables
  have read : tablesRead inspector context placeholder text =
      tablesRead inspector context placeholder other := by
    rw [tablesRead_of_queries? found prepared, tablesRead_of_queries? foundToo preparedToo]
    exact congrArg Except.ok tables
  rw [verify, verify, read]

/-- The names of the tables that rows of a query are inserted into. -/
def insertedInto : Grammar.Query → List (List String)
  | ⟨_, _, .change .insert target _ _ _, _, _, _, _, _, _, _⟩ =>
    (target.map Grammar.ObjectName.written).toList
  | _ => []

/-- A text is allowed just if every permission allows the tables that its queries read. What else
they name makes no difference: texts of queries that read the same tables get the same answer. -/
theorem verification_compares_what_is_read (inspector : Inspector) (context : Context)
    (placeholder : String) (permissions : List String) :
    (∀ text, verify inspector context placeholder text permissions = .ok true ↔
      permissions ≠ [] ∧ (∀ permission ∈ permissions, (queries? permission).isSome) ∧
      ∃ queries prepared, queries? text = some queries ∧
        prepare inspector context placeholder (queriesView queries) = .ok prepared ∧
        ∀ query ∈ queries, ∀ permission ∈ permissions, Allows placeholder permission
          (query.factors.map (paddedName (context.start placeholder)))) ∧
    ∀ text other queries others, queries? text = some queries → queries? other = some others →
      queries.map Grammar.Query.factors = others.map Grammar.Query.factors →
      (prepare inspector context placeholder (queriesView queries)).toOption.isSome →
      (prepare inspector context placeholder (queriesView others)).toOption.isSome →
      verify inspector context placeholder text permissions =
        verify inspector context placeholder other permissions :=
  ⟨fun _ => verify_eq_ok_true_iff,
    fun _ _ _ _ found foundToo same done doneToo =>
      verify_of_factors found foundToo same done doneToo⟩

/-- A permission to read the sales allows to insert their rows into the accounts. -/
theorem verification_compares_what_is_read_accounts :
    ∃ queries, queries? "WITH x AS (SELECT 1) INSERT INTO accounts SELECT price FROM sales" =
        some queries ∧
      queries.map insertedInto = [[["accounts"]]] ∧
      queries.map Grammar.Query.factors = [[["sales"]]] ∧
      ¬ Allows "null" "SELECT * FROM db.null.null.sales"
        [paddedName ["db", "null", "null"] ["accounts"]] ∧
      verify (.declared [{ table := "sales", columns := ["price"] }]) { database := "db" } "null"
        "WITH x AS (SELECT 1) INSERT INTO accounts SELECT price FROM sales"
        ["SELECT * FROM db.null.null.sales"] = .ok true := by
  obtain ⟨queries, found, facts⟩ := Option.map_eq_some_iff.1 (by decide +kernel :
    (queries? "WITH x AS (SELECT 1) INSERT INTO accounts SELECT price FROM sales").map
      (fun queries => (queries.map insertedInto, queries.map Grammar.Query.factors,
        (prepare (.declared [{ table := "sales", columns := ["price"] }]) { database := "db" }
          "null" (queriesView queries)).toOption.isSome)) =
      some ([[["accounts"]]], [[["sales"]]], true))
  obtain ⟨inserted, rest⟩ := Prod.mk.inj facts
  obtain ⟨factors, done⟩ := Prod.mk.inj rest
  obtain ⟨prepared, done⟩ := Result.exists_eq_ok done
  have read : allowAll "null" ["SELECT * FROM db.null.null.sales"]
      [[paddedName ["db", "null", "null"] ["sales"]]] = true := by decide +kernel
  have refused : allowAll "null" ["SELECT * FROM db.null.null.sales"]
      [[paddedName ["db", "null", "null"] ["accounts"]]] = false := by decide +kernel
  refine ⟨queries, found, inserted, factors, fun allows => ?_, ?_⟩
  · refine absurd ((allowAll_iff _ _ _).2 fun tables listed permission given => ?_)
      (Bool.eq_false_iff.1 refused)
    cases List.mem_singleton.1 listed
    cases List.mem_singleton.1 given
    exact allows
  · refine ((verification_compares_what_is_read _ _ _ _).1 _).2
      ⟨List.cons_ne_nil _ _, by decide +kernel, queries, prepared, found, done, ?_⟩
    intro query member permission given
    have listed : query.factors ∈ queries.map Grammar.Query.factors := List.mem_map_of_mem member
    rw [factors, List.mem_singleton] at listed
    rw [listed]
    exact (allowAll_iff _ _ _).1 read _ List.mem_cons_self permission given

end Access
end SemanticLayer
