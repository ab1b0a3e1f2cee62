import SemanticLayer.Access.Permission
import SemanticLayer.Proofs.Factors
import SemanticLayer.Proofs.Outcomes
import SemanticLayer.Proofs.Qualification

/-!
# What permissions allow

A text is allowed exactly if for each of its statements every permission has an alternative that
covers all tables named in the statement, by the names they have before anything is rewritten. What
cannot be read or prepared is an error and never a refusal.
-/

namespace SemanticLayer
namespace Access

open Document

/-! ## Names -/

/-- A name, whole or in part, covers the full name of a table: it is not longer, and each of its
parts is the part of the table in its place or the placeholder. -/
def Covers (placeholder : String) (allowed table : List String) : Prop :=
  allowed.length ≤ table.length ∧
    ∀ (i : Nat) (part : String), allowed[i]? = some part → part = placeholder ∨ table[i]? = some part

theorem covers_nil (placeholder : String) (table : List String) : Covers placeholder [] table :=
  ⟨Nat.zero_le _, fun i part found => by simp at found⟩

theorem not_covers_cons_nil (placeholder part : String) (allowed : List String) :
    ¬ Covers placeholder (part :: allowed) [] :=
  fun covers => absurd covers.1 (Nat.not_succ_le_zero _)

theorem covers_cons_cons_iff (placeholder part name : String) (allowed table : List String) :
    Covers placeholder (part :: allowed) (name :: table) ↔
      (part = placeholder ∨ part = name) ∧ Covers placeholder allowed table := by
  constructor
  · rintro ⟨shorter, parts⟩
    refine ⟨?_, Nat.le_of_succ_le_succ shorter, ?_⟩
    · rcases parts 0 part rfl with blank | same
      · exact Or.inl blank
      · exact Or.inr (Option.some.inj same).symm
    · intro i other found
      exact parts (i + 1) other found
  · rintro ⟨here, shorter, parts⟩
    refine ⟨Nat.succ_le_succ shorter, ?_⟩
    intro i other found
    cases i with
    | zero =>
        cases found
        rcases here with blank | same
        · exact Or.inl blank
        · exact Or.inr (congrArg some same.symm)
    | succ i => exact parts i other found

theorem tableMatches_iff_covers (placeholder : String) (allowed table : List String) :
    tableMatches placeholder allowed table = true ↔ Covers placeholder allowed table := by
  induction allowed generalizing table with
  | nil => exact ⟨fun _ => covers_nil placeholder table, fun _ => by simp [tableMatches]⟩
  | cons part allowed ih =>
      cases table with
      | nil =>
          constructor
          · intro matched
            cases matched
          · intro covers
            exact absurd covers (not_covers_cons_nil placeholder part allowed)
      | cons name table =>
          rw [tableMatches, covers_cons_cons_iff, ← ih]
          simp

/-! ## Statements -/

/-- The queries that a text holds, if it can be read and all its statements are queries. -/
def queries? (text : String) : Option (List Grammar.Query) :=
  (Grammar.statements? (.ofDialect? none) text).bind fun statements =>
    statements.mapM Grammar.Statement.query?

/-- Queries as one document. -/
def queriesView (queries : List Grammar.Query) : Document :=
  Grammar.View.statements (queries.map Grammar.Statement.query)

theorem mapM_query?_eq_some_iff
    (statements : List Grammar.Statement) (queries : List Grammar.Query) :
    statements.mapM Grammar.Statement.query? = some queries ↔
      statements = queries.map Grammar.Statement.query := by
  induction statements generalizing queries with
  | nil => cases queries <;> simp
  | cons statement rest ih =>
      cases statement with
      | other keyword change =>
          cases queries <;> simp [Grammar.Statement.query?]
      | query first =>
          cases queries with
          | nil =>
              cases tail : rest.mapM Grammar.Statement.query? with
              | none => simp [Grammar.Statement.query?, tail]
              | some found => simp [Grammar.Statement.query?, tail]
          | cons query others =>
              cases tail : rest.mapM Grammar.Statement.query? with
              | none => simp [Grammar.Statement.query?, tail, ← ih others]
              | some found => simp [Grammar.Statement.query?, tail, ← ih others]

theorem firstOther?_eq_none_iff (statements : List Grammar.Statement) :
    firstOther? statements = none ↔
      ∃ queries, statements.mapM Grammar.Statement.query? = some queries := by
  induction statements with
  | nil => simp [firstOther?]
  | cons statement rest ih =>
      rw [firstOther?] at ih
      cases statement with
      | other keyword change => simp [firstOther?, Grammar.Statement.query?]
      | query first =>
          cases tail : rest.mapM Grammar.Statement.query? with
          | none => simp [firstOther?, Grammar.Statement.query?, ih, tail]
          | some found => simp [firstOther?, Grammar.Statement.query?, ih, tail]

/-- A text of queries is read as their documents. -/
theorem queriesOf_of_queries? {text : String} {queries : List Grammar.Query}
    (read : queries? text = some queries) :
    queriesOf text =
      .ok ((queries.map Grammar.Statement.query).map Grammar.View.statement) := by
  obtain ⟨statements, found, all⟩ := Option.bind_eq_some_iff.1 read
  have none : firstOther? statements = none := (firstOther?_eq_none_iff statements).2 ⟨_, all⟩
  rw [mapM_query?_eq_some_iff] at all
  have read : Sql.statementsOf text Option.none = .ok statements := by
    rw [Sql.statementsOf, found]
  rw [queriesOf, Result.bind_of_ok read, none, all]

/-- A text that is not of queries is an error. -/
theorem queriesOf_of_not_queries? {text : String} (unread : queries? text = none) :
    ∃ failure, queriesOf text = .error failure := by
  cases found : Grammar.statements? (.ofDialect? none) text with
  | none =>
      refine ⟨.unreadableSql, ?_⟩
      rw [queriesOf, Sql.statementsOf, found]
      rfl
  | some statements =>
      cases other : firstOther? statements with
      | some keyword =>
          have read : Sql.statementsOf text Option.none = .ok statements := by
            rw [Sql.statementsOf, found]
          refine ⟨.notImplemented (keyword ++ " statement"), ?_⟩
          rw [queriesOf, Result.bind_of_ok read, other]
      | none =>
          obtain ⟨queries, all⟩ := (firstOther?_eq_none_iff statements).1 other
          rw [queries?, found, Option.bind_some, all] at unread
          cases unread

/-- The document of queries lists the tables that each of them names. -/
theorem lists_queriesView (queries : List Grammar.Query) :
    Lists (queries.map Grammar.Query.factors) (queriesView queries) := by
  have told : ∀ query : Grammar.Query,
      Tells (Grammar.View.statement (.query query)) query.factors := fun query =>
    (Grammar.View.tells_query query).single (by decide)
  rw [queriesView, Grammar.View.statements, List.map_map]
  constructor
  · apply Regular.array
    intro document listed
    obtain ⟨query, _, rfl⟩ := List.mem_map.1 listed
    exact (told query).regular
  · refine ⟨_, rfl, ?_⟩
    rw [List.map_map]
    apply List.map_congr_left
    intro query _
    exact (told query).tables

/-- The tables found statement by statement in a listing document. -/
theorem Lists.map_tableNames {names : List (List (List String))} {items : List Document}
    (lists : Lists names (.array items)) : items.map tableNames = names := by
  obtain ⟨_, same, told⟩ := lists.statements
  cases same
  rw [← told]
  apply List.map_congr_left
  intro item listed
  cases lists.regular with
  | array inner => exact tableNames_eq_tables (inner item listed).keyed

/-- The alternatives of a permission are the tables that its statements name. -/
theorem patternsOf_of_queries? {permission : String} {queries : List Grammar.Query}
    (read : queries? permission = some queries) :
    patternsOf permission = .ok (queries.map fun query => ⟨query.factors⟩) := by
  have lists := (lists_queriesView queries).stripAliases
  rw [queriesView, Grammar.View.statements] at lists
  rw [patternsOf, Result.bind_of_ok (queriesOf_of_queries? read)]
  obtain ⟨items, shape, _⟩ := lists.statements
  rw [shape] at lists
  have named := lists.map_tableNames
  have patterns : items.map (fun statement => Pattern.mk (tableNames statement)) =
      queries.map fun query => ⟨query.factors⟩ := by
    have mapped := congrArg (List.map Pattern.mk) named
    rwa [List.map_map, List.map_map] at mapped
  rw [shape, ← patterns]

/-- The tables that a text reads are those its statements name, by their full names. -/
theorem tablesRead_of_queries?
    {inspector : Inspector} {context : Context} {placeholder text : String}
    {queries : List Grammar.Query} {prepared : Document} (read : queries? text = some queries)
    (done : prepare inspector context placeholder (queriesView queries) = .ok prepared) :
    tablesRead inspector context placeholder text =
      .ok (queries.map fun query =>
        query.factors.map (paddedName (context.start placeholder))) := by
  have lists := (lists_queriesView queries).prepare done
  obtain ⟨items, rfl, _⟩ := lists.statements
  rw [queriesView, Grammar.View.statements] at done
  rw [tablesRead, Result.bind_of_ok (queriesOf_of_queries? read), Result.bind_of_ok done]
  change Except.ok (items.map tableNames) = _
  rw [lists.map_tableNames, List.map_map]
  rfl

/-- A text that is not of queries, or that cannot be prepared, has no tables to verify. -/
theorem tablesRead_of_failure
    {inspector : Inspector} {context : Context} {placeholder text : String}
    (fails : queries? text = none ∨ ∃ queries failure, queries? text = some queries ∧
      prepare inspector context placeholder (queriesView queries) = .error failure) :
    ∃ failure, tablesRead inspector context placeholder text = .error failure := by
  rcases fails with unread | ⟨queries, failure, read, refused⟩
  · obtain ⟨failure, unreadable⟩ := queriesOf_of_not_queries? unread
    refine ⟨failure, ?_⟩
    rw [tablesRead, unreadable]
    rfl
  · refine ⟨failure, ?_⟩
    rw [queriesView, Grammar.View.statements] at refused
    rw [tablesRead, Result.bind_of_ok (queriesOf_of_queries? read), refused]
    rfl

/-! ## Permissions -/

/-- Permissions that can be read have their alternatives, one list for each. -/
theorem mapM_patternsOf_of_queries?
    {permissions : List String}
    (readable : ∀ permission ∈ permissions, (queries? permission).isSome) :
    permissions.mapM patternsOf = .ok (permissions.map fun permission =>
      ((queries? permission).getD []).map fun query => ⟨query.factors⟩) := by
  induction permissions with
  | nil => rfl
  | cons permission rest ih =>
      obtain ⟨queries, read⟩ := Option.isSome_iff_exists.1 (readable permission List.mem_cons_self)
      have others := ih fun other later => readable other (List.mem_cons_of_mem _ later)
      rw [List.mapM_cons, patternsOf_of_queries? read, others, List.map_cons, read]
      rfl

theorem mapM_patternsOf_of_not_queries?
    {permissions : List String} {permission : String} (listed : permission ∈ permissions)
    (unread : queries? permission = none) :
    ∃ failure, permissions.mapM patternsOf = .error failure := by
  induction permissions with
  | nil => cases listed
  | cons first rest ih =>
      rw [List.mapM_cons]
      cases here : patternsOf first with
      | error failure => exact ⟨failure, rfl⟩
      | ok patterns =>
          cases listed with
          | head =>
              obtain ⟨failure, unreadable⟩ := queriesOf_of_not_queries? unread
              rw [patternsOf, unreadable] at here
              cases here
          | tail _ later =>
              obtain ⟨failure, others⟩ := ih later
              refine ⟨failure, ?_⟩
              rw [others]
              rfl

theorem allows_iff (pattern : Pattern) (placeholder : String) (tables : List (List String)) :
    pattern.allows placeholder tables = true ↔
      ∀ table ∈ tables, ∃ allowed ∈ pattern.tables, Covers placeholder allowed table := by
  simp [Pattern.allows, tableMatches_iff_covers]

theorem verify_of_ne_nil
    (inspector : Inspector) (context : Context) (placeholder text : String)
    {permissions : List String} (given : permissions ≠ []) :
    verify inspector context placeholder text permissions =
      (tablesRead inspector context placeholder text >>= fun statements =>
        permissions.mapM patternsOf >>= fun patterns =>
          pure <| statements.all fun tables =>
            patterns.all fun alternatives =>
              alternatives.any fun pattern => pattern.allows placeholder tables) := by
  rw [verify, if_neg (by simpa using given)]

/-- Verification decides whether permissions allow a text. Without permissions it refuses. Where the
text and the permissions are queries and the text can be prepared, it answers whether for every
statement of the text every permission has a statement that covers each table named in it. Where
something is no query or cannot be prepared, it fails and gives no answer. -/
theorem verify_decides
    (inspector : Inspector) (context : Context) (placeholder text : String)
    (permissions : List String) :
    (permissions = [] → verify inspector context placeholder text permissions = .ok false) ∧
    (permissions ≠ [] → ∀ queries prepared, queries? text = some queries →
      prepare inspector context placeholder (queriesView queries) = .ok prepared →
      (∀ permission ∈ permissions, (queries? permission).isSome) →
      ∃ answer, verify inspector context placeholder text permissions = .ok answer ∧
        (answer = true ↔
          ∀ query ∈ queries, ∀ permission ∈ permissions,
            ∃ alternative ∈ (queries? permission).getD [],
              ∀ table ∈ query.factors, ∃ allowed ∈ alternative.factors,
                Covers placeholder allowed
                  (paddedName (context.start placeholder) table))) ∧
    (permissions ≠ [] →
      (queries? text = none ∨
        (∃ queries failure, queries? text = some queries ∧
          prepare inspector context placeholder (queriesView queries) = .error failure) ∨
        ∃ permission ∈ permissions, queries? permission = none) →
      ∃ failure, verify inspector context placeholder text permissions = .error failure) := by
  refine ⟨?_, ?_, ?_⟩
  · rintro rfl
    rfl
  · intro given queries prepared read done readable
    rw [verify_of_ne_nil _ _ _ _ given, tablesRead_of_queries? read done,
      mapM_patternsOf_of_queries? readable]
    refine ⟨_, rfl, ?_⟩
    simp [allows_iff, List.all_eq_true, List.any_eq_true]
  · intro given fails
    rw [verify_of_ne_nil _ _ _ _ given]
    have cases' : (∃ failure, tablesRead inspector context placeholder text = .error failure) ∨
        ∃ failure, permissions.mapM patternsOf = .error failure := by
      rcases fails with unread | refused | ⟨permission, listed, unread⟩
      · exact Or.inl (tablesRead_of_failure (Or.inl unread))
      · exact Or.inl (tablesRead_of_failure (Or.inr refused))
      · exact Or.inr (mapM_patternsOf_of_not_queries? listed unread)
    cases found : tablesRead inspector context placeholder text with
    | error failure => exact ⟨failure, rfl⟩
    | ok statements =>
        rcases cases' with ⟨failure, unreadable⟩ | ⟨failure, unreadable⟩
        · rw [found] at unreadable
          cases unreadable
        · refine ⟨failure, ?_⟩
          rw [unreadable]
          rfl

/-- A query with a subquery, under a permission for all tables of one schema. -/
theorem verify_decides_under_schema :
    ∃ queries, queries? "SELECT id FROM users u WHERE id IN (SELECT user_id FROM s.orders)" =
        some queries ∧
      ∃ answer, verify
          (.declared
            [{ table := "users", columns := ["id"] }, { table := "orders", columns := ["user_id"] }])
          { database := "db", schema := some "s" } "null"
          "SELECT id FROM users u WHERE id IN (SELECT user_id FROM s.orders)"
          ["SELECT 1 FROM db.null.s"] = .ok answer ∧
        (answer = true ↔
          ∀ query ∈ queries, ∀ permission ∈ ["SELECT 1 FROM db.null.s"],
            ∃ alternative ∈ (queries? permission).getD [],
              ∀ table ∈ query.factors, ∃ allowed ∈ alternative.factors,
                Covers "null" allowed (paddedName ["db", "null", "s"] table)) := by
  have readable :
      (queries? "SELECT id FROM users u WHERE id IN (SELECT user_id FROM s.orders)").isSome := by
    decide +kernel
  obtain ⟨queries, read⟩ := Option.isSome_iff_exists.1 readable
  have prepared : ((queries? "SELECT id FROM users u WHERE id IN (SELECT user_id FROM s.orders)").map
      fun queries => (prepare
        (.declared
          [{ table := "users", columns := ["id"] }, { table := "orders", columns := ["user_id"] }])
        { database := "db", schema := some "s" } "null" (queriesView queries)).toOption.isSome) =
      some true := by
    decide +kernel
  rw [read, Option.map_some, Option.some.injEq] at prepared
  obtain ⟨document, done⟩ := Option.isSome_iff_exists.1 prepared
  refine ⟨queries, read, ?_⟩
  apply (verify_decides _ _ _ _ _).2.1 (by simp) queries document read
  · rw [Except.toOption.eq_def] at done
    split at done
    · rename_i result
      cases done
      exact result
    · cases done
  · decide +kernel

end Access
end SemanticLayer
