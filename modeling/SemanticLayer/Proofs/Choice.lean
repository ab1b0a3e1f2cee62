import SemanticLayer.Proofs.Descent
import SemanticLayer.Proofs.Tables

/-!
# Which database is chosen

A database is a candidate for some nodes if it can compute every one of them as far as it is
referenced. Where the expressions of the nodes resolve, a database is chosen unless there is no
candidate, or the one that was asked for is none; and then it is the cheapest candidate, the first of
several that cost the same.
-/

namespace SemanticLayer.Catalog

variable {catalog : Catalog} {node : Node} {nodes others : List Node} {references more : References}
  {columns names : List String} {id : Int}

/-! ## What a database can compute -/

/-- The expressions of a node and of its ancestors resolve: each one's columns are found among its
parents. A node without parents is not looked at. -/
inductive Resolves (catalog : Catalog) : Node → Prop
  | intro {node : Node}
      (refers : catalog.parents node ≠ [] →
        ∃ references, catalog.nodeReferences node = .ok references)
      (parents : ∀ parent ∈ catalog.parents node, Resolves catalog parent) : Resolves catalog node

/-- Columns of a node can be computed in a database: some table of the node there has all of them, or
every parent can be computed there as far as the expression of the node takes columns from it. -/
inductive Computable (catalog : Catalog) (id : Int) : Node → List String → Prop
  | stored {node : Node} {columns : List String} {table : Materialization}
      (member : table ∈ node.tables) (there : table.database = id)
      (holds : table.holds columns = true) : Computable catalog id node columns
  | derived {node : Node} {columns : List String} {references : References}
      (some : catalog.parents node ≠ []) (refers : catalog.nodeReferences node = .ok references)
      (parents : ∀ parent ∈ catalog.parents node,
        Computable catalog id parent (references.of parent.name)) :
      Computable catalog id node columns

/-- What can be computed of a node can be computed with fewer of its columns. -/
theorem Computable.mono (fewer : names ⊆ columns) (computable : catalog.Computable id node columns) :
    catalog.Computable id node names := by
  cases computable with
  | stored member there holds =>
      refine .stored member there ?_
      rw [Materialization.holds, List.all_eq_true] at holds ⊢
      exact fun name listed => holds name (fewer listed)
  | derived some refers parents => exact .derived some refers parents

/-- Where expressions resolve, the databases that can compute columns are found. -/
theorem exists_computableIds (accepted : catalog.Accepted) (resolves : catalog.Resolves node)
    (columns : List String) : ∃ ids, catalog.computableIds node columns = .ok ids := by
  induction resolves generalizing columns with
  | @intro node refers _ ih =>
      have parents : ∀ parent ∈ catalog.parents node, ∀ columns, ∃ ids,
          catalog.computableWithin catalog.nodes.length parent columns = .ok ids := by
        intro parent isParent columns
        obtain ⟨ids, done⟩ := ih parent isParent columns
        have known := (mem_of_mem_parents isParent).1
        rw [computableIds, computableWithin_succ accepted known (accepted.rank_lt_length known)]
          at done
        exact ⟨ids, done⟩
      rw [computableIds, computableWithin]
      split
      next => exact ⟨_, rfl⟩
      next first rest listed =>
        rw [listed] at refers parents
        obtain ⟨references, refers⟩ := refers (List.cons_ne_nil _ _)
        rw [List.forall_mem_cons] at parents
        obtain ⟨start, here⟩ := parents.1 (references.of first.name)
        have step (parent : Node) (later : parent ∈ rest) (ids : List Int) :
            ∃ next, (do
              let found ← catalog.computableWithin catalog.nodes.length parent
                (references.of parent.name)
              pure (ids.filter found.contains)) = Except.ok next := by
          obtain ⟨found, known⟩ := parents.2 parent later (references.of parent.name)
          exact ⟨_, by rw [Result.bind_of_ok known]; rfl⟩
        obtain ⟨common, done⟩ := Result.foldlM_ok step start
        rw [Result.bind_of_ok refers, Result.bind_of_ok here, Result.bind_of_ok done]
        exact ⟨_, rfl⟩

/-- The databases that are found are those that can compute the columns. -/
theorem mem_computableIds_iff (accepted : catalog.Accepted) (resolves : catalog.Resolves node)
    {ids : List Int} (done : catalog.computableIds node columns = .ok ids) :
    id ∈ ids ↔ catalog.Computable id node columns := by
  induction resolves generalizing columns ids with
  | @intro node _ resolve ih =>
      rw [mem_computableIds accepted done]
      constructor
      · rintro (⟨table, member, there, holds⟩ | ⟨some, references, refers, parents⟩)
        · exact .stored member there holds
        · refine .derived some refers fun parent isParent => ?_
          obtain ⟨found, known, inside⟩ := parents parent isParent
          exact (ih parent isParent known).1 inside
      · intro computable
        cases computable with
        | stored member there holds => exact .inl ⟨_, member, there, holds⟩
        | @derived _ _ references some refers parents =>
            refine .inr ⟨some, references, refers, fun parent isParent => ?_⟩
            obtain ⟨found, known⟩ := exists_computableIds accepted (resolve parent isParent)
              (references.of parent.name)
            exact ⟨found, known, (ih parent isParent known).2 (parents parent isParent)⟩

/-! ## Candidates -/

/-- A database of the catalog that can compute every one of some nodes as far as it is
referenced. -/
structure Candidate (catalog : Catalog) (nodes : List Node) (references : References)
    (database : Database) : Prop where
  known : database ∈ catalog.databases
  computable : ∀ node ∈ nodes, catalog.Computable database.id node (references.of node.name)

theorem computes_iff (accepted : catalog.Accepted) (resolves : catalog.Resolves node)
    (database : Database) : catalog.computes references database node = true ↔
      catalog.Computable database.id node (references.of node.name) := by
  obtain ⟨ids, done⟩ := exists_computableIds accepted resolves (references.of node.name)
  rw [computes, done]
  simp only [List.contains_iff_mem]
  exact mem_computableIds_iff accepted resolves done

/-- Where expressions resolve, the candidates are found, in the order of the catalog. -/
theorem candidates_eq (accepted : catalog.Accepted) (resolve : ∀ node ∈ nodes, catalog.Resolves node)
    (references : References) : catalog.candidates nodes references =
      .ok (catalog.databases.filter fun database =>
        nodes.all (catalog.computes references database)) := by
  obtain ⟨found, done⟩ : ∃ found, catalog.candidates nodes references = .ok found := by
    refine Result.foldlM_ok (fun node member databases => ?_) _
    obtain ⟨ids, known⟩ :=
      exists_computableIds accepted (resolve node member) (references.of node.name)
    exact ⟨_, by rw [Result.bind_of_ok known]; rfl⟩
  rw [done, eq_filter_of_candidates done]

theorem candidate_iff (accepted : catalog.Accepted)
    (resolve : ∀ node ∈ nodes, catalog.Resolves node) (references : References)
    (database : Database) : catalog.Candidate nodes references database ↔
      database ∈ catalog.databases ∧ nodes.all (catalog.computes references database) = true := by
  rw [List.all_eq_true]
  constructor
  · exact fun ⟨known, computable⟩ => ⟨known, fun node member =>
      (computes_iff accepted (resolve node member) database).2 (computable node member)⟩
  · exact fun ⟨known, all⟩ => ⟨known, fun node member =>
      (computes_iff accepted (resolve node member) database).1 (all node member)⟩

/-- A candidate for columns is one for fewer of them. -/
theorem Candidate.mono (fewer : ∀ node ∈ nodes, references.of node.name ⊆ more.of node.name)
    {database : Database} (candidate : catalog.Candidate nodes more database) :
    catalog.Candidate nodes references database :=
  ⟨candidate.known, fun node member => (candidate.computable node member).mono (fewer node member)⟩

/-! ## The choice -/

/-- The candidate that was asked for, or any candidate if none was. -/
def Allowed (catalog : Catalog) (nodes : List Node) (references : References)
    (requested : Option Int) (database : Database) : Prop :=
  catalog.Candidate nodes references database ∧ ∀ id ∈ requested, database.id = id

/-- A database that is allowed and costs no more than any other one that is, and stands in front of
all of these that cost the same. -/
structure Cheapest (catalog : Catalog) (allowed : Database → Prop) (database : Database) : Prop where
  isAllowed : allowed database
  minimal : ∀ other, allowed other → database.cost.orderKey ≤ other.cost.orderKey
  first : ∃ before after, catalog.databases = before ++ database :: after ∧
    ∀ other ∈ before, allowed other → database.cost.orderKey < other.cost.orderKey

/-- The first of the databases of least cost that pass a test is the cheapest one. -/
theorem cheapest_of_firstLeast? {test : Database → Bool} {allowed : Database → Prop}
    (same : ∀ database, allowed database ↔ database ∈ catalog.databases ∧ test database = true)
    {database : Database}
    (least : firstLeast? (fun database => database.cost.orderKey)
      (catalog.databases.filter test) = some database) : catalog.Cheapest allowed database := by
  obtain ⟨before, after, split, greater, noLess⟩ := exists_split_of_firstLeast? least
  have among : database ∈ catalog.databases.filter test :=
    split ▸ List.mem_append_right before List.mem_cons_self
  obtain ⟨front, back, listed, earlier, later⟩ := List.filter_eq_append_iff.1 split
  obtain ⟨passed, rest, follows, refused, _, _⟩ := List.filter_eq_cons_iff.1 later
  refine ⟨(same database).2 (List.mem_filter.1 among), ?_, ?_⟩
  · intro other allowed
    have member := List.mem_filter.2 ((same other).1 allowed)
    rw [split] at member
    rcases List.mem_append.1 member with inFront | behind
    · exact (greater other inFront).le
    · rcases List.mem_cons.1 behind with rfl | further
      · exact le_refl _
      · exact noLess other further
  · refine ⟨front ++ passed, rest, by rw [listed, follows, List.append_assoc], ?_⟩
    intro other member allowed
    rcases List.mem_append.1 member with inFront | between
    · exact greater other (earlier ▸ List.mem_filter.2 ⟨inFront, ((same other).1 allowed).2⟩)
    · exact absurd ((same other).1 allowed).2 (refused other between)

/-- What comes of a choice: there is no candidate, or the one that was asked for is none, or the
cheapest one that is allowed is chosen. -/
inductive Outcome (catalog : Catalog) (nodes : List Node) (references : References)
    (requested : Option Int) : Result Database → Prop
  | impossible (none : ∀ database, ¬ catalog.Candidate nodes references database) :
      Outcome catalog nodes references requested (.error .noValidDatabase)
  | refused {id : Int} (asked : requested = some id)
      (some : ∃ database, catalog.Candidate nodes references database)
      (other : ∀ database, catalog.Candidate nodes references database → database.id ≠ id) :
      Outcome catalog nodes references requested (.error (.invalidDatabaseId id))
  | chosen {database : Database}
      (cheapest : catalog.Cheapest (catalog.Allowed nodes references requested) database) :
      Outcome catalog nodes references requested (.ok database)

theorem outcome_of_databaseFor (accepted : catalog.Accepted)
    (resolve : ∀ node ∈ nodes, catalog.Resolves node) (references : References)
    (requested : Option Int) : catalog.Outcome nodes references requested
      (catalog.databaseFor nodes references requested) := by
  have candidate := candidate_iff accepted resolve references
  rw [databaseFor, Result.bind_of_ok (candidates_eq accepted resolve references)]
  split
  next empty =>
    rw [List.isEmpty_iff, List.filter_eq_nil_iff] at empty
    exact .impossible fun database is => empty database ((candidate database).1 is).1
      ((candidate database).1 is).2
  next found =>
    rw [List.isEmpty_iff] at found
    cases requested with
    | none =>
        obtain ⟨database, least⟩ := Option.isSome_iff_exists.1
          (isSome_firstLeast? found : (firstLeast? (fun database : Database =>
            database.cost.orderKey) _).isSome)
        simp only [least]
        refine .chosen (cheapest_of_firstLeast? (fun database => ?_) least)
        rw [Allowed, candidate]
        simp
    | some id =>
        dsimp only
        split
        next least =>
          rw [List.filter_filter] at least
          refine .chosen (cheapest_of_firstLeast? (fun database => ?_) least)
          rw [Allowed, candidate, Bool.and_eq_true, beq_iff_eq]
          simp [and_assoc, and_comm (a := database.id = id)]
        next none same =>
          cases same
          obtain ⟨first, member⟩ := List.exists_mem_of_ne_nil _ found
          refine .refused rfl ⟨first, (candidate first).2 (List.mem_filter.1 member)⟩ ?_
          intro database is same
          have asked : database ∈ (catalog.databases.filter fun database =>
              nodes.all (catalog.computes references database)).filter fun database =>
                database.id == id :=
            List.mem_filter.2 ⟨List.mem_filter.2 ((candidate database).1 is), beq_iff_eq.2 same⟩
          have some : (firstLeast? (fun database : Database => database.cost.orderKey) _).isSome :=
            isSome_firstLeast? (List.ne_nil_of_mem asked)
          rw [none] at some
          cases some
        next _ same => cases same

/-- The candidates of the same nodes are the same. -/
theorem candidates_congr (accepted : catalog.Accepted)
    (resolve : ∀ node ∈ nodes, catalog.Resolves node) (same : ∀ node, node ∈ others ↔ node ∈ nodes) :
    catalog.candidates others references = catalog.candidates nodes references := by
  rw [candidates_eq accepted resolve,
    candidates_eq accepted fun node member => resolve node ((same node).1 member)]
  congr 1
  refine List.filter_congr fun database _ => ?_
  rw [Bool.eq_iff_iff, List.all_eq_true, List.all_eq_true]
  simp only [same]

/-- With more columns there are no more candidates. -/
theorem candidates_sublist (accepted : catalog.Accepted)
    (resolve : ∀ node ∈ nodes, catalog.Resolves node)
    (fewer : ∀ node ∈ nodes, references.of node.name ⊆ more.of node.name) :
    (catalog.databases.filter fun database =>
      nodes.all (catalog.computes more database)).Sublist
        (catalog.databases.filter fun database =>
          nodes.all (catalog.computes references database)) := by
  have both : (catalog.databases.filter fun database =>
      nodes.all (catalog.computes more database)) =
        (catalog.databases.filter fun database =>
          nodes.all (catalog.computes references database)).filter fun database =>
            nodes.all (catalog.computes more database) := by
    rw [List.filter_filter]
    refine List.filter_congr fun database known => ?_
    rw [Bool.eq_iff_iff, Bool.and_eq_true]
    refine ⟨fun all => ⟨all, ?_⟩, And.left⟩
    have candidate := (candidate_iff accepted resolve more database).2 ⟨known, all⟩
    exact ((candidate_iff accepted resolve references database).1 (candidate.mono fewer)).2
  rw [both]
  exact List.filter_sublist

/-- For nodes whose expressions resolve a choice fails just for want of a candidate, or because the
one that was asked for is none; otherwise it is the cheapest candidate, that one if one was asked
for, and of several that cost the same the first in the catalog. It does not matter in which order
and how often the nodes are listed. More columns do not make more candidates, and without nodes every
database is one. -/
theorem cheapest_candidates_are_chosen {databases : List Database} {declared : List Node}
    (built : build databases declared = .ok catalog)
    (resolve : ∀ node ∈ nodes, catalog.Resolves node) (references : References) :
    (∀ requested,
      (catalog.databaseFor nodes references requested = .error .noValidDatabase ↔
        ¬ ∃ database, catalog.Candidate nodes references database) ∧
      (∀ id, catalog.databaseFor nodes references requested = .error (.invalidDatabaseId id) ↔
        requested = some id ∧ (∃ database, catalog.Candidate nodes references database) ∧
          ¬ ∃ database, catalog.Candidate nodes references database ∧ database.id = id) ∧
      ((∃ database, catalog.Allowed nodes references requested database) →
        ∃ database, catalog.databaseFor nodes references requested = .ok database ∧
          catalog.Cheapest (catalog.Allowed nodes references requested) database) ∧
      ∀ others, (∀ node, node ∈ others ↔ node ∈ nodes) →
        catalog.databaseFor others references requested =
          catalog.databaseFor nodes references requested) ∧
    (∀ more : References, (∀ node ∈ nodes, references.of node.name ⊆ more.of node.name) →
      ∃ found fewer, catalog.candidates nodes references = .ok found ∧
        catalog.candidates nodes more = .ok fewer ∧ fewer.Sublist found) ∧
    catalog.candidates [] references = .ok catalog.databases := by
  have accepted := accepted_of_build built
  refine ⟨fun requested => ?_, fun more fewer => ?_, rfl⟩
  · have outcome := outcome_of_databaseFor accepted resolve references requested
    refine ⟨?_, fun id => ?_, fun allowed => ?_, fun others same => ?_⟩
    · generalize catalog.databaseFor nodes references requested = result at outcome
      cases outcome with
      | impossible none => simpa using none
      | refused asked some other => simpa using some
      | @chosen database cheapest => simpa using ⟨database, cheapest.isAllowed.1⟩
    · generalize catalog.databaseFor nodes references requested = result at outcome
      cases outcome with
      | impossible none => simpa using fun _ database candidate => absurd candidate (none database)
      | @refused other asked some unlike =>
          constructor
          · rintro ⟨⟩
            exact ⟨asked, some, fun ⟨database, candidate, same⟩ => unlike database candidate same⟩
          · rintro ⟨same, _⟩
            cases asked.symm.trans same
            rfl
      | @chosen database cheapest =>
          refine ⟨nofun, fun ⟨asked, _, no⟩ => ?_⟩
          exact absurd ⟨database, cheapest.isAllowed.1, cheapest.isAllowed.2 id asked⟩ no
    · generalize catalog.databaseFor nodes references requested = result at outcome
      obtain ⟨database, candidate, isAsked⟩ := allowed
      cases outcome with
      | impossible none => exact absurd candidate (none database)
      | refused asked some other => exact absurd (isAsked _ asked) (other database candidate)
      | chosen cheapest => exact ⟨_, rfl, cheapest⟩
    · rw [databaseFor, databaseFor, candidates_congr accepted resolve same]
  · exact ⟨_, _, candidates_eq accepted resolve references, candidates_eq accepted resolve more,
      candidates_sublist accepted resolve fewer⟩

def spareDatabase : Database :=
  { id := 3, name := "spare", uri := "duckdb://spare" }

/-- Accounts on which amounts are booked. -/
def accountDays : Node :=
  { name := "accounts", kind := .source, columns := [{ name := "day" }, { name := "holder" }]
    tables :=
      [{ database := 1, table := "accounts", columns := ["day", "holder"] },
        { database := 2, table := "accounts", columns := ["day"] },
        { database := 3, table := "accounts", columns := ["day", "holder"] }] }

def bookings : Node :=
  { name := "bookings", kind := .source, columns := [{ name := "day" }, { name := "amount" }]
    tables := [{ database := 1, table := "bookings" }, { database := 3, table := "bookings" }] }

def turnover : Node :=
  { name := "turnover", kind := .metric, parents := ["accounts", "bookings"]
    expression := some
      "SELECT SUM(amount) FROM accounts JOIN bookings ON accounts.day = bookings.day" }

/-- Amounts in a dear database and in a cheap one; another cheap one has accounts only. -/
def ledger : Catalog :=
  { databases :=
      [{ id := 1, name := "slow", uri := "postgresql://slow", cost := .ofInt 10 },
        { id := 2, name := "fast", uri := "duckdb://fast" }, spareDatabase]
    nodes := [accountDays, bookings, turnover] }

/-- The turnover is computed in the cheaper of the two databases that have amounts. The cheap one
without them is no candidate, also where accounts are listed besides. -/
theorem cheapest_candidates_are_chosen_turnover :
    build ledger.databases ledger.nodes = .ok ledger ∧
      (∀ node ∈ [turnover, accountDays], ledger.Resolves node) ∧
      ledger.databaseFor [turnover, accountDays] [("accounts", ["holder"])] none =
        .ok spareDatabase ∧
      ledger.Cheapest (ledger.Allowed [turnover, accountDays] [("accounts", ["holder"])] none)
        spareDatabase ∧
      ledger.databaseFor [turnover, accountDays] [("accounts", ["holder"])] (some 2) =
        .error (.invalidDatabaseId 2) ∧
      ¬ ∃ database, ledger.Candidate [turnover, accountDays] [("accounts", ["holder"])] database ∧
        database.id = 2 := by
  have built : build ledger.databases ledger.nodes = .ok ledger := by decide +kernel
  have source : ledger.Resolves accountDays := .intro nofun nofun
  have resolve : ∀ node ∈ [turnover, accountDays], ledger.Resolves node := by
    refine List.forall_mem_cons.2 ⟨.intro (fun _ => ?_) ?_, List.forall_mem_singleton.2 source⟩
    · exact Result.exists_eq_ok (by decide +kernel)
    · exact List.forall_mem_cons.2 ⟨source, List.forall_mem_singleton.2 (.intro nofun nofun)⟩
  have chosen : ledger.databaseFor [turnover, accountDays] [("accounts", ["holder"])] none =
      .ok spareDatabase := by decide +kernel
  have refused : ledger.databaseFor [turnover, accountDays] [("accounts", ["holder"])] (some 2) =
      .error (.invalidDatabaseId 2) := by decide +kernel
  obtain ⟨choices, _, _⟩ :=
    cheapest_candidates_are_chosen built resolve [("accounts", ["holder"])]
  obtain ⟨_, _, chooses, _⟩ := choices none
  obtain ⟨_, refuses, _, _⟩ := choices (some 2)
  obtain ⟨_, ⟨other, candidate⟩, none⟩ := (refuses 2).1 refused
  obtain ⟨database, done, cheapest⟩ := chooses ⟨other, candidate, nofun⟩
  cases Except.ok.inj (chosen.symm.trans done)
  exact ⟨built, resolve, chosen, cheapest, refused, none⟩

end SemanticLayer.Catalog
