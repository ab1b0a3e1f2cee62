import SemanticLayer.Proofs.Operations
import SemanticLayer.Proofs.Retelling

/-!
# Reading relations and joins

Tables and derived tables are read back with their aliases, and the joins chained onto them one by
one, each with its condition.
-/

namespace SemanticLayer

namespace Grammar

/-- The words that the clauses behind FROM start with, in their order. -/
def clauseWords : List String :=
  ["WHERE", "GROUP", "HAVING", "ORDER", "LIMIT", "OFFSET"]

/-- The words that a join starts with. -/
def joinWords : List String :=
  ["INNER", "LEFT", "RIGHT", "FULL", "CROSS"]

/-- Lexemes that may stand behind an entry of FROM. -/
abbrev BehindSource (lexemes : List Lexeme) : Prop :=
  Ahead [")", ","] clauseWords lexemes

/-- Lexemes that may stand behind the condition of a join. -/
abbrev BehindJoin (lexemes : List Lexeme) : Prop :=
  Ahead [")", ","] (joinWords ++ clauseWords) lexemes

/-- Lexemes that may stand behind a relation. -/
abbrev BehindRelation (lexemes : List Lexeme) : Prop :=
  Ahead [")", ","] ("ON" :: joinWords ++ clauseWords) lexemes

theorem BehindSource.behindJoin {lexemes : List Lexeme} (behind : BehindSource lexemes) :
    BehindJoin lexemes :=
  behind.mono (fun _ => id) (by decide)

theorem BehindJoin.behindRelation {lexemes : List Lexeme} (behind : BehindJoin lexemes) :
    BehindRelation lexemes :=
  behind.mono (fun _ => id) (by decide)

theorem BehindJoin.closes {lexemes : List Lexeme} (behind : BehindJoin lexemes) :
    Closes lexemes :=
  behind.mono (fun _ => id) (by decide)

namespace Reader

/-! ## Aliases -/

theorem alias?_key (excluded : List String) (name : Sql.Name) (rest : List Lexeme) :
    alias? excluded (.key "AS" :: .word name.written :: rest) = .ok (some name.reread, rest) := rfl

/-- No alias is read from a mark or from a word that is none. -/
theorem alias?_of_ahead {marks words excluded : List String} {lexemes : List Lexeme}
    (ahead : Ahead marks words lexemes) (noAs : "AS" ∉ words) (all : words ⊆ excluded) :
    alias? excluded lexemes = .ok (none, lexemes) := by
  rw [alias?, bind_of_ok (ahead.keyword? noAs), if_neg Bool.false_ne_true]
  cases lexemes with
  | nil => rfl
  | cons lexeme rest =>
      rcases ahead with ⟨text, -, rfl⟩ | ⟨keyword, found, same⟩
      · rfl
      · cases lexeme with
        | word word =>
            obtain rfl : word.keyword = keyword := by simpa [Lexeme.isKeyword] using same
            have listed : excluded.contains word.keyword = true := by simpa using all found
            simp only [listed, if_true]
        | _ => cases same

/-- The parts of a dotted name behind the first are read. -/
theorem moreParts_dots {rest : List Lexeme} (stops : startsWithMark "." rest = false)
    (words : List Word) (fuel : Nat) (enough : words.length ≤ fuel) :
    moreParts .generic fuel (Level.dots words ++ rest) = .ok (words.map Sql.nameOf, rest) := by
  induction words generalizing fuel with
  | nil =>
      have none : mark? "." rest = .ok (false, rest) := takeIf_of_false stops
      cases fuel with
      | zero => rfl
      | succ fuel => exact bind_of_ok none
  | cons word more ih =>
      obtain ⟨fuel, rfl⟩ : ∃ less, fuel = less + 1 :=
        ⟨fuel - 1, by simp only [List.length_cons] at enough; omega⟩
      have further := ih fuel (Nat.le_of_succ_le_succ enough)
      have part : identifier (.word word :: (Level.dots more ++ rest)) =
          .ok (Sql.nameOf word, Level.dots more ++ rest) := rfl
      rw [Level.dots, List.flatMap_cons, ← Level.dots, List.append_assoc, List.cons_append,
        moreParts, bind_of_ok (mark?_mark "." _), if_pos rfl, List.singleton_append,
        bind_of_ok part, bind_of_ok further]
      rfl

/-- A dotted name is read as the name of a table. -/
theorem objectName_dots {word : Word} {words : List Word} {rest : List Lexeme}
    (stops : startsWithMark "." rest = false) :
    objectName .generic (.word word :: (Level.dots words ++ rest)) =
      .ok (objectNameOf false (Sql.nameOf word) (words.map Sql.nameOf), rest) := by
  have first : identifier (.word word :: (Level.dots words ++ rest)) =
      .ok (Sql.nameOf word, Level.dots words ++ rest) := rfl
  have parts := moreParts_dots stops words _ (Level.length_dots_le words rest)
  rw [objectName, bind_of_ok first, bind_of_ok (get_apply _), if_neg (by simp [Rules.skipsDefaultSchema, Rules.isOneOf]),
    bind_of_ok parts]
  rfl

end Reader
end Grammar

namespace Sql

open Grammar (Lexeme Word Level Ahead BehindJoin BehindRelation startsWithMark)
open Grammar.Reader

/-! ## Parts of sources -/

theorem readable_of_everyJoins {joins : List Join}
    (all : everyJoins (fun part => part.HasShape ∧ part.IsLegible)
      (fun query => query.select.HasShape ∧ query.IsLegible) joins) :
    ∀ join ∈ joins, join.Readable := by
  induction joins with
  | nil => simp
  | cons join rest ih =>
      intro other found
      rcases List.mem_cons.mp found with rfl | found
      · exact all.1
      · exact ih all.2 other found

theorem depth_le_joinsDepth {joins : List Join} :
    ∀ join ∈ joins, join.depth ≤ joinsDepth joins := by
  induction joins with
  | nil => simp
  | cons join rest ih =>
      intro other found
      rw [joinsDepth]
      rcases List.mem_cons.mp found with rfl | found
      · exact Nat.le_max_left _ _
      · exact Nat.le_trans (ih other found) (Nat.le_max_right _ _)

/-! ## Relations -/

/-- An alias of a table is read back, or found missing. -/
theorem tableAlias?_aliasLexemes {level : Level} (name : Option Name) {rest : List Lexeme}
    (behind : BehindRelation rest) :
    level.tableAlias? (aliasLexemes name ++ rest) = .ok (aliasTree name, rest) := by
  cases name with
  | none =>
      have none := @alias?_of_ahead _ _ Grammar.notTableAliases _ behind (by decide) (by decide)
      rw [aliasLexemes, List.nil_append, Level.tableAlias?, bind_of_ok none]
      rfl
  | some name =>
      have columns : level.aliasColumns? rest = .ok ([], rest) := by
        rw [Level.aliasColumns?, bind_of_ok (behind.mark? (by decide))]
        rfl
      rw [aliasLexemes, Level.tableAlias?, List.cons_append, List.singleton_append,
        bind_of_ok (alias?_key _ name rest)]
      simp only []
      rw [bind_of_ok columns]
      rfl

theorem aliasLexemes_ahead (name : Option Name) {rest : List Lexeme}
    (behind : BehindRelation rest) :
    Ahead [")", ","] ("AS" :: "ON" :: Grammar.joinWords ++ Grammar.clauseWords)
      (aliasLexemes name ++ rest) := by
  cases name with
  | none => exact behind.mono (fun _ => id) (by decide)
  | some name => exact Ahead.key _ (by decide)

namespace ReadsBack

variable {level : Level} {depth : Nat} (reads : ReadsBack level depth)

include reads

/-- A table is read back by its name. -/
theorem namedTable {table : Table} {first : Name} {more : Path}
    (parts : table.path.getD [] ++ [table.name] = first :: more) {rest : List Lexeme}
    (behind : BehindRelation rest) :
    level.namedTable (.word first.written :: (Level.dots (more.map Name.written) ++
        (aliasLexemes table.aliasName ++ rest))) =
      .ok (.table ⟨(table.path.getD []).map Name.reread, table.name.reread⟩
        (aliasTree table.aliasName) none [] [], rest) := by
  have ahead := aliasLexemes_ahead table.aliasName behind
  have named : objectName .generic
      (.word first.written :: (Level.dots (more.map Name.written) ++
        (aliasLexemes table.aliasName ++ rest))) =
      .ok (⟨(table.path.getD []).map Name.reread, table.name.reread⟩,
        aliasLexemes table.aliasName ++ rest) := by
    rw [objectName_dots (ahead.startsWithMark (by decide)), map_nameOf_written]
    congr 2
    refine objectNameOf_concat ?_
    show first.reread :: more.map Name.reread = _
    have whole := congrArg (List.map Name.reread) parts
    simpa using whole.symm
  have noArguments : level.tableArguments? (aliasLexemes table.aliasName ++ rest) =
      .ok (none, aliasLexemes table.aliasName ++ rest) := by
    rw [Level.tableArguments?, bind_of_ok (ahead.mark? (by decide))]
    rfl
  have noHints : level.hints? rest = .ok ([], rest) := by
    have missing : (Grammar.startsWithKeywords ["WITH"] rest && startsWithMark "(" (rest.drop 1)) =
        false := by rw [behind.startsWithKeywords [] (by decide), Bool.false_and]
    rw [Level.hints?, bind_of_ok (ahead_apply _ _), missing]
    rfl
  rw [Level.namedTable, reads.rules, bind_of_ok named, if_pos (by decide),
    bind_of_ok (ahead.keyword? (by decide)), if_neg Bool.false_ne_true, pure_bind]
  beta_reduce
  rw [if_neg (by decide)]
  beta_reduce
  rw [bind_of_ok noArguments,
    bind_of_ok (ahead.keywords? ["ORDINALITY"] (by decide)),
    bind_of_ok (tableAlias?_aliasLexemes table.aliasName behind), bind_of_ok noHints]
  rfl

/-- What starts with a word that introduces no other kind of table is a table by its name. -/
theorem simpleFactor_eq_namedTable {word : Word} {lexemes : List Lexeme}
    (free : word.keyword ∉ ["LATERAL", "TABLE", "UNNEST"])
    (unopened : startsWithMark "(" lexemes = false) :
    level.simpleFactor (.word word :: lexemes) = level.namedTable (.word word :: lexemes) := by
  have skipped (keyword : String) (found : keyword ∈ ["LATERAL", "TABLE", "UNNEST"]) :
      keyword? keyword (.word word :: lexemes) = .ok (false, .word word :: lexemes) := by
    refine takeIf_of_false (Grammar.startsWithKeywords_of_frontKeyword_ne [] ?_)
    rintro rfl
    exact free found
  rw [Level.simpleFactor, reads.rules, bind_of_ok (skipped "LATERAL" (by decide)),
    if_neg Bool.false_ne_true, bind_of_ok (skipped "TABLE" (by decide)), if_neg Bool.false_ne_true,
    bind_of_ok (ahead_apply _ _), List.drop_succ_cons, List.drop_zero, unopened, Bool.and_false,
    Bool.and_false, if_neg Bool.false_ne_true, if_pos (by decide),
    bind_of_ok (skipped "UNNEST" (by decide))]
  rfl

/-- A table is read back. -/
theorem simpleFactor {table : Table} (shape : (Relation.table table).HasShape) {rest : List Lexeme}
    (behind : BehindRelation rest) :
    ∃ tree, level.simpleFactor ((Relation.table table).lexemes ++ rest) = .ok (tree, rest) ∧
      (Relation.table table).ToldBy tree := by
  obtain ⟨inPath, free⟩ := shape
  obtain ⟨first, more, parts⟩ : ∃ first more, table.path.getD [] ++ [table.name] = first :: more :=
    List.exists_cons_of_ne_nil (by simp)
  have named := reads.namedTable parts behind
  have ahead := aliasLexemes_ahead table.aliasName behind
  rw [parts] at free
  have noTable : first.written.keyword ≠ "TABLE" := first.written_keyword_ne (by decide)
  have unopened : startsWithMark "(" (Level.dots (more.map Name.written) ++
      (aliasLexemes table.aliasName ++ rest)) = false :=
    Level.startsWithMark_dots (by decide) _ (ahead.startsWithMark (by decide))
  refine ⟨_, ?_, Relation.toldBy_table inPath none [] []⟩
  rw [Relation.lexemes_table, parts, Path.dottedLexemes_cons, List.cons_append, List.cons_append,
    List.append_assoc, reads.simpleFactor_eq_namedTable ?_ unopened]
  · exact named
  · simpa [noTable, Path.keyword] using free

/-- A relation is read back where it stands for a table. -/
theorem factor {relation : Relation} (shape : relation.HasShape)
    (readable : relation.Readable)
    (deep : relation.depth ≤ depth) {rest : List Lexeme} (behind : BehindRelation rest)
    {fuel : Nat} (some : 0 < fuel) :
    ∃ tree, level.factorWithin fuel (relation.lexemes ++ rest) = .ok (tree, rest) ∧
      relation.ToldBy tree := by
  obtain ⟨fuel, rfl⟩ : ∃ less, fuel = less + 1 := Nat.exists_eq_add_one.mpr some
  cases relation with
  | table table =>
      obtain ⟨tree, read, told⟩ := reads.simpleFactor shape behind
      refine ⟨tree, ?_, told⟩
      have unopened : mark? "(" ((Relation.table table).lexemes ++ rest) =
          .ok (false, (Relation.table table).lexemes ++ rest) := by
        refine takeIf_of_false ?_
        rw [Relation.lexemes_table]
        rcases table.path.getD [] with - | - <;> rfl
      rw [Level.factorWithin, bind_of_ok unopened]
      exact read
  | derived query name =>
      obtain ⟨tree, read, told⟩ := reads.query query readable deep
        (.mark ")" :: (aliasLexemes name ++ rest)) (Ahead.mark _ (by decide))
      refine ⟨_, ?_, Relation.toldBy_derived told⟩
      have derived : level.derivedTable false
          (query.lexemes ++ .mark ")" :: (aliasLexemes name ++ rest)) =
          .ok (.derived false tree (aliasTree name), rest) := by
        rw [Level.derivedTable, bind_of_ok read, bind_of_ok (expectMark_mark ")" _),
          bind_of_ok (tableAlias?_aliasLexemes name behind)]
        rfl
      have tried : attempt (level.derivedTable false)
          (query.lexemes ++ .mark ")" :: (aliasLexemes name ++ rest)) =
          .ok (Option.some (.derived false tree (aliasTree name)), rest) := by
        rw [attempt, derived]
      rw [Relation.lexemes_derived, List.cons_append, List.append_assoc, List.cons_append,
        Level.factorWithin, bind_of_ok (mark?_mark "(" _), if_pos rfl, bind_of_ok tried]
      rfl

/-! ## Joins -/

omit reads in
/-- The words of a join are read, and then what it joins. -/
theorem join?_kind (factor : Grammar.Reader Grammar.TableFactor) {kind : JoinKind}
    (matched : kind ≠ .cross) :
    ∃ operator, joinKindOf operator = .ok kind ∧
      ∀ rest, level.join? factor (kind.lexemes ++ .key "JOIN" :: rest) = (do
        let relation ← factor
        let matching ← level.matching? false
        pure (some ({ operator, relation, matching } : Grammar.Join))) rest := by
  cases kind with
  | cross => exact absurd rfl matched
  | _ => exact ⟨_, rfl, fun rest => rfl⟩

omit reads in
theorem join?_cross (factor : Grammar.Reader Grammar.TableFactor) (rest : List Lexeme) :
    level.join? factor (JoinKind.cross.lexemes ++ .key "JOIN" :: rest) = (do
      let relation ← factor
      pure (some ({ operator := .cross, relation } : Grammar.Join))) rest := rfl

omit reads in
/-- No join is read behind the last one. -/
theorem join?_of_behind (factor : Grammar.Reader Grammar.TableFactor) {rest : List Lexeme}
    (behind : Grammar.BehindSource rest) : level.join? factor rest = .ok (none, rest) := by
  have stops : Level.joinOperator? false rest = .ok (none, rest) := by
    have keyword := behind.frontKeyword
    rw [Level.joinOperator?, bind_of_ok (get_apply _)]
    revert keyword
    generalize Grammar.frontKeyword rest = keyword
    intro keyword
    simp only [Grammar.clauseWords, List.mem_cons, List.not_mem_nil, or_false] at keyword
    rcases keyword with rfl | rfl | rfl | rfl | rfl | rfl | rfl <;> rfl
  rw [Level.join?, bind_of_ok (behind.keyword? (by decide)),
    bind_of_ok (behind.keyword? (by decide)), if_neg Bool.false_ne_true,
    bind_of_ok (behind.keyword? (by decide)), if_neg Bool.false_ne_true,
    bind_of_ok (behind.keyword? (by decide)), if_neg Bool.false_ne_true,
    bind_of_ok (behind.keyword? (by decide)), bind_of_ok stops]
  rfl

omit reads in
/-- Behind a join stands another, or what stands behind all of them. -/
theorem behindJoin_flatMap (joins : List Join) {rest : List Lexeme}
    (behind : Grammar.BehindSource rest) : BehindJoin (joins.flatMap Join.lexemes ++ rest) := by
  cases joins with
  | nil => exact behind.behindJoin
  | cons join joins =>
      obtain ⟨kind, relation, on⟩ := join
      cases kind <;> exact Ahead.word _ (by decide)

/-- A join is read back. -/
theorem join {join : Join} (shape : join.HasShape)
    (readable : join.Readable)
    (deep : join.depth ≤ depth) {rest : List Lexeme} (behind : BehindJoin rest)
    {fuel : Nat} (some : 0 < fuel) :
    ∃ tree, level.join? (level.factorWithin fuel) (join.lexemes ++ rest) =
        .ok (Option.some tree, rest) ∧ join.ToldBy tree := by
  obtain ⟨kind, relation, on⟩ := join
  obtain ⟨shape, operands, uncrossed⟩ := shape
  obtain ⟨readable, readableOn⟩ := readable
  obtain ⟨deep, deepOn⟩ := Nat.max_le.mp deep
  have whole : (Join.mk kind relation on).lexemes ++ rest = kind.lexemes ++ .key "JOIN" ::
      (relation.lexemes ++ (on.elim [] (fun condition => .key "ON" :: condition.lexemes) ++
        rest)) := by
    simp [Join.lexemes]
  have afterRelation : BehindRelation
      (on.elim [] (fun condition => .key "ON" :: condition.lexemes) ++ rest) := by
    cases on with
    | none => exact behind.behindRelation
    | some condition => exact Ahead.key _ (by decide)
  obtain ⟨tree, read, told⟩ := reads.factor shape readable deep afterRelation some
  rw [whole]
  by_cases crossed : kind = .cross
  · obtain rfl : on = none := uncrossed crossed
    subst crossed
    refine ⟨{ operator := .cross, relation := tree }, ?_, Join.toldBy rfl told toldBy?_none⟩
    rw [join?_cross, bind_of_ok read]
    rfl
  · obtain ⟨operator, given, words⟩ := join?_kind (level.factorWithin fuel) crossed
    obtain ⟨condition, matching, toldOn⟩ : ∃ condition, level.matching? false
        (on.elim [] (fun condition => .key "ON" :: condition.lexemes) ++ rest) =
          .ok (condition.map Grammar.Matching.on, rest) ∧ ToldBy? on condition := by
      cases on with
      | none =>
          refine ⟨none, ?_, toldBy?_none⟩
          rw [Option.elim_none, List.nil_append, Level.matching?, if_neg Bool.false_ne_true,
            bind_of_ok (behind.keyword? (by decide)), if_neg Bool.false_ne_true,
            bind_of_ok (behind.keyword? (by decide))]
          rfl
      | some condition =>
          obtain ⟨found, read, told⟩ := reads.expression readableOn (operands condition rfl) deepOn
            behind.closes
          refine ⟨Option.some found, ?_, toldBy?_some told⟩
          rw [Option.elim_some, List.cons_append, Level.matching?, if_neg Bool.false_ne_true,
            bind_of_ok (keyword?_key "ON" _), if_pos rfl]
          exact map_of_ok read
    refine ⟨_, ?_, Join.toldBy given told toldOn⟩
    rw [words, bind_of_ok read, bind_of_ok matching]
    rfl

/-- Joins are read back one by one. -/
theorem joins {joins : List Join}
    (each : ∀ join ∈ joins, join.HasShape ∧ join.Readable ∧ join.depth ≤ depth)
    {rest : List Lexeme} (behind : Grammar.BehindSource rest) {fuel : Nat} (some : 0 < fuel)
    (steps : Nat) (enough : joins.length ≤ steps) :
    ∃ trees, level.joins (level.factorWithin fuel) steps (joins.flatMap Join.lexemes ++ rest) =
        .ok (trees, rest) ∧ List.Forall₂ Join.ToldBy joins trees := by
  induction joins generalizing steps with
  | nil =>
      refine ⟨[], ?_, .nil⟩
      cases steps with
      | zero => rfl
      | succ steps =>
          rw [List.flatMap_nil, List.nil_append, Level.joins, bind_of_ok (join?_of_behind _ behind)]
          rfl
  | cons join joins ih =>
      obtain ⟨steps, rfl⟩ : ∃ less, steps = less + 1 :=
        ⟨steps - 1, by simp only [List.length_cons] at enough; omega⟩
      obtain ⟨shape, readable, deep⟩ := each join List.mem_cons_self
      obtain ⟨tree, read, told⟩ :=
        reads.join shape readable deep (behindJoin_flatMap joins behind) some
      obtain ⟨trees, further, toldAll⟩ :=
        ih (fun other found => each other (List.mem_cons_of_mem _ found)) steps
          (Nat.le_of_succ_le_succ enough)
      refine ⟨tree :: trees, ?_, .cons told toldAll⟩
      rw [List.flatMap_cons, List.append_assoc, Level.joins, bind_of_ok read]
      simp only []
      rw [bind_of_ok further]
      rfl

omit reads in
theorem length_le_joins (joins : List Join) (rest : List Lexeme) :
    joins.length ≤ (joins.flatMap Join.lexemes ++ rest).length := by
  induction joins with
  | nil => exact Nat.zero_le _
  | cons join joins ih =>
      simp only [List.flatMap_cons, List.length_append, List.length_cons, Join.lexemes] at ih ⊢
      omega

omit reads in
theorem length_relation_pos (relation : Relation) : 0 < relation.lexemes.length := by
  cases relation with
  | table table =>
      rw [Relation.lexemes_table, Path.dottedLexemes_concat]
      simp only [List.length_append, List.length_singleton]
      omega
  | derived query name => simp [Relation.lexemes_derived]

/-- An entry of FROM is read back. -/
theorem tableWithJoins {source : Source} (shape : source.HasShape)
    (readable : source.Readable)
    (deep : source.depth ≤ depth) {rest : List Lexeme} (behind : Grammar.BehindSource rest) :
    ∃ tree, level.tableWithJoins (source.lexemes ++ rest) = .ok (tree, rest) ∧
      source.ToldBy tree := by
  obtain ⟨primary, joins⟩ := source
  obtain ⟨shape, shapes⟩ := shape
  obtain ⟨readable, readableJoins⟩ := readable
  obtain ⟨deep, deepJoins⟩ := Nat.max_le.mp deep
  have each : ∀ join ∈ joins, join.HasShape ∧ join.Readable ∧ join.depth ≤ depth := fun join found =>
    ⟨shapes join found, readable_of_everyJoins readableJoins join found,
      Nat.le_trans (depth_le_joinsDepth join found) deepJoins⟩
  have whole : (Source.mk primary joins).lexemes ++ rest =
      primary.lexemes ++ (joins.flatMap Join.lexemes ++ rest) := by
    rw [Source.lexemes, List.append_assoc]
  have some : 0 < (primary.lexemes ++ (joins.flatMap Join.lexemes ++ rest)).length := by
    have first := length_relation_pos primary
    rw [List.length_append]
    omega
  obtain ⟨tree, read, told⟩ :=
    reads.factor shape readable deep (behindJoin_flatMap joins behind).behindRelation some
  obtain ⟨trees, further, toldJoins⟩ :=
    reads.joins each behind some _ (length_le_joins joins rest)
  refine ⟨_, ?_, Source.toldBy told toldJoins⟩
  rw [whole, Level.tableWithJoins, bind_of_ok (get_apply _), Level.joined, bind_of_ok read,
    bind_of_ok (get_apply _), bind_of_ok further]
  rfl

end ReadsBack
end Sql
end SemanticLayer
