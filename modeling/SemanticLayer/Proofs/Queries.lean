import SemanticLayer.Proofs.Clauses

/-!
# Reading queries

A SELECT is read back from its clauses, one behind the other, and a query from the named queries in
front of its SELECT and from what orders and counts its rows.
-/

namespace SemanticLayer

namespace Grammar.Level

open Reader

/-- The query that starts with SELECT is a row set and what stands behind that, which may be
nothing. -/
theorem wholeQuery_of_body (level : Level) (lexemes : List Lexeme) :
    ∃ further : Body → Reader Query,
      level.wholeQuery (.key "SELECT" :: lexemes) =
        (level.body >>= further) (.key "SELECT" :: lexemes) ∧
      ∀ body, further body [] = .ok ({ body }, []) := by
  have missing (keyword : String) (differs : ("SELECT" == keyword) = false) :
      keyword? keyword (.key "SELECT" :: lexemes) = .ok (false, .key "SELECT" :: lexemes) := by
    refine takeIf_of_false ?_
    rw [startsWithKeywords_cons, Lexeme.isKeyword_key, differs, Bool.false_and]
  rw [wholeQuery, bind_of_ok (missing "WITH" (by decide))]
  simp only [Bool.false_eq_true, if_false]
  rw [bind_of_ok (pure_apply _ _), bind_of_ok (pure_apply _ _),
    bind_of_ok (missing "INSERT" (by decide)), if_neg Bool.false_ne_true,
    bind_of_ok (missing "UPDATE" (by decide)), if_neg Bool.false_ne_true]
  refine ⟨_, rfl, fun body => ?_⟩
  obtain ⟨rules, expr, query⟩ := level
  rcases rules with _ | dialect
  · rfl
  · cases dialect <;> rfl

end Grammar.Level

namespace Sql

open Grammar (Lexeme Level Ahead Continues clauseWords)
open Grammar.Reader

/-! ## The parts of a query -/

/-- Whether every part of a SELECT can be read back by the readers of a level. -/
structure Select.ReadableAt (select : Select) (depth : Nat) : Prop where
  projection : ∀ item ∈ select.projection, item.Readable ∧ item.depth < depth
  sources : ∀ source ∈ select.sources.getD [], source.Readable ∧ source.depth ≤ depth
  filter : ∀ part ∈ select.filter, part.Readable ∧ part.depth < depth
  groupBy : ∀ key ∈ select.groupBy, key.Readable ∧ key.depth < depth
  having : ∀ part ∈ select.having, part.Readable ∧ part.depth < depth
  orderBy : ∀ ordering ∈ select.orderBy, ordering.expr.Readable ∧ ordering.expr.depth < depth

theorem readable_of_everySources {sources : Option (List Source)} {depth : Nat}
    (all : everySources? (fun part => part.HasShape ∧ part.IsLegible)
      (fun query => query.select.HasShape ∧ query.IsLegible) sources)
    (deep : sourcesDepth? sources ≤ depth) :
    ∀ source ∈ sources.getD [], source.Readable ∧ source.depth ≤ depth := by
  cases sources with
  | none => simp
  | some sources =>
      rw [sourcesDepth?] at deep
      induction sources with
      | nil => simp
      | cons source rest ih =>
          intro other found
          obtain ⟨first, others⟩ := all
          rw [sourcesDepth, Nat.max_le] at deep
          rcases List.mem_cons.mp found with rfl | found
          · exact ⟨first, deep.1⟩
          · exact ih others deep.2 other found

theorem depth_lt_orderingsDepth {orderings : List Ordering} :
    ∀ ordering ∈ orderings, ordering.expr.depth < orderingsDepth orderings := by
  induction orderings with
  | nil => simp
  | cons first rest ih =>
      intro ordering found
      rw [orderingsDepth]
      rcases List.mem_cons.mp found with rfl | found
      · obtain ⟨expr, ascending, nullsFirst⟩ := ordering
        exact Nat.lt_of_lt_of_le (Nat.lt_succ_self _) (Nat.le_max_left _ _)
      · exact Nat.lt_of_lt_of_le (ih ordering found) (Nat.le_max_right _ _)

theorem readable_of_everyCtes {ctes : List Cte} {depth : Nat}
    (all : everyCtes (fun part => part.HasShape ∧ part.IsLegible)
      (fun query => query.select.HasShape ∧ query.IsLegible) ctes)
    (deep : ctesDepth ctes ≤ depth) :
    ∀ cte ∈ ctes, cte.query.Readable ∧ cte.query.depth < depth := by
  induction ctes with
  | nil => simp
  | cons cte rest ih =>
      intro other found
      obtain ⟨first, others⟩ := all
      rw [ctesDepth, Nat.max_le] at deep
      rcases List.mem_cons.mp found with rfl | found
      · obtain ⟨name, query⟩ := other
        exact ⟨first, deep.1⟩
      · exact ih others deep.2 other found

/-- The parts of a query that can be read back can be. -/
theorem Query.Readable.select {query : Query} (readable : query.Readable) {depth : Nat}
    (deep : query.depth ≤ depth) : query.select.ReadableAt depth := by
  obtain ⟨ctes, distinct, projection, sources, filter, groupBy, having, orderBy, limit, offset⟩ :=
    query
  obtain ⟨-, -, items, tables, filtered, keys, kept, ordered⟩ := readable
  simp only [Query.depth, Select.depth, Nat.max_le] at deep
  obtain ⟨-, ⟨⟨deepItems, deepTables⟩, deepFilter, deepKeys⟩, deepHaving, deepOrderings⟩ := deep
  exact
    { projection := fun item found => ⟨readable_of_everyExprs items item found,
        Nat.lt_of_lt_of_le (depth_lt_depthBelow item found) deepItems⟩
      sources := readable_of_everySources tables deepTables
      filter := fun part found => ⟨readable_of_everyExpr? filtered part found,
        Nat.lt_of_lt_of_le (depth_lt_depthBelow? part found) deepFilter⟩
      groupBy := fun key found => ⟨readable_of_everyExprs keys key found,
        Nat.lt_of_lt_of_le (depth_lt_depthBelow key found) deepKeys⟩
      having := fun part found => ⟨readable_of_everyExpr? kept part found,
        Nat.lt_of_lt_of_le (depth_lt_depthBelow? part found) deepHaving⟩
      orderBy := fun ordering found => ⟨ReadsBack.readable_of_everyOrderings ordered ordering found,
        Nat.lt_of_lt_of_le (depth_lt_orderingsDepth ordering found) deepOrderings⟩ }

/-- The named queries of a query that can be read back can be. -/
theorem Query.Readable.ctes {query : Query} (readable : query.Readable) {depth : Nat}
    (deep : query.depth ≤ depth) :
    ∀ cte ∈ query.ctes, cte.query.Readable ∧ cte.query.depth < depth := by
  obtain ⟨ctes, select⟩ := query
  rw [Query.depth, Nat.max_le] at deep
  exact readable_of_everyCtes readable.2.1 deep.1

namespace ReadsBack

variable {level : Level} {depth : Nat} (reads : ReadsBack level depth)

include reads

/-! ## SELECT -/

omit reads in
theorem listBehind_of_continues {words : List String} {rest : List Lexeme}
    (continues : Continues words rest) {keyword : String} (keywords : List String)
    (other : keyword ∉ words) : level.listBehind (keyword :: keywords) rest = .ok ([], rest) := by
  rw [Level.listBehind, bind_of_ok (continues.keywords? keywords other)]
  rfl

/-- A SELECT is read back from its clauses, up to what orders its rows. -/
theorem select {select : Select} (shape : select.HasShape) (parts : select.ReadableAt depth)
    (item : ∀ item ∈ select.projection.head?, item.nameKeyword ≠ "TOP") {rest : List Lexeme}
    (continues : Continues ["ORDER", "LIMIT", "OFFSET"] rest) :
    ∃ items tables filter keys having,
      level.select ((if select.distinct then [.key "DISTINCT"] else []) ++
        (commaJoined (select.projection.map Expr.lexemes) ++
        (clauseLexemes ["FROM"] ((select.sources.getD []).map Source.lexemes) ++
        (clauseLexemes ["WHERE"] (select.filter.toList.map Expr.lexemes) ++
        (clauseLexemes ["GROUP", "BY"] (select.groupBy.map Expr.lexemes) ++
        (clauseLexemes ["HAVING"] (select.having.toList.map Expr.lexemes) ++ rest)))))) =
        .ok ({ distinct := if select.distinct then .distinct else .all, projection := items
               sources := tables, filter, groupBy := some keys, having }, rest) ∧
      List.Forall₂ Expr.ToldByItem select.projection items ∧
      List.Forall₂ Source.ToldBy (select.sources.getD []) tables ∧
      ToldBy? select.filter filter ∧ List.Forall₂ Expr.ToldBy select.groupBy keys ∧
      ToldBy? select.having having := by
  -- what stands behind each clause, from the last to the first
  have behindGroups : Continues ["HAVING", "ORDER", "LIMIT", "OFFSET"]
      (clauseLexemes ["HAVING"] (select.having.toList.map Expr.lexemes) ++ rest) :=
    continues.clause [] (by decide) (by decide) _
  have behindFilter : Continues ["GROUP", "HAVING", "ORDER", "LIMIT", "OFFSET"] _ :=
    behindGroups.clause ["BY"] (by decide : "GROUP" ∈ _) (by decide)
      (select.groupBy.map Expr.lexemes)
  have behindSources : Continues clauseWords _ :=
    behindFilter.clause [] (by decide : "WHERE" ∈ clauseWords) (by decide)
      (select.filter.toList.map Expr.lexemes)
  have behindItems : Continues ("FROM" :: clauseWords) _ :=
    behindSources.clause [] (by decide : "FROM" ∈ "FROM" :: clauseWords) (by decide)
      ((select.sources.getD []).map Source.lexemes)
  obtain ⟨first, more, whole⟩ := List.exists_cons_of_ne_nil shape.projection
  have start : ∃ tail, commaJoined (select.projection.map Expr.lexemes) = first.lexemes ++ tail :=
    ⟨_, by rw [whole, List.map_cons, commaJoined_cons]⟩
  obtain ⟨readableFirst, -⟩ := parts.projection first (by simp [whole])
  have noTop : first.nameKeyword ≠ "TOP" := item first (by simp [whole])
  obtain ⟨items, readItems, toldItems⟩ :=
    reads.projection shape.projection parts.projection behindItems
  obtain ⟨tables, readTables, toldTables⟩ := reads.sources
    (fun source found => ⟨shape.source source found, parts.sources source found⟩) behindSources
  obtain ⟨filter, readFilter, toldFilter⟩ := reads.condition "WHERE"
    (fun part found => ⟨(parts.filter part found).1, shape.filter part found,
      (parts.filter part found).2⟩) behindFilter (by decide) (by decide)
  obtain ⟨keys, readKeys, toldKeys⟩ := reads.grouping?
    (fun key found => ⟨(parts.groupBy key found).1, (shape.groupBy key found).1,
      (shape.groupBy key found).2, (parts.groupBy key found).2⟩) behindGroups
  obtain ⟨having, readHaving, toldHaving⟩ := reads.condition "HAVING"
    (fun part found => ⟨(parts.having part found).1, shape.having part found,
      (parts.having part found).2⟩) continues (by decide) (by decide)
  refine ⟨items, tables, filter, keys, having, ?_, toldItems, toldTables, toldFilter, toldKeys,
    toldHaving⟩
  obtain ⟨tail, start⟩ := start
  rw [start, List.append_assoc] at readItems ⊢
  have plain : (level.rules.isOneOf [.bigQuery]) = false := by
    rw [reads.rules]
    rfl
  have noWindows : level.windows? rest = .ok ([], rest) := by
    rw [Level.windows?, bind_of_ok (continues.keyword? (by decide))]
    rfl
  rw [Level.select]
  simp only [plain, Bool.false_eq_true, if_false]
  rw [bind_of_ok (distinct select.distinct readableFirst _),
    bind_of_ok (top? readableFirst noTop _)]
  simp only []
  rw [bind_of_ok readItems, Level.into?, bind_of_ok (behindItems.behind? _ (by decide)),
    bind_of_choice readTables, if_pos reads.rules,
    bind_of_ok (behindSources.behind? _ (by decide)), bind_of_ok readFilter, bind_of_ok readKeys,
    bind_of_ok (listBehind_of_continues behindGroups ["BY"] (by decide)),
    bind_of_ok (listBehind_of_continues behindGroups ["BY"] (by decide)),
    bind_of_ok (listBehind_of_continues behindGroups ["BY"] (by decide)),
    bind_of_ok readHaving, bind_of_ok noWindows,
    bind_of_ok (continues.behind? _ (by decide)), if_pos List.isEmpty_nil,
    bind_of_ok noWindows]
  rfl

/-! ## Named queries -/

/-- A named query is read back in front of a comma or of what may use it. -/
theorem cte {cte : Cte} (readable : cte.query.Readable) (deep : cte.query.depth < depth)
    {rest : List Lexeme} (stands : Ahead [","] ["SELECT"] rest) :
    ∃ tree, level.cte (cte.lexemes ++ rest) = .ok (tree, rest) ∧ cte.ToldBy tree := by
  obtain ⟨name, query⟩ := cte
  obtain ⟨tree, read, told⟩ := reads.query query readable deep (.mark ")" :: rest)
    (Ahead.mark rest (by decide))
  refine ⟨_, ?_, Cte.toldBy told⟩
  obtain ⟨behindName, whole⟩ : ∃ behind : List Lexeme,
      behind = .key "AS" :: .mark "(" :: (query.lexemes ++ .mark ")" :: rest) := ⟨_, rfl⟩
  have named : identifier (.word name.written :: behindName) = .ok (name.reread, behindName) := rfl
  have columns : level.aliasColumns? behindName = .ok ([], behindName) := by
    rw [whole]
    rfl
  have plain : level.rules.isOneOf [.postgres] = false := by
    rw [reads.rules]
    rfl
  have start : (Cte.mk name query).lexemes ++ rest = .word name.written :: behindName := by
    simp [Cte.lexemes, whole]
  rw [start, Level.cte, bind_of_ok named, bind_of_ok columns, whole,
    bind_of_ok (expectKeyword_key "AS" _), plain, if_neg Bool.false_ne_true]
  beta_reduce
  rw [bind_of_ok (parenthesized_of_ok read), bind_of_ok (stands.behind? _ (by decide))]
  rfl

/-! ## Queries -/

omit reads in
theorem select_lexemes_append (select : Select) (rest : List Lexeme) :
    select.lexemes ++ rest = .key "SELECT" ::
      ((if select.distinct then [.key "DISTINCT"] else []) ++
        (commaJoined (select.projection.map Expr.lexemes) ++
        (clauseLexemes ["FROM"] ((select.sources.getD []).map Source.lexemes) ++
        (clauseLexemes ["WHERE"] (select.filter.toList.map Expr.lexemes) ++
        (clauseLexemes ["GROUP", "BY"] (select.groupBy.map Expr.lexemes) ++
        (clauseLexemes ["HAVING"] (select.having.toList.map Expr.lexemes) ++
        (clauseLexemes ["ORDER", "BY"] (select.orderBy.map Ordering.lexemes) ++
        (countLexemes "LIMIT" select.limit ++ (countLexemes "OFFSET" select.offset ++ rest))))))))) := by
  simp only [Select.lexemes, List.cons_append, List.append_assoc]

/-- The named queries in front of a SELECT are read back, or found missing. -/
theorem withClause {ctes : List Cte}
    (each : ∀ cte ∈ ctes, cte.query.Readable ∧ cte.query.depth < depth)
    (first : ∀ cte ∈ ctes.head?, cte.name.written.keyword ≠ "RECURSIVE") {rest : List Lexeme}
    (stands : Ahead [] ["SELECT"] rest) :
    ∃ trees, List.Forall₂ Cte.ToldBy ctes trees ∧
      ∀ {α : Type} (further : Bool → List Grammar.Cte → Grammar.Reader α),
        (do
          let withClause ← keyword? "WITH"
          let recursive ← if withClause then keyword? "RECURSIVE" else pure false
          let ctes ← if withClause then Grammar.Reader.commaSeparated level.rules level.cte
            else pure []
          further recursive ctes) (clauseLexemes ["WITH"] (ctes.map Cte.lexemes) ++ rest) =
        further false trees rest := by
  cases ctes with
  | nil =>
      refine ⟨[], .nil, fun further => ?_⟩
      rw [List.map_nil, clauseLexemes, if_pos rfl, List.nil_append,
        bind_of_ok (stands.keyword? (by decide))]
      rfl
  | cons cte more =>
      obtain ⟨trees, read, told⟩ := separated_told (fun _ : List Lexeme => rfl)
        (stands.startsWithMark (by decide)) (List.cons_ne_nil cte more)
        fun found listed behind next => by
          obtain ⟨readable, deep⟩ := each found listed
          refine reads.cte readable deep ?_
          rcases next with ⟨more, rfl⟩ | rfl
          · exact Ahead.mark more (by decide)
          · exact stands.mono (by simp) fun _ => id
      refine ⟨trees, told, fun further => ?_⟩
      have noRecursion : keyword? "RECURSIVE" (commaJoined ((cte :: more).map Cte.lexemes) ++ rest) =
          .ok (false, commaJoined ((cte :: more).map Cte.lexemes) ++ rest) := by
        have other : cte.name.written.keyword ≠ "RECURSIVE" := first cte rfl
        refine takeIf_of_false (Grammar.startsWithKeywords_of_frontKeyword_ne [] ?_)
        rw [List.map_cons, commaJoined_cons]
        exact other
      rw [clauseLexemes, if_neg (by simp), List.map_singleton, List.cons_append, List.nil_append,
        List.cons_append, bind_of_ok (keyword?_key "WITH" _), if_pos rfl, bind_of_ok noRecursion]
      beta_reduce
      rw [if_pos rfl, reads.commaSeparated_eq, bind_of_ok read]

omit reads in
/-- A row set that is a SELECT is read from it where no operator combines it with another. -/
theorem body_select {lexemes rest : List Lexeme} {tree : Grammar.Select}
    (read : level.select lexemes = .ok (tree, rest))
    (continues : Continues ["ORDER", "LIMIT", "OFFSET"] rest) :
    level.body (.key "SELECT" :: lexemes) = .ok (.select tree, rest) := by
  have simple : level.simpleBody (.key "SELECT" :: lexemes) = .ok (.select tree, rest) := by
    rw [Level.simpleBody, bind_of_ok (keyword?_key "SELECT" lexemes), if_pos rfl]
    exact map_of_ok read
  have uncombined : Level.setOperator? rest = none := by
    cases rest with
    | nil => rfl
    | cons lexeme more =>
        have other (keyword : String) (missing : keyword ∉ ["ORDER", "LIMIT", "OFFSET"]) :
            lexeme.isKeyword keyword = false := by
          have starts := continues.startsWithKeywords [] missing
          rwa [Grammar.startsWithKeywords_cons, Grammar.startsWithKeywords_nil,
            Bool.and_true] at starts
        rw [Level.setOperator?, other "UNION" (by decide), other "EXCEPT" (by decide),
          other "INTERSECT" (by decide)]
        rfl
  have combined (right : Grammar.SetOperator → Option (Grammar.Reader Grammar.Body)) (fuel : Nat)
      (left : Grammar.Body) : Level.combinedWith right fuel left rest = .ok (left, rest) := by
    cases fuel with
    | zero => rfl
    | succ fuel =>
        rw [Level.combinedWith, bind_of_ok (get_apply rest), uncombined]
        rfl
  rw [Level.body, bind_of_ok simple, bind_of_ok (get_apply rest)]
  exact combined _ _ _

/-- A query is read back. -/
theorem wholeQuery {query : Query} (readable : query.Readable) (deep : query.depth ≤ depth) :
    query.ReadBy level.wholeQuery := by
  obtain ⟨ctes, select⟩ := query
  obtain ⟨shape, legible⟩ := readable.1
  have parts := readable.select deep
  have named := readable.ctes deep
  intro rest stands
  replace stands : Continues [] rest := stands
  have positive : 0 < depth :=
    Nat.zero_lt_of_lt (parts.projection _ (List.head_mem shape.projection)).2
  -- what stands behind each clause, from the last to the first
  have behindLimit : Continues ["OFFSET"] (countLexemes "OFFSET" select.offset ++ rest) :=
    stands.count (by decide) (by simp) _
  have behindOrder : Continues ["LIMIT", "OFFSET"] (countLexemes "LIMIT" select.limit ++ _) :=
    behindLimit.count (by decide) (by decide) _
  have behindHaving : Continues ["ORDER", "LIMIT", "OFFSET"] _ :=
    behindOrder.clause ["BY"] (by decide : "ORDER" ∈ _) (by decide)
      (select.orderBy.map Ordering.lexemes)
  obtain ⟨cteTrees, toldCtes, readCtes⟩ := reads.withClause named legible.cte
    (Ahead.key _ (by decide : "SELECT" ∈ ["SELECT"]))
  obtain ⟨items, tables, filter, keys, having, readSelect, toldItems, toldTables, toldFilter,
    toldKeys, toldHaving⟩ := reads.select shape parts legible.item behindHaving
  obtain ⟨orderings, readOrderings, toldOrderings⟩ := reads.orderings?
    (fun ordering found => ⟨(parts.orderBy ordering found).1, shape.orderBy ordering found,
      (parts.orderBy ordering found).2⟩) behindOrder
  have told := Query.toldBy toldCtes toldItems shape.sources toldTables toldFilter toldKeys
    toldHaving toldOrderings legible.limit legible.offset
  refine ⟨_, ?_, told⟩
  rw [Query.lexemes_eq, List.append_assoc, select_lexemes_append, Level.wholeQuery]
  refine (readCtes _).trans ?_
  have noInsert (lexemes : List Lexeme) : keyword? "INSERT" (.key "SELECT" :: lexemes) =
      .ok (false, .key "SELECT" :: lexemes) := rfl
  have noUpdate (lexemes : List Lexeme) : keyword? "UPDATE" (.key "SELECT" :: lexemes) =
      .ok (false, .key "SELECT" :: lexemes) := rfl
  have noSettings : level.settings? rest = .ok ((), rest) := by
    rw [Level.settings?, if_pos reads.rules, bind_of_ok (stands.keyword? (by decide))]
    rfl
  have noLocks (fuel : Nat) : level.locks fuel rest = .ok ([], rest) := by
    cases fuel with
    | zero => rfl
    | succ fuel =>
        rw [Level.locks, bind_of_ok (stands.keyword? (by decide))]
        rfl
  have noFormat : level.format? rest = .ok (none, rest) := by
    rw [Level.format?, if_pos reads.rules, bind_of_ok (stands.keyword? (by decide))]
    rfl
  rw [bind_of_ok (noInsert _), if_neg Bool.false_ne_true, bind_of_ok (noUpdate _),
    if_neg Bool.false_ne_true, bind_of_ok (body_select readSelect behindHaving),
    bind_of_ok readOrderings, bind_of_ok (reads.page positive stands),
    bind_of_ok (page_again _ _ stands), if_pos reads.rules,
    bind_of_ok (listBehind_of_continues stands [] (by decide))]
  beta_reduce
  rw [bind_of_ok noSettings, bind_of_ok (stands.behind? _ (by decide)), bind_of_ok (get_apply rest),
    bind_of_ok (noLocks _), bind_of_ok noFormat]
  rfl

end ReadsBack

end Sql
end SemanticLayer
