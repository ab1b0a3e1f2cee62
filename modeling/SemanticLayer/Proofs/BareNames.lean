import SemanticLayer.Proofs.BareWords
import SemanticLayer.Proofs.Identifiers

/-!
# Bare names read back

A name that is written without quotes is read back as what it is written for, unless the grammar
takes the word for one of its own. When it does is told for each of the places that a name is
written in: as a column, as an alias and as a table.
-/

namespace SemanticLayer.Sql

open Grammar (Word Lexeme Level Closes BehindRelation)
open Grammar.Reader

variable {value : String}

/-! ## SELECTs behind their keyword -/

section

variable {level : Level} {depth : Nat} {lexemes rest : List Lexeme}

/-- Rows are kept as they are in front of a projection that starts with no word of another kind. -/
theorem distinct_all (front : Grammar.frontKeyword lexemes ∉ ["ALL", "DISTINCT"]) :
    level.distinct lexemes = .ok (.all, lexemes) := by
  have missing (keyword : String) (listed : keyword ∈ ["ALL", "DISTINCT"]) :
      keyword? keyword lexemes = .ok (false, lexemes) := by
    refine takeIf_of_false (Grammar.startsWithKeywords_of_frontKeyword_ne [] ?_)
    rintro rfl
    exact front listed
  rw [Level.distinct, bind_of_ok (missing "ALL" (by decide)),
    bind_of_ok (missing "DISTINCT" (by decide))]
  rfl

/-- A SELECT is a count of rows, a projection and what stands behind that, which may be entries of
FROM alone. -/
theorem select_steps (reads : ReadsBack level depth)
    (front : Grammar.frontKeyword lexemes ∉ ["ALL", "DISTINCT"]) :
    ∃ further : Option Grammar.Expr × List String → List Grammar.SelectItem →
        Grammar.Reader Grammar.Select,
      level.select lexemes = (do
        let top ← level.top?
        let items ← level.projection
        further top items) lexemes ∧
      ∀ items rest, Grammar.startsWithKeywords ["INTO"] rest = false →
        (∀ tables,
          (do if ← keyword? "FROM" then level.sources else pure []) rest = .ok (tables, []) →
          further (none, []) items rest =
            .ok ({ distinct := .all, projection := items, sources := tables }, [])) ∧
        ∀ failure,
          (do if ← keyword? "FROM" then level.sources else pure []) rest = .error failure →
          further (none, []) items rest = .error failure := by
  have distinct := @distinct_all level _ front
  obtain ⟨rules, expr, query⟩ := level
  obtain rfl : rules = .generic := reads.rules
  have plain : Grammar.Rules.generic.isOneOf [.bigQuery] = false := rfl
  rw [Level.select]
  simp only [plain, Bool.false_eq_true, if_false]
  rw [bind_of_ok distinct]
  refine ⟨_, rfl, fun items rest noInto => ?_⟩
  have into (level : Level) : level.into? rest = .ok (none, rest) := by
    have missing : keywords? ["INTO"] rest = .ok (false, rest) := takeIf_of_false noInto
    rw [Level.into?, Grammar.Reader.behind?, bind_of_ok missing]
    rfl
  rw [bind_of_ok (into _)]
  constructor
  · intro tables sources
    rw [bind_of_choice sources]
    -- behind FROM the text has ended, so that no further clause is found
    rfl
  · intro failure sources
    exact bind_of_failed_choice sources

/-- No count of rows is read in front of a projection that does not start with TOP. -/
theorem top?_none (front : Grammar.frontKeyword lexemes ≠ "TOP") :
    level.top? lexemes = .ok ((none, []), lexemes) := by
  have missing : keyword? "TOP" lexemes = .ok (false, lexemes) :=
    takeIf_of_false (Grammar.startsWithKeywords_of_frontKeyword_ne [] front)
  rw [Level.top?, bind_of_ok missing]
  rfl

/-- One relation at the end is the whole of FROM. -/
theorem sources_of_factor {factor : Grammar.TableFactor}
    (read : level.factorWithin lexemes.length lexemes = .ok (factor, [])) :
    level.sources lexemes = .ok ([{ relation := factor, joins := [] }], []) := by
  have table : level.tableWithJoins lexemes =
      .ok ({ relation := factor, joins := [] }, []) := by
    rw [Level.tableWithJoins, bind_of_ok (get_apply _)]
    exact bind_of_ok read
  exact bind_of_ok table

/-- No FROM is read where its first relation is not. -/
theorem sources_of_unread {failure : Grammar.Failure}
    (unread : level.factorWithin lexemes.length lexemes = .error failure) :
    level.sources lexemes = .error failure := by
  have table : level.tableWithJoins lexemes = .error failure := by
    rw [Level.tableWithJoins, bind_of_ok (get_apply _)]
    exact bind_of_error unread
  exact bind_of_error table

/-- One entry is the whole projection where no comma stands behind it. -/
theorem projection_of_item {item : Grammar.SelectItem}
    (read : level.selectItem lexemes = .ok (item, rest))
    (last : Grammar.startsWithMark "," rest = false) :
    level.projection lexemes = .ok ([item], rest) := by
  have noMore (fuel : Nat) : moreItems (fun others => level.rules.endsProjectionsByComma &&
      Grammar.endsList others) level.selectItem fuel rest = .ok ([], rest) := by
    cases fuel with
    | zero => rfl
    | succ fuel =>
        have missing : mark? "," rest = .ok (false, rest) := takeIf_of_false last
        rw [moreItems, bind_of_ok missing]
        rfl
  rw [Level.projection, separated, bind_of_ok read, bind_of_ok (get_apply rest),
    bind_of_ok (noMore _)]
  rfl

end

/-! ## Texts -/

section

variable {text : String} {lexemes : List Lexeme}

/-- A text is read as the SELECT that is read behind its first word. -/
theorem ofText_of_select {tree : Grammar.Select}
    (cut : Lexeme.ofText? .generic text = some (.key "SELECT" :: lexemes))
    (read : (Level.ofDepth .generic 48).select lexemes = .ok (tree, [])) :
    Query.ofText text none = queryOf { body := .select tree } := by
  obtain ⟨further, whole, last⟩ := (Level.ofDepth .generic 48).wholeQuery_of_body lexemes
  refine @Query.ofText_of_lexemes none _ _ _ cut rfl (whole.trans ?_)
  rw [bind_of_ok (ReadsBack.body_select read Grammar.Ahead.nil), last]

/-- A text is not read if no SELECT is behind its first word. -/
theorem ofText_of_unread {failure : Grammar.Failure}
    (cut : Lexeme.ofText? .generic text = some (.key "SELECT" :: lexemes))
    (unread : (Level.ofDepth .generic 48).select lexemes = .error failure) :
    Query.ofText text none = .error .unreadableSql := by
  obtain ⟨further, whole, -⟩ := (Level.ofDepth .generic 48).wholeQuery_of_body lexemes
  have simple : (Level.ofDepth .generic 48).simpleBody (.key "SELECT" :: lexemes) =
      .error failure := by
    rw [Level.simpleBody, bind_of_ok (keyword?_key "SELECT" lexemes), if_pos rfl,
      map_apply, unread]
  have body : (Level.ofDepth .generic 48).body (.key "SELECT" :: lexemes) = .error failure :=
    bind_of_error simple
  have query : (Level.ofDepth .generic 49).query (.key "SELECT" :: lexemes) = .error failure :=
    whole.trans (bind_of_error body)
  have statement : (Level.ofDepth .generic 49).statement (.key "SELECT" :: lexemes) =
      .error failure := by
    rw [Level.statement, bind_of_ok (get_apply _)]
    show (Grammar.Statement.query <$> (Level.ofDepth .generic 49).query) _ = _
    rw [map_apply, query]
  have statements (fuel : Nat) : (Level.ofDepth .generic 49).statements (fuel + 1)
      (.key "SELECT" :: lexemes) = .error failure := by
    have first : (modify Level.afterSemicolons : Grammar.Reader PUnit)
        (.key "SELECT" :: lexemes) = .ok (⟨⟩, .key "SELECT" :: lexemes) := rfl
    rw [Level.statements, bind_of_ok first, bind_of_ok (ahead_apply _ _), List.isEmpty_cons,
      if_neg Bool.false_ne_true]
    exact bind_of_error statement
  have nothing : Grammar.statements? .generic text = none := by
    have depthLimit : Grammar.depthLimit - 1 = 49 := rfl
    rw [Grammar.statements?, cut, Option.bind_some, depthLimit, statements]
  have unreadable : statementsOf text none = .error .unreadableSql := by
    have rules : Grammar.Rules.ofDialect? none = .generic := rfl
    rw [statementsOf, rules, nothing]
  rw [Query.ofText, singleQueryOf, unreadable]
  rfl

/-! ## Names where they are written -/

/-- The query of a column of a name. -/
def columnNamed (value : String) : Query :=
  { select := { projection := [.column { name := { value } }] } }

/-- The query of a number under an alias of a name. -/
def aliasNamed (value : String) : Query :=
  { select := { projection := [.aliased { value } (.literal (.int 1))] } }

/-- The query of all columns of a table of a name. -/
def tableNamed (value : String) : Query :=
  { select :=
      { projection := [.wildcard none], sources := some [{ primary := .table { name := { value } } }] } }

/-- A query that ends with a bare name is written so, and the text is cut into its lexemes. -/
theorem text_of_named (before : String) (bare : needsQuoting value = false) {query : Query}
    {front : Tokens} {words : List Lexeme}
    (tokens : query.tokens .duckDb = front ++ [.name value false])
    (lexemes : query.lexemes = words ++ [.word (Name.written { value })])
    (written : Tokens.text .duckDb front = before)
    (legible : ∀ token ∈ front, token.IsLegible .duckDb) (noMinus : .symbol .minus ∉ front) :
    query.text .duckDb = before ++ value ∧
      Lexeme.ofText? .generic (before ++ value) = some (words ++ [.word (.plain value)]) := by
  have text : query.text .duckDb = before ++ value := by
    have name : (Token.name value false).text .duckDb = value := by simp [Token.text, bare]
    rw [Query.text, tokens, ← written]
    simp [Tokens.text, String.join_append, name]
  have unhyphenated : Tokens.Unhyphenated (query.tokens .duckDb) := by
    rw [tokens]
    refine (List.pairwise_of_forall_mem_list fun first found second _ both => ?_).isChain
    rcases List.mem_append.1 found with listed | last
    · exact noMinus (both.1 ▸ listed)
    · simp [both.1] at last
  have legibleToo : ∀ token ∈ query.tokens .duckDb, token.IsLegible .duckDb := by
    rw [tokens]
    intro token found
    rcases List.mem_append.1 found with listed | last
    · exact legible token listed
    · obtain rfl := List.mem_singleton.1 last
      trivial
  rw [written_of_bare bare] at lexemes
  rw [← lexemes, ← text]
  exact ⟨rfl, Query.lexemes_text Dialect.duckDb_isGeneric query unhyphenated legibleToo⟩

/-- What a bare word is read as is not the word FROM. -/
theorem ReadsAs.isFrom_eq_false {tree : Grammar.Expr} (read : ReadsAs value tree)
    (bare : needsQuoting value = false) : Level.isFrom tree = false := by
  cases read with
  | column => simp [Level.isFrom, upper_ne_of_bare bare (by decide : Text.asciiLower "FROM" ∈ _)]
  | _ => rfl

/-- A bare word that is read as something is the one entry of its SELECT. -/
theorem ReadsAs.projection {tree : Grammar.Expr} (read : ReadsAs value tree)
    (bare : needsQuoting value = false) :
    (Level.ofDepth .generic 48).projection [.word (.plain value)] = .ok ([.unnamed tree], []) := by
  have expression : (Level.ofDepth .generic 48).expression [.word (.plain value)] =
      .ok (tree, []) := subexpression_of_operand rfl Grammar.Ahead.nil (read.operand rfl Grammar.Ahead.nil) 0
  have starred : (Level.ofDepth .generic 48).starred [.word (.plain value)] =
      .ok (.expr tree, []) := map_of_ok expression
  refine projection_of_item ?_ rfl
  rw [(readsBack_ofDepth 48).selectItem_expr starred (read.isFrom_eq_false bare)]
  rfl

/-- A word that is never a name is no entry of a SELECT. -/
theorem projection_of_never (never : Text.upper value ∈ Level.neverNames .generic) :
    (Level.ofDepth .generic 48).projection [.word (.plain value)] = .error .unexpected := by
  have operand : (Level.ofDepth .generic 47).operand [.word (.plain value)] =
      .error .unexpected := by
    by_cases same : Text.upper value = "INTERVAL"
    · rw [operand_of_interval same rfl]
      rfl
    · exact operand_of_never never same rfl trivial
  have expression : (Level.ofDepth .generic 48).expression [.word (.plain value)] =
      .error .unexpected := bind_of_error operand
  have starred : (Level.ofDepth .generic 48).starred [.word (.plain value)] =
      .error .unexpected := by
    rw [Level.starred_of_none rfl (by rintro first ⟨⟩), map_apply, expression]
  exact bind_of_error (bind_of_error starred)

/-- A query of a column of a name is written as SELECT and the bare name, and read back just if the
name is none that starts an operand, nor TOP. -/
theorem columnNamed_reads_iff (bare : needsQuoting value = false) :
    (columnNamed value).text .duckDb = "SELECT\n  " ++ value ∧
      (Query.ofText ("SELECT\n  " ++ value) none = .ok (columnNamed value) ↔
        Text.upper value ∉ "TOP" :: operandWords) := by
  have tokens : (columnNamed value).tokens .duckDb =
      [.keyword .select, .symbol .newline, .indent 1] ++ [.name value false] := rfl
  have lexemes : (columnNamed value).lexemes =
      [.key "SELECT"] ++ [.word (Name.written { value })] := rfl
  obtain ⟨text, cut⟩ := text_of_named "SELECT\n  " bare tokens lexemes (by decide)
    (by simp [Token.IsLegible]) (by decide)
  have front : Grammar.frontKeyword [.word (.plain value)] ∉ ["ALL", "DISTINCT"] := by
    simpa using ⟨upper_ne_of_bare bare (by decide), upper_ne_of_bare bare (by decide)⟩
  obtain ⟨further, select, last⟩ := select_steps (readsBack_ofDepth 48) front
  refine ⟨text, ?_⟩
  by_cases top : Text.upper value = "TOP"
  · have found : keyword? "TOP" [.word (.plain value)] = .ok (true, []) := by
      simp [keyword?_apply, Word.plain, top]
    have unread : (Level.ofDepth .generic 48).top? [.word (.plain value)] =
        .error .unexpected := bind_of_ok found
    rw [ofText_of_unread cut (select.trans (bind_of_error unread))]
    simp [top]
  have noTop : Grammar.frontKeyword [.word (.plain value)] ≠ "TOP" := top
  rw [bind_of_ok (top?_none noTop)] at select
  rcases readsAs_or_never bare with ⟨tree, read⟩ | never
  · rw [bind_of_ok (read.projection bare), (last _ [] rfl).1 [] rfl] at select
    rw [ofText_of_select cut select]
    cases read with
    | truth same =>
        have other : Text.upper value ∈ "TOP" :: operandWords := same ▸ by decide
        exact iff_of_false nofun (not_not.2 other)
    | falsity same =>
        have other : Text.upper value ∈ "TOP" :: operandWords := same ▸ by decide
        exact iff_of_false nofun (not_not.2 other)
    | call alone =>
        have listed : ∀ word ∈ callsAlone, word ∈ "TOP" :: operandWords := by decide
        exact iff_of_false nofun (not_not.2 (listed _ alone))
    | column free =>
        refine iff_of_true rfl ?_
        simpa [top] using free
  · rw [ofText_of_unread cut (select.trans (bind_of_error (projection_of_never never)))]
    have listed : ∀ word ∈ Level.neverNames .generic, word ∈ operandWords := by decide
    simp [listed _ never]

/-- A query of an alias is written as AS and the bare name behind the number, and read back. -/
theorem aliasNamed_reads (bare : needsQuoting value = false) :
    (aliasNamed value).text .duckDb = "SELECT\n  1 AS " ++ value ∧
      Query.ofText ("SELECT\n  1 AS " ++ value) none = .ok (aliasNamed value) := by
  have tokens : (aliasNamed value).tokens .duckDb =
      [.keyword .select, .symbol .newline, .indent 1, .int 1, space, .keyword .as, space] ++
        [.name value false] := rfl
  have lexemes : (aliasNamed value).lexemes =
      [.key "SELECT", .number "1", .key "AS"] ++ [.word (Name.written { value })] := rfl
  obtain ⟨text, cut⟩ := text_of_named "SELECT\n  1 AS " bare tokens lexemes (by decide)
    (by simp [Token.IsLegible, space]) (by decide)
  refine ⟨text, ?_⟩
  obtain ⟨further, select, last⟩ := @select_steps _ _
    [.number "1", .key "AS", .word (.plain value)] (readsBack_ofDepth 48)
    (by simp [Grammar.frontKeyword])
  have starred : (Level.ofDepth .generic 48).starred
      [.number "1", .key "AS", .word (.plain value)] =
        .ok (.expr (.value (.number "1")), [.key "AS", .word (.plain value)]) :=
    map_of_ok ((readsBack_ofDepth 47).subexpression_number "1"
      (Grammar.Ahead.key _ (by decide : "AS" ∈ Grammar.closingWords)))
  have item : (Level.ofDepth .generic 48).selectItem
      [.number "1", .key "AS", .word (.plain value)] =
        .ok (.aliased (.value (.number "1")) { value }, []) := by
    rw [(readsBack_ofDepth 48).selectItem_expr starred rfl]
    rfl
  rw [bind_of_ok (top?_none (by simp [Grammar.frontKeyword])),
    bind_of_ok (projection_of_item item rfl),
    (last _ [] rfl).1 [] rfl] at select
  rw [ofText_of_select cut select]
  rfl

/-- A star in front of FROM is the whole projection. -/
theorem projection_star (lexemes : List Lexeme) :
    (Level.ofDepth .generic 48).projection (.mark "*" :: .key "FROM" :: lexemes) =
      .ok ([.wildcard {}], .key "FROM" :: lexemes) := by
  have star : (Level.ofDepth .generic 48).starred (.mark "*" :: .key "FROM" :: lexemes) =
      .ok (.wildcard, .key "FROM" :: lexemes) := rfl
  refine projection_of_item ?_ rfl
  rw [Level.selectItem, bind_of_ok star]
  exact map_of_ok ((readsBack_ofDepth 48).wildcardOptions
    (Grammar.Ahead.key _ (by decide : "FROM" ∈ "FROM" :: Grammar.clauseWords)))

/-- A query of a table is written as FROM and the bare name, and read back just if the name is none
that starts another relation. -/
theorem tableNamed_reads_iff (bare : needsQuoting value = false) :
    (tableNamed value).text .duckDb = "SELECT\n  *\nFROM " ++ value ∧
      (Query.ofText ("SELECT\n  *\nFROM " ++ value) none = .ok (tableNamed value) ↔
        Text.upper value ∉ ["LATERAL", "UNNEST"]) := by
  have tokens : (tableNamed value).tokens .duckDb =
      [.keyword .select, .symbol .newline, .indent 1, .symbol .star, .symbol .newline,
        .keyword .fromWord, space] ++ [.name value false] := rfl
  have lexemes : (tableNamed value).lexemes =
      [.key "SELECT", .mark "*", .key "FROM"] ++ [.word (Name.written { value })] := rfl
  obtain ⟨text, cut⟩ := text_of_named "SELECT\n  *\nFROM " bare tokens lexemes (by decide)
    (by simp [Token.IsLegible, space]) (by decide)
  refine ⟨text, ?_⟩
  have reads := readsBack_ofDepth 48
  obtain ⟨further, select, last⟩ := @select_steps _ _
    [.mark "*", .key "FROM", .word (.plain value)] reads (by simp [Grammar.frontKeyword])
  rw [bind_of_ok (top?_none (by simp [Grammar.frontKeyword])),
    bind_of_ok (projection_star _)] at select
  obtain ⟨onward, failing⟩ := last [.wildcard {}] [.key "FROM", .word (.plain value)] rfl
  have start : (do if ← keyword? "FROM" then (Level.ofDepth .generic 48).sources else pure [])
      [.key "FROM", .word (.plain value)] =
        (Level.ofDepth .generic 48).sources [.word (.plain value)] := by
    rw [bind_of_ok (keyword?_key "FROM" _), if_pos rfl]
  by_cases listed : Text.upper value ∈ ["LATERAL", "UNNEST"]
  · have unread : (Level.ofDepth .generic 48).simpleFactor [.word (.plain value)] =
        .error .unexpected := by
      have words : Text.upper value = "LATERAL" ∨ Text.upper value = "UNNEST" := by
        simpa using listed
      rcases words with same | same
      · exact simpleFactor_of_lateral same rfl
      · exact simpleFactor_of_unnest reads same rfl
    have sources := @sources_of_unread _ [.word (.plain value)] _
      ((factorWithin_word 1 _ _).trans unread)
    rw [failing _ (start.trans sources)] at select
    rw [ofText_of_unread cut select]
    simp [listed]
  · have factor := simpleFactor_of_bare bare reads none Grammar.Ahead.nil listed
    have sources := @sources_of_factor _ [.word (.plain value)] _
      ((factorWithin_word 1 _ _).trans factor)
    rw [onward _ (start.trans sources)] at select
    rw [ofText_of_select cut select]
    exact iff_of_true rfl listed

/-! ## Bare names by place -/

/-- In every grammar a bare name is one word in front of whatever may stand behind a name. -/
theorem cut?_of_bare (bare : needsQuoting value = false) (rules : Grammar.Rules) (fuel : Nat)
    {rest : List Char} (ends : Lexeme.Ends rest) :
    Lexeme.cut? rules (fuel + 1) (value.toList ++ rest) =
      (Lexeme.cut? rules fuel rest).map (.word (.plain value) :: ·) := by
  have identifier : isBareIdentifier value.toList = true := by
    simp only [needsQuoting, Bool.or_eq_false_iff] at bare
    simpa using bare.1
  obtain ⟨c, more, whole, starts, first⟩ := Lexeme.exists_first?_bare identifier rules
  rw [whole, List.cons_append, Lexeme.cut?_of_identifierStarts starts (first rest ends)]

/-- How a name that needs no quotes is read in each of the places that it is written in. It is one
word. The word is the column of the name where an expression ends just if it is none of the words
that start an operand; behind AS it is the alias of the name; and where a relation ends it is the
table of the name just if it is neither LATERAL nor UNNEST. Whole queries of the name are read back
likewise, but that TOP does not start the entries of a SELECT. -/
theorem bare_names_are_read_by_place {value : String} (bare : needsQuoting value = false) :
    (∀ (rules : Grammar.Rules) (fuel : Nat) (rest : List Char), Lexeme.Ends rest →
      Lexeme.cut? rules (fuel + 1) (value.toList ++ rest) =
        (Lexeme.cut? rules fuel rest).map (.word (.plain value) :: ·)) ∧
    (∀ (depth strength : Nat) (rest : List Lexeme), Closes rest →
      ((Level.ofDepth .generic depth).subexpression strength (.word (.plain value) :: rest) =
        .ok (.identifier { value }, rest) ↔ Text.upper value ∉ operandWords)) ∧
    (∀ (excluded : List String) (rest : List Lexeme),
      alias? excluded (.key "AS" :: .word (.plain value) :: rest) = .ok (some { value }, rest)) ∧
    (∀ (depth fuel : Nat) (label : Option Name) (rest : List Lexeme), BehindRelation rest →
      ((Level.ofDepth .generic depth).factorWithin fuel
          (.word (.plain value) :: (aliasLexemes label ++ rest)) =
        .ok (.table ⟨[], { value }⟩ (aliasTree label) none [] [], rest) ↔
          Text.upper value ∉ ["LATERAL", "UNNEST"])) ∧
    ((columnNamed value).text .duckDb = "SELECT\n  " ++ value ∧
      (Query.ofText ("SELECT\n  " ++ value) none = .ok (columnNamed value) ↔
        Text.upper value ∉ "TOP" :: operandWords)) ∧
    ((aliasNamed value).text .duckDb = "SELECT\n  1 AS " ++ value ∧
      Query.ofText ("SELECT\n  1 AS " ++ value) none = .ok (aliasNamed value)) ∧
    ((tableNamed value).text .duckDb = "SELECT\n  *\nFROM " ++ value ∧
      (Query.ofText ("SELECT\n  *\nFROM " ++ value) none = .ok (tableNamed value) ↔
        Text.upper value ∉ ["LATERAL", "UNNEST"])) :=
  ⟨fun rules fuel _ ends => cut?_of_bare bare rules fuel ends,
    fun depth strength _ closes =>
      subexpression_bare_iff bare (readsBack_ofDepth depth).rules closes strength,
    fun _ _ => rfl,
    fun depth fuel label _ behind =>
      factorWithin_bare_iff bare (readsBack_ofDepth depth) label behind fuel,
    columnNamed_reads_iff bare, aliasNamed_reads bare, tableNamed_reads_iff bare⟩

/-- A column called true is written without quotes and not read back, though the alias is, and the
table. -/
theorem bare_names_are_read_by_place_true :
    needsQuoting "true" = false ∧ (columnNamed "true").text .duckDb = "SELECT\n  true" ∧
      Query.ofText "SELECT\n  true" none ≠ .ok (columnNamed "true") ∧
      Query.ofText "SELECT\n  1 AS true" none = .ok (aliasNamed "true") ∧
      Query.ofText "SELECT\n  *\nFROM true" none = .ok (tableNamed "true") := by
  have bare : needsQuoting "true" = false := by decide
  obtain ⟨-, -, -, -, ⟨text, column⟩, ⟨-, label⟩, -, table⟩ := bare_names_are_read_by_place bare
  have listed : Text.upper "true" ∈ "TOP" :: operandWords := by decide
  exact ⟨bare, text, fun read => column.1 read listed, label, table.2 (by decide)⟩

end

end SemanticLayer.Sql
