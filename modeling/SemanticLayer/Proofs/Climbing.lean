import SemanticLayer.Proofs.Operations
import SemanticLayer.Proofs.OperatorTexts

/-!
# Operations in the grammars that join texts otherwise

T-SQL and MySQL order operators as the generic grammar does. What is spelled out for one of them is
read back by its grammar: an operand, and behind it one operation after the other.
-/

namespace SemanticLayer

/-- Whether a dialect has another way to join texts than the operator of the generic grammar. -/
def Dialect.JoinsOtherwise (d : Dialect) : Prop :=
  d = tSql ∨ d = mySql

namespace Grammar

/-- All grammars but one order operators alike. -/
theorem nextStrength_eq_generic {rules : Rules} (other : rules ≠ .of .postgres)
    (lexemes : List Lexeme) : nextStrength rules lexemes = nextStrength .generic lexemes := by
  have marks (mark : String) : Binding.ofMark? rules mark = Binding.ofMark? .generic mark := by
    simp [Binding.ofMark?, other]
  have same : Binding.ahead? rules lexemes = Binding.ahead? .generic lexemes := by
    simp only [Binding.ahead?, marks, other, if_false]
    rfl
  have strength (binding : Binding) : binding.strength rules = binding.strength .generic := by
    simp [Binding.strength, other]
  simp only [nextStrength, same, strength]

end Grammar

namespace Sql

open Grammar (Word Lexeme Rules Level Ahead Follows Operates nextStrength)
open Grammar.Level (dots)
open Grammar.Reader

variable {d : Dialect}

/-! ## Names -/

namespace Name

/-- A name is written as the same word in every dialect, apart from the quotation marks. -/
theorem wordIn_cases (d : Dialect) (name : Name) :
    (∃ quote, name.wordIn d = .quoted name.value quote ∧ name.written = .quoted name.value '"') ∨
      (name.wordIn d = .plain name.value ∧ name.written = .plain name.value) := by
  unfold wordIn written writtenName
  split
  · exact .inl ⟨_, rfl, rfl⟩
  · exact .inr ⟨rfl, rfl⟩

theorem keyword_wordIn (d : Dialect) (name : Name) :
    (name.wordIn d).keyword = name.written.keyword := by
  rcases name.wordIn_cases d with ⟨quote, same, written⟩ | ⟨same, written⟩
  · rw [same, written]
    rfl
  · rw [same, written]

theorem nameOf_wordIn_equal (d : Dialect) (name : Name) : (nameOf (name.wordIn d) == name) = true := by
  show ((name.wordIn d).value == name.value) = true
  rcases name.wordIn_cases d with ⟨quote, same, -⟩ | ⟨same, -⟩
  · rw [same]
    exact beq_self_eq_true name.value
  · rw [same]
    exact beq_self_eq_true name.value

theorem isFrom_wordIn (d : Dialect) (name : Name) :
    Level.isFrom (.identifier (nameOf (name.wordIn d))) = false := by
  rcases name.wordIn_cases d with ⟨quote, same, -⟩ | ⟨same, written⟩
  · rw [same]
    rfl
  · rw [same, ← written]
    exact name.isFrom_reread

end Name

/-! ## How operations start -/

/-- Lexemes that may stand behind an operand: an operator, a comma, a closing parenthesis, or
none. -/
abbrev Within (lexemes : List Lexeme) : Prop :=
  Ahead Grammar.followMarks Grammar.operatorWords lexemes

theorem Within.follows {lexemes : List Lexeme} (within : Within lexemes) : Follows lexemes :=
  within.mono (fun _ => id) (by decide)

theorem within_of_operates {lexemes : List Lexeme} (operates : Operates lexemes) :
    Within lexemes :=
  operates.mono (by decide) (fun _ => id)

/-- Words that no name in front of an operation is written as. -/
def reservedHeads : List String :=
  ["SELECT", "WITH", "ALL", "DISTINCT", "NULL"] ++ ["ANY", "SOME"]

/-- How an operation starts: with a column, a whole number, a parenthesis, or the call that joins two
texts. -/
inductive Starts : List Lexeme → Prop where
  | column {first : Word} (words : List Word) {rest : List Lexeme}
      (free : first.keyword ∉ reservedHeads) (within : Within rest) :
    Starts (.word first :: (dots words ++ rest))
  | number (text : String) {rest : List Lexeme} (within : Within rest) :
    Starts (.number text :: rest)
  | parenthesis (rest : List Lexeme) : Starts (.mark "(" :: rest)
  | joining (rest : List Lexeme) : Starts (.word (Word.plain "CONCAT") :: .mark "(" :: rest)

theorem Expr.depth_joinedTo (left right : Expr) :
    (left.joinedTo right).depth = max (left.depth + 1) (right.depth + 1) := by
  simp [joinedTo, depth, depthBelow]

theorem Column.lexemesIn_eq (found : Column) : ∃ first more,
    found.qualifier ++ [found.name] = first :: more ∧
      (Expr.column found).lexemesIn d = .word (first.wordIn d) :: dots (more.map (Name.wordIn d)) := by
  have whole (path : Path) : ∃ first more, path ++ [found.name] = first :: more ∧
      path.lexemesIn d ++ [.word (found.name.wordIn d)] =
        .word (first.wordIn d) :: dots (more.map (Name.wordIn d)) := by
    induction path with
    | nil => exact ⟨found.name, [], rfl, rfl⟩
    | cons name path ih =>
        obtain ⟨first, more, parts, same⟩ := ih
        refine ⟨name, first :: more, by rw [List.cons_append, parts], ?_⟩
        rw [Path.lexemesIn, List.flatMap_cons, ← Path.lexemesIn, List.append_assoc, same]
        rfl
  obtain ⟨first, more, parts, same⟩ := whole found.qualifier
  exact ⟨first, more, parts, by rw [Expr.lexemesIn_column, same]⟩

theorem Expr.Spelled.starts {expr : Expr} (spelled : expr.Spelled) {rest : List Lexeme}
    (within : Within rest) : Starts (expr.lexemesIn d ++ rest) := by
  induction spelled generalizing rest with
  | @column found plain =>
      obtain ⟨first, more, parts, same⟩ := @Column.lexemesIn_eq d found
      rw [same]
      refine .column _ (fun listed => ?_) within
      have keyword : (first.wordIn d).keyword = (Expr.column found).nameKeyword := by
        rw [first.keyword_wordIn]
        show _ = Path.keyword (found.qualifier ++ [found.name])
        rw [parts]
        rfl
      have reserved : ∀ word ∈ ["SELECT", "WITH", "ALL", "DISTINCT", "NULL"],
          Text.asciiLower word ∈ reservedWords := by decide
      rw [keyword, reservedHeads] at listed
      rcases List.mem_append.1 listed with found | found
      · exact Expr.nameKeyword_ne _ (reserved _ found) rfl
      · exact plain.1.2 ((by decide : ["ANY", "SOME"] ⊆ ["ANY", "ALL", "SOME"]) found)
  | int natural =>
      rw [lexemesIn_int]
      exact .number _ within
  | @binary left right op other _ _ _ _ first _ =>
      rw [lexemesIn_binary other, List.append_assoc, List.append_assoc]
      exact first (within_of_operates (op.operates _))
  | nested =>
      rw [lexemesIn_nested]
      exact .parenthesis _
  | joined =>
      rw [lexemesIn_joinedTo]
      exact .joining _

namespace Starts

variable {lexemes : List Lexeme} (starts : Starts lexemes)

include starts

theorem frontKeyword_not_mem : Grammar.frontKeyword lexemes ∉ reservedHeads := by
  cases starts with
  | column words free => exact free
  | number text => exact (by decide : "" ∉ reservedHeads)
  | parenthesis => exact (by decide : "" ∉ reservedHeads)
  | joining => exact (by decide : (Word.plain "CONCAT").keyword ∉ reservedHeads)

theorem startsWithKeywords {keyword : String} (reserved : keyword ∈ reservedHeads)
    (keywords : List String) : Grammar.startsWithKeywords (keyword :: keywords) lexemes = false :=
  Grammar.startsWithKeywords_of_frontKeyword_ne keywords fun same =>
    starts.frontKeyword_not_mem (same ▸ reserved)

theorem keyword? {keyword : String} (reserved : keyword ∈ reservedHeads) :
    Grammar.Reader.keyword? keyword lexemes = .ok (false, lexemes) :=
  takeIf_of_false (starts.startsWithKeywords reserved [])

theorem startsQuery : Grammar.startsQuery lexemes = false := by
  have select := starts.startsWithKeywords (by decide : "SELECT" ∈ reservedHeads) []
  have named := starts.startsWithKeywords (by decide : "WITH" ∈ reservedHeads) []
  simp [Grammar.startsQuery, select, named]

theorem startsWithMark {text : String} (other : text ≠ "(") :
    Grammar.startsWithMark text lexemes = false := by
  cases starts with
  | parenthesis => exact beq_eq_false_iff_ne.mpr other.symm
  | _ => rfl

/-- Behind the word in front stands no word but an operator. -/
theorem startsWithKeywords_cons (keyword : String) {second : String}
    (other : second ∉ Grammar.operatorWords) (keywords : List String) :
    Grammar.startsWithKeywords (keyword :: second :: keywords) lexemes = false := by
  have parted (lexeme : Lexeme) {behind : List Lexeme}
      (none : Grammar.startsWithKeywords (second :: keywords) behind = false) :
      Grammar.startsWithKeywords (keyword :: second :: keywords) (lexeme :: behind) = false := by
    rw [Grammar.startsWithKeywords_cons, none, Bool.and_false]
  cases starts with
  | column words _ within =>
      cases words with
      | nil => exact parted _ (within.startsWithKeywords keywords other)
      | cons word words => exact parted _ rfl
  | number text => rfl
  | parenthesis => rfl
  | joining => exact parted _ rfl

/-- In front stands no dotted name that a star ends. -/
theorem starPath? {first : Name} (start : Level.starStart? lexemes = some first) (fuel : Nat) :
    ∃ others, Level.starPath? fuel [first] (lexemes.drop 1) = .ok (none, others) := by
  cases starts with
  | column words _ within =>
      exact Level.starPath?_dots (within.startsWithMark (by decide)) words fuel [first]
  | number text => cases start
  | parenthesis => cases start
  | joining => cases start

/-- In front stands no name with a mark of an argument behind it. -/
theorem identifier : Grammar.Reader.identifier lexemes = .error .unexpected ∨
    ∃ name, Grammar.Reader.identifier lexemes = .ok (name, lexemes.drop 1) ∧
      ∀ text ∈ ["=>", ":=", ":"], Grammar.startsWithMark text (lexemes.drop 1) = false := by
  cases starts with
  | @column first words rest _ within =>
      refine .inr ⟨nameOf first, rfl, fun text listed => ?_⟩
      refine Level.startsWithMark_dots ?_ words (within.startsWithMark ?_)
      · rintro rfl
        exact absurd listed (by decide)
      · exact (by decide : ∀ text ∈ ["=>", ":=", ":"], text ∉ Grammar.followMarks) text listed
  | number text => exact .inl rfl
  | parenthesis => exact .inl rfl
  | joining rest =>
      refine .inr ⟨nameOf (Word.plain "CONCAT"), rfl, fun text listed => ?_⟩
      refine beq_eq_false_iff_ne.mpr ?_
      rintro rfl
      exact absurd listed (by decide)

end Starts

/-! ## Reading one level down -/

/-- Whether the readers of a level read all that is spelled out for a dialect and nests less deep
than so many levels, in front of what binds looser. -/
structure ReadsSpelled (level : Level) (d : Dialect) (depth : Nat) : Prop where
  rules : level.rules = Rules.ofDialect? (some d)
  joins : d.JoinsOtherwise
  expr : ∀ expr : Expr, expr.Spelled → expr.depth < depth → ∀ (strength : Nat) (rest : List Lexeme),
    strength < expr.loosest → Within rest → nextStrength .generic rest ≤ strength →
    nextStrength .generic rest ≤ expr.trailing →
    ∃ tree, level.expr strength (expr.lexemesIn d ++ rest) = .ok (tree, rest) ∧ expr.ToldBy tree

namespace ReadsSpelled

variable {level : Level} {depth : Nat} (reads : ReadsSpelled level d depth)

include reads

theorem nextStrength_eq (lexemes : List Lexeme) :
    nextStrength level.rules lexemes = nextStrength .generic lexemes := by
  refine Grammar.nextStrength_eq_generic ?_ lexemes
  rw [reads.rules]
  rcases reads.joins with rfl | rfl <;> decide

theorem commaSeparated_eq {α : Type} (item : Grammar.Reader α) :
    Grammar.Reader.commaSeparated level.rules item = separated (fun _ => false) item := by
  rw [reads.rules]
  rcases reads.joins with rfl | rfl <;> rfl

/-- What is spelled out is read in front of a closing parenthesis, a comma or nothing. -/
theorem expression {expr : Expr} (spelled : expr.Spelled) (deep : expr.depth < depth)
    {rest : List Lexeme} (closes : Ahead [")", ","] [] rest) :
    ∃ tree, level.expression (expr.lexemesIn d ++ rest) = .ok (tree, rest) ∧ expr.ToldBy tree := by
  have none : nextStrength .generic rest = 0 :=
    Grammar.Closes.nextStrength (closes.mono (fun _ => id) (by simp))
  exact reads.expr expr spelled deep 0 rest expr.loosest_pos (closes.mono (by decide) (by simp))
    (Nat.le_of_eq none) (by omega)

/-! ## Operands -/

omit reads in
/-- A column is read in front of what may stand behind an operand. -/
theorem column {found : Column} (plain : (Expr.column found).Plain) {rest : List Lexeme}
    (within : Within rest) :
    ∃ tree, level.operand ((Expr.column found).lexemesIn d ++ rest) = .ok (tree, rest) ∧
      (Expr.column found).ToldBy tree := by
  obtain ⟨first, more, parts, same⟩ := @Column.lexemesIn_eq d found
  have follows := within.follows
  have keyword : (first.wordIn d).keyword = Path.keyword (found.qualifier ++ [found.name]) := by
    rw [parts, first.keyword_wordIn]
    rfl
  have free : (first.wordIn d).keyword ∉ operandWords := keyword ▸ plain.1.1
  have untyped : level.typedLiteral? (.word (first.wordIn d) ::
      dots (more.map (Name.wordIn d)) ++ rest) =
        .ok (none, .word (first.wordIn d) :: dots (more.map (Name.wordIn d)) ++ rest) := by
    refine Expr.typedLiteral?_dotted free ?_ follows fun alone array => ?_
    · cases more with
      | nil => exact .inl rfl
      | cons name more => exact .inr ⟨_, rfl⟩
    · cases more with
      | cons name more => cases alone
      | nil =>
          obtain ⟨bare, rfl⟩ : found.qualifier = [] ∧ found.name = first := by
            simpa [List.append_eq_singleton_iff] using parts
          rw [found.name.keyword_wordIn] at array
          have noArray := plain.2
          simp [Expr.endsInArray, bare, array] at noArray
  have named := @ReadsBack.plainOperand_dotted level _ (more.map (Name.wordIn d)) free _ follows
  have told : (Expr.column found).ToldBy (columnTree (nameOf (first.wordIn d))
      ((more.map (Name.wordIn d)).map nameOf)) := by
    refine Expr.toldBy_column_map (Name.nameOf_wordIn_equal d) (Name.isFrom_wordIn d) ?_
    rw [parts, List.map_cons, List.map_map]
    rfl
  rw [same]
  exact ⟨_, ReadsBack.operand_of_plainOperand untyped named follows, told⟩

omit reads in
theorem int {value : Int64} (natural : 0 ≤ value.toInt) {rest : List Lexeme}
    (within : Within rest) :
    ∃ tree, level.operand ((Expr.literal (.int value)).lexemesIn d ++ rest) = .ok (tree, rest) ∧
      (Expr.literal (.int value)).ToldBy tree := by
  have same : (Literal.int value == .int value) = true := beq_self_eq_true value
  refine ⟨_, ?_, Expr.toldBy_literal (ReadsBack.literalOf_int natural) same⟩
  rw [Expr.lexemesIn_int]
  exact ReadsBack.operand_of_plainOperand (Expr.typedLiteral?_of_plain rfl) rfl within.follows

theorem nested {inner : Expr} (spelled : inner.Spelled) (deep : inner.depth < depth)
    {rest : List Lexeme} (within : Within rest) :
    ∃ tree, level.operand ((Expr.nested inner).lexemesIn d ++ rest) = .ok (tree, rest) ∧
      (Expr.nested inner).ToldBy tree := by
  have closed : Ahead [")", ","] [] (.mark ")" :: rest) := Ahead.mark rest (by decide)
  obtain ⟨tree, read, told⟩ := reads.expression spelled deep closed
  have single : level.expressions (inner.lexemesIn d ++ .mark ")" :: rest) =
      .ok ([tree], .mark ")" :: rest) := by
    rw [Level.expressions, reads.commaSeparated_eq, separated, bind_of_ok read,
      bind_of_ok (get_apply _)]
    rfl
  have opened : level.inParentheses (inner.lexemesIn d ++ .mark ")" :: rest) =
      .ok (.nested tree, rest) := by
    have starts := @Expr.Spelled.starts d _ spelled _ (closed.mono (by decide) (by simp))
    rw [Level.inParentheses, bind_of_ok (ahead_apply _ _), starts.startsQuery,
      if_neg Bool.false_ne_true, bind_of_ok single]
    simp only [pure_bind]
    rw [bind_of_ok (expectMark_mark ")" _), bind_of_ok (within.mark? (by decide))]
    rfl
  have plain : level.plainOperand (.mark "(" :: (inner.lexemesIn d ++ .mark ")" :: rest)) =
      .ok (.nested tree, rest) := opened
  refine ⟨.nested tree, ?_, Expr.toldBy_nested told⟩
  rw [Expr.lexemesIn_nested, List.cons_append, List.append_assoc, List.singleton_append]
  exact ReadsBack.operand_of_plainOperand (Expr.typedLiteral?_of_plain rfl) plain within.follows

/-! ## Joined texts -/

theorem argumentMark {lexemes : List Lexeme}
    (other : ∀ text ∈ ["=>", ":=", ":"], Grammar.startsWithMark text lexemes = false) :
    level.argumentMark lexemes = .error .unexpected := by
  cases lexemes with
  | nil => rfl
  | cons lexeme rest =>
      rw [Level.argumentMark, bind_of_ok (next_cons _ _), reads.rules]
      split
      · simpa using other "=>" (by decide)
      · simpa using other ":=" (by decide)
      · rcases reads.joins with rfl | rfl <;> rfl
      · simpa using other ":" (by decide)
      · rfl

/-- What is spelled out has no name as an argument, and is no star. -/
theorem argument {expr : Expr} (spelled : expr.Spelled) (deep : expr.depth < depth)
    {rest : List Lexeme} (closes : Ahead [")", ","] [] rest) :
    ∃ tree, level.argument (expr.lexemesIn d ++ rest) = .ok (.expr tree, rest) ∧
      expr.ToldBy tree := by
  obtain ⟨tree, read, told⟩ := reads.expression spelled deep closes
  refine ⟨tree, ?_, told⟩
  have starts := @Expr.Spelled.starts d _ spelled _ (closes.mono (by decide) (by simp))
  revert read starts
  generalize expr.lexemesIn d ++ rest = lexemes
  intro read starts
  -- a name in front is taken first, and given back since no mark of an argument follows
  have unnamed : attempt (do
      let name ← identifier
      level.argumentMark
      let value ← level.starred
      pure (Grammar.Argument.named name value)) lexemes = .ok (none, lexemes) := by
    refine attempt_of_error ?_
    rcases starts.identifier with unread | ⟨name, named, other⟩
    · exact bind_of_error unread
    · rw [bind_of_ok named, bind_of_error (reads.argumentMark other)]
  have starred : level.starred lexemes = .ok (.expr tree, rest) := by
    rw [Level.starred_of_none (starts.startsWithMark (by decide)) fun _ => starts.starPath?]
    exact map_of_ok read
  rw [Level.argument, bind_of_ok unnamed]
  exact starred

/-- The arguments of the call that joins two texts are read. -/
theorem arguments {left right : Expr} (first : left.Spelled) (second : right.Spelled)
    (deep : left.depth < depth ∧ right.depth < depth) (rest : List Lexeme) :
    ∃ one two, level.arguments
        (left.lexemesIn d ++ .mark "," :: (right.lexemesIn d ++ .mark ")" :: rest)) =
          .ok (.list none [.expr one, .expr two] [] none none [], rest) ∧
      left.ToldBy one ∧ right.ToldBy two := by
  have closed : Ahead [")", ","] [] (.mark ")" :: rest) := Ahead.mark rest (by decide)
  have parted : Ahead [")", ","] [] (.mark "," :: (right.lexemesIn d ++ .mark ")" :: rest)) :=
    Ahead.mark _ (by decide)
  obtain ⟨one, readOne, toldOne⟩ := reads.argument first deep.1 parted
  obtain ⟨two, readTwo, toldTwo⟩ := reads.argument second deep.2 closed
  refine ⟨one, two, ?_, toldOne, toldTwo⟩
  have starts := @Expr.Spelled.starts d _ first _ (parted.mono (by decide) (by simp))
  have items : Grammar.Reader.commaSeparated level.rules level.argument
      (left.lexemesIn d ++ .mark "," :: (right.lexemesIn d ++ .mark ")" :: rest)) =
        .ok ([.expr one, .expr two], .mark ")" :: rest) := by
    have none (fuel : Nat) : moreItems (fun _ => false) level.argument fuel (.mark ")" :: rest) =
        .ok ([], .mark ")" :: rest) := by
      cases fuel <;> rfl
    have more : moreItems (fun _ => false) level.argument
        (.mark "," :: (right.lexemesIn d ++ .mark ")" :: rest) : List Lexeme).length
        (.mark "," :: (right.lexemesIn d ++ .mark ")" :: rest)) =
          .ok ([.expr two], .mark ")" :: rest) := by
      rw [List.length_cons, moreItems, bind_of_ok (mark?_mark "," _), if_pos rfl,
        bind_of_ok (ahead_apply _ _), if_neg Bool.false_ne_true, bind_of_ok readTwo,
        bind_of_ok (none _)]
      rfl
    rw [reads.commaSeparated_eq, separated, bind_of_ok readOne, bind_of_ok (get_apply _),
      bind_of_ok more]
    rfl
  revert items starts
  generalize left.lexemesIn d ++ .mark "," :: (right.lexemesIn d ++ .mark ")" :: rest) = lexemes
  intro starts items
  have noClause : Level.nullClause? lexemes = .ok ([], lexemes) := by
    have noClause (keyword : String) : keywords? [keyword, "ON", "NULL"] lexemes =
        .ok (false, lexemes) :=
      takeIf_of_false (starts.startsWithKeywords_cons keyword (by decide) ["NULL"])
    rw [Level.nullClause?, bind_of_ok (noClause "ABSENT"), if_neg Bool.false_ne_true,
      bind_of_ok (noClause "NULL")]
    rfl
  have kept : Level.duplicates? lexemes = .ok (none, lexemes) := by
    rw [Level.duplicates?, bind_of_ok (starts.keyword? (by decide)),
      bind_of_ok (starts.keyword? (by decide))]
    rfl
  have unclosed : mark? ")" lexemes = .ok (false, lexemes) :=
    takeIf_of_false (starts.startsWithMark (by decide))
  rw [Level.arguments, bind_of_ok noClause, bind_of_ok unclosed, if_neg Bool.false_ne_true,
    bind_of_ok kept, bind_of_ok items, reads.rules]
  rcases reads.joins with rfl | rfl <;> rfl

theorem call {trees : List Grammar.Argument} {lexemes rest : List Lexeme}
    (read : level.arguments lexemes = .ok (.list none trees [] none none [], rest))
    (name : Grammar.ObjectName) (follows : Follows rest) :
    level.call name (.mark "(" :: lexemes) =
      .ok (.call { name, arguments := some (.list none trees [] none none []) }, rest) := by
  have plain : level.filter? rest = .ok (none, rest) := by
    rw [Level.filter?, reads.rules]
    rcases reads.joins with rfl | rfl <;> rfl
  have untreated : Level.nullTreatment? rest = .ok (none, rest) := by
    rw [Level.nullTreatment?, bind_of_ok (follows.oneOf? (by decide))]
    rfl
  have unqueried : level.rules.isOneOf [.snowflake] = false := by
    rw [reads.rules]
    rcases reads.joins with rfl | rfl <;> rfl
  have single : level.rules ≠ .generic := by
    rw [reads.rules]
    rcases reads.joins with rfl | rfl <;> decide
  rw [Level.call, bind_of_ok (expectMark_mark "(" _), bind_of_ok (ahead_apply _ _), unqueried,
    if_neg (by simp), bind_of_ok read, if_neg single, bind_of_ok (pure_apply _ _)]
  simp only []
  rw [bind_of_ok (follows.keywords? ["GROUP"] (by decide)), if_neg Bool.false_ne_true,
    bind_of_ok (pure_apply _ _), bind_of_ok plain, if_neg (by simp [Grammar.Arguments.clauses]),
    bind_of_ok untreated, Level.window?, bind_of_ok (follows.behind? _ (by decide))]
  rfl

theorem joined {left right : Expr} (first : left.Spelled) (second : right.Spelled)
    (deep : left.depth < depth ∧ right.depth < depth) {rest : List Lexeme} (within : Within rest) :
    ∃ tree, level.operand ((left.joinedTo right).lexemesIn d ++ rest) = .ok (tree, rest) ∧
      (left.joinedTo right).ToldBy tree := by
  obtain ⟨one, two, read, toldOne, toldTwo⟩ := reads.arguments first second deep rest
  have told := @Expr.toldBy_call { value := "CONCAT" } none [left, right] _ false
    (nameOf (Word.plain "CONCAT")) nofun (by decide) (.cons (Expr.toldByArgument_expr toldOne)
      (.cons (Expr.toldByArgument_expr toldTwo) .nil))
  refine ⟨_, ?_, told⟩
  have called := reads.call read ⟨[], nameOf (Word.plain "CONCAT")⟩ within.follows
  have unreserved (behind : List Lexeme) :
      level.reserved? (Word.plain "CONCAT") behind = none := by
    have keyword : (Word.plain "CONCAT").keyword = "CONCAT" := by decide
    rw [Level.reserved?, keyword]
    rfl
  have named : level.worded (Word.plain "CONCAT") (.mark "(" ::
      (left.lexemesIn d ++ .mark "," :: (right.lexemesIn d ++ .mark ")" :: rest))) =
        level.call ⟨[], nameOf (Word.plain "CONCAT")⟩ (.mark "(" ::
          (left.lexemesIn d ++ .mark "," :: (right.lexemesIn d ++ .mark ")" :: rest))) := by
    rw [Level.worded, bind_of_ok (get_apply _), unreserved]
    exact @Level.named_call level (Word.plain "CONCAT") [] _
  have plain : level.plainOperand (.word (Word.plain "CONCAT") :: .mark "(" ::
      (left.lexemesIn d ++ .mark "," :: (right.lexemesIn d ++ .mark ")" :: rest))) = _ :=
    named.trans called
  have whole := ReadsBack.operand_of_plainOperand (Expr.typedLiteral?_of_plain rfl) plain
    within.follows
  rw [Expr.lexemesIn_joinedTo]
  simpa using whole

/-! ## Operations -/

/-- An operator and its right side are read behind its left side. -/
theorem extend {left right : Expr} {op : BinaryOp} (spelled : right.Spelled)
    (tight : op.grip < right.loosest) (deep : right.depth < depth) {rest : List Lexeme}
    (within : Within rest) (looser : nextStrength .generic rest ≤ min op.grip right.trailing)
    {tree : Grammar.Expr} (told : left.ToldBy tree) :
    ∃ longer, level.extend tree op.grip
        (Tokens.lexemes .duckDb op.tokens ++ right.lexemesIn d ++ rest) = .ok (longer, rest) ∧
      (Expr.binary left op right).ToldBy longer := by
  obtain ⟨looser, looserRight⟩ := Nat.le_min.mp looser
  obtain ⟨second, read, toldRight⟩ :=
    reads.expr right spelled deep op.grip rest tight within looser looserRight
  have starts := @Expr.Spelled.starts d _ spelled _ within
  rw [List.append_assoc]
  by_cases compares : op ≠ .like ∧ op ≠ .notLike
  · obtain ⟨lexeme, operator, single, written, meant⟩ := BinaryOp.lexemes_eq compares
    have unquantified : Grammar.frontKeyword (right.lexemesIn d ++ rest) ∉ ["ANY", "ALL", "SOME"] :=
      fun found => starts.frontKeyword_not_mem
        ((by decide : ["ANY", "ALL", "SOME"] ⊆ reservedHeads) found)
    refine ⟨.binary tree operator second, ?_, Expr.toldBy_binary told toldRight meant⟩
    rw [single, List.singleton_append, Level.extend, bind_of_ok (get_apply _),
      bind_of_ok (next_cons _ _), written]
    simp only []
    rw [bind_of_ok (oneOf?_of_frontKeyword unquantified)]
    exact map_of_ok read
  · obtain ⟨negated, same, grip, whole⟩ : ∃ negated, op = (if negated then .notLike else .like) ∧
        op.grip = 19 ∧
        Tokens.lexemes .duckDb op.tokens = negationLexemes negated ++ [.key "LIKE"] := by
      rcases not_and_or.1 compares with same | same
      · exact ⟨false, not_not.1 same, by rw [not_not.1 same]; rfl, by rw [not_not.1 same]; rfl⟩
      · exact ⟨true, not_not.1 same, by rw [not_not.1 same]; rfl, by rw [not_not.1 same]; rfl⟩
    have pattern : level.operandOf .like (right.lexemesIn d ++ rest) = .ok (second, rest) := by
      have strength : Grammar.Binding.strength level.rules .like = op.grip := by
        rw [reads.rules, grip]
        rcases reads.joins with rfl | rfl <;> rfl
      rw [Level.operandOf, strength, read]
    refine ⟨.pattern .like negated false tree second none, ?_, ?_⟩
    · rw [whole, List.append_assoc, List.singleton_append,
        (ReadsBack.extend_negatable tree op.grip negated _).1, Level.patternTest,
        if_pos (.inl rfl), bind_of_ok (starts.keyword? (by decide))]
      beta_reduce
      rw [bind_of_ok pattern, if_neg (by decide),
        bind_of_ok (within.follows.behind? _ (by decide))]
      rfl
    · rw [same]
      exact Expr.toldBy_like told toldRight negated

/-- What is spelled out is read operation by operation. -/
theorem climbs {expr : Expr} (spelled : expr.Spelled) (deep : expr.depth ≤ depth)
    {rest : List Lexeme} (within : Within rest)
    (looser : nextStrength .generic rest ≤ expr.trailing) :
    Climbs level (expr.lexemesIn d) rest expr.loosest expr.ToldBy := by
  induction spelled generalizing rest with
  | column plain =>
      obtain ⟨tree, read, told⟩ := @column d level _ plain _ within
      exact climbs_operand read told _
  | int natural =>
      obtain ⟨tree, read, told⟩ := @int d level _ natural _ within
      exact climbs_operand read told _
  | nested spelled _ =>
      obtain ⟨tree, read, told⟩ := reads.nested spelled deep within
      exact climbs_operand read told _
  | joined first second _ _ =>
      rw [Expr.depth_joinedTo] at deep
      obtain ⟨tree, read, told⟩ := reads.joined first second (Nat.max_le.mp deep) within
      exact climbs_operand read told _
  | @binary left right op other held tight _ spelled first _ =>
      -- the left side is climbed first, and the operator extends what is read of it
      have binds := op.nextStrength_lexemes (right.lexemesIn d ++ rest)
      rw [← List.append_assoc] at binds
      have operates := op.operates (right.lexemesIn d ++ rest)
      rw [← List.append_assoc] at operates
      obtain ⟨deepLeft, deepRight⟩ := Nat.max_le.mp deep
      have climbed := first deepLeft (within_of_operates operates) (binds ▸ held)
      rw [Expr.lexemesIn_binary other]
      refine climbed.longer ?_ ((reads.nextStrength_eq _).trans binds) fun tree told => ?_
      · cases op <;> exact List.cons_ne_nil _ _
      · exact reads.extend spelled tight deepRight within looser told

/-- What is spelled out is read where nothing binds tighter to it than what stands in front. -/
theorem subexpression {expr : Expr} (spelled : expr.Spelled) (deep : expr.depth ≤ depth)
    {strength : Nat} {rest : List Lexeme} (tighter : strength < expr.loosest)
    (within : Within rest) (looser : nextStrength .generic rest ≤ strength)
    (closed : nextStrength .generic rest ≤ expr.trailing) :
    ∃ tree, level.subexpression strength (expr.lexemesIn d ++ rest) = .ok (tree, rest) ∧
      expr.ToldBy tree :=
  (reads.climbs spelled deep within closed).reads tighter ((reads.nextStrength_eq rest).symm ▸ looser)

end ReadsSpelled

/-- The readers of every level read what is spelled out and nests no deeper than their levels. -/
theorem readsSpelled_ofDepth (joins : d.JoinsOtherwise) (depth : Nat) :
    ReadsSpelled (Level.ofDepth (Rules.ofDialect? (some d)) depth) d depth := by
  induction depth with
  | zero =>
      exact
        { rules := rfl
          joins
          expr := fun _ _ deep => absurd deep (Nat.not_lt_zero _) }
  | succ depth ih =>
      exact
        { rules := rfl
          joins
          expr := fun _ spelled deep _ _ tighter within looser closed =>
            ih.subexpression spelled (Nat.le_of_lt_succ deep) tighter within looser closed }

/-! ## Conditions -/

namespace ReadsSpelled

variable {level : Level} {depth : Nat} (reads : ReadsSpelled level d depth)

include reads

/-- A star is the only item in front of a condition. -/
theorem projection (lexemes : List Lexeme) :
    level.projection (.mark "*" :: .key "WHERE" :: lexemes) =
      .ok ([.wildcard {}], .key "WHERE" :: lexemes) := by
  obtain ⟨rules, expr, query⟩ := level
  obtain rfl := reads.rules
  rcases reads.joins with rfl | rfl <;> rfl

/-- A SELECT of the rows that a condition holds of is read behind its keyword. -/
theorem select {tree : Grammar.Expr} {lexemes : List Lexeme}
    (read : level.expression lexemes = .ok (tree, [])) :
    level.select (.mark "*" :: .key "WHERE" :: lexemes) =
      .ok ({ distinct := .all, projection := [.wildcard {}], filter := some tree }, []) := by
  have projection := reads.projection lexemes
  have filter : behind? ["WHERE"] level.expression (.key "WHERE" :: lexemes) =
      .ok (some tree, []) := by
    have there : keywords? ["WHERE"] (.key "WHERE" :: lexemes) = .ok (true, lexemes) :=
      keyword?_key "WHERE" lexemes
    rw [behind?, bind_of_ok there, if_pos rfl]
    exact map_of_ok read
  obtain ⟨plain, other⟩ : level.rules.isOneOf [.bigQuery] = false ∧ level.rules ≠ .generic := by
    rw [reads.rules]
    rcases reads.joins with rfl | rfl <;> decide
  have distinct : level.distinct (.mark "*" :: .key "WHERE" :: lexemes) =
      .ok (.all, .mark "*" :: .key "WHERE" :: lexemes) := rfl
  have top : level.top? (.mark "*" :: .key "WHERE" :: lexemes) =
      .ok ((none, []), .mark "*" :: .key "WHERE" :: lexemes) := rfl
  have into : level.into? (.key "WHERE" :: lexemes) = .ok (none, .key "WHERE" :: lexemes) := rfl
  have sources : (do if ← Grammar.Reader.keyword? "FROM" then level.sources else pure [])
      (.key "WHERE" :: lexemes) = .ok ([], .key "WHERE" :: lexemes) := rfl
  rw [Level.select]
  simp only [plain, Bool.false_eq_true, if_false]
  rw [bind_of_ok distinct, bind_of_ok top]
  simp only []
  rw [bind_of_ok projection, bind_of_ok into, bind_of_choice sources, if_neg other,
    bind_of_ok (pure_apply _ _), bind_of_ok filter]
  rfl

/-- The rows that a condition holds of are read. -/
theorem wholeQuery {condition : Expr} (spelled : condition.Spelled)
    (deep : condition.depth < depth) :
    ∃ query, level.wholeQuery
        (.key "SELECT" :: .mark "*" :: .key "WHERE" :: condition.lexemesIn d) = .ok (query, []) ∧
      (rowsOf condition).ToldBy query := by
  obtain ⟨tree, read, told⟩ := reads.expression spelled deep Ahead.nil
  rw [List.append_nil] at read
  have select := reads.select read
  have toldRows := @Query.toldBy [] (rowsOf condition).select [] [.wildcard {}] [] (some tree) none
    [] [] .nil (.cons (toldByItem_wildcard {}) .nil) nofun .nil (toldBy?_some told) .nil toldBy?_none
    .nil nofun nofun
  refine ⟨_, ?_, toldRows⟩
  obtain ⟨further, whole, last⟩ :=
    level.wholeQuery_of_body (.mark "*" :: .key "WHERE" :: condition.lexemesIn d)
  rw [whole, bind_of_ok (ReadsBack.body_select select Ahead.nil), last]
  rfl

end ReadsSpelled

theorem Expr.Spelled.upperFunctions_eq {expr : Expr} (spelled : expr.Spelled) :
    expr.upperFunctions = expr := by
  have kept : Text.upper "CONCAT" = "CONCAT" := by decide
  induction spelled with
  | column | int => rfl
  | binary _ _ _ _ _ left right => rw [upperFunctions, left, right]
  | nested _ inner => rw [upperFunctions, inner]
  | joined _ _ left right =>
      simp [joinedTo, upperFunctions, upperFunctionsOfList, kept, left, right]

/-- The rows that a spelled condition holds of are read back by the grammar of the dialect that they
are asked for in. -/
theorem ofText_rowsOf (joins : d.JoinsOtherwise) {condition : Expr} (spelled : condition.Spelled)
    (shallow : condition.depth ≤ 47) :
    ∃ read, Query.ofText ((rowsOf condition).text d) (some d) = .ok read ∧
      read.equal (rowsOf condition) = true := by
  obtain ⟨tree, read, result, given, same⟩ :=
    (readsSpelled_ofDepth joins 48).wholeQuery spelled (Nat.lt_succ_of_le shallow)
  have done := @Query.ofText_of_lexemes (some d) _ _ _ (lexemes_rowsOf spelled) rfl read
  rw [upperFunctions_rowsOf spelled.upperFunctions_eq] at same
  exact ⟨result, done.trans given, same⟩

end Sql
end SemanticLayer
