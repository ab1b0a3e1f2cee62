import SemanticLayer.Proofs.Typed

/-!
# Reading names and calls

Dotted names are read back part by part, as columns or in front of the arguments of a call; an
argument is an expression or a star.
-/

namespace SemanticLayer

namespace Grammar.Level

open Reader

variable {level : Level}

/-! ## Words -/

/-- Where what a word starts of its own cannot be read, or is nothing, a name is read. -/
theorem worded_of_fails {word : Word} {lexemes : List Lexeme} {result : Expr × List Lexeme}
    (never : word.keyword ∉ neverNames level.rules)
    (fails : ∀ special, level.reserved? word lexemes = some special →
      ∃ failure, special lexemes = .error failure)
    (named : level.named word lexemes = .ok result) : level.worded word lexemes = .ok result := by
  rw [worded, bind_of_ok (get_apply _)]
  cases found : level.reserved? word lexemes with
  | none => exact named
  | some special =>
      obtain ⟨failure, fails⟩ := fails special found
      simp [never, orElse, fails, named]

/-- A word that starts no operand of its own starts a name, unless a bracket stands behind it. -/
theorem worded_of_free {word : Word} {lexemes : List Lexeme} {result : Expr × List Lexeme}
    (free : word.keyword ∉ Sql.operandWords)
    (unopened : ∀ text ∈ ["(", "[", "\x7b"], startsWithMark text lexemes = false)
    (named : level.named word lexemes = .ok result) : level.worded word lexemes = .ok result := by
  have never : word.keyword ∉ neverNames level.rules := fun found => free (by
    unfold neverNames at found
    split at found
    · exact (by decide : ["EXISTS", "STRUCT", "TRIM"] ⊆ Sql.operandWords) found
    · exact (by decide : ["EXISTS", "INTERVAL", "STRUCT", "TRIM"] ⊆ Sql.operandWords) found)
  have listed {keyword : String} (same : word.keyword = keyword)
      (found : keyword ∈ Sql.operandWords) : False := free (same ▸ found)
  have noParenthesis := unopened "(" (by decide)
  have noBracket := unopened "[" (by decide)
  have noBrace := unopened "\x7b" (by decide)
  have enclosed {α : Type} (reader : Reader α) :
      ∃ failure, parenthesized reader lexemes = .error failure :=
    ⟨_, parenthesized_of_not noParenthesis⟩
  refine worded_of_fails never (fun special found => ?_) named
  simp only [reserved?, noParenthesis, noBracket, noBrace] at found
  split at found
  -- the words of constructs that have to stand in front of a parenthesis
  case h_14 | h_15 | h_16 | h_17 | h_19 | h_20 | h_21 | h_23 | h_24 =>
    cases found
    exact enclosed _
  case h_29 =>
    split at found
    next =>
      cases found
      exact ⟨_, bind_of_error (parenthesized_of_not noParenthesis)⟩
    next => cases found
  -- the words that start something in front of a bracket only, and all others
  case h_22 | h_27 | h_32 => cases found
  case h_31 => simp at found
  all_goals exact (listed ‹_› (by decide)).elim

/-- What a word starts of its own is read. -/
theorem worded_of_reads {word : Word} {lexemes : List Lexeme} {special : Reader Expr}
    {result : Expr × List Lexeme} (found : level.reserved? word lexemes = some special)
    (reads : special lexemes = .ok result) : level.worded word lexemes = .ok result := by
  rw [worded, bind_of_ok (get_apply _), found]
  simp only []
  split
  · exact reads
  · simp [orElse, reads]

/-- A word that no operand in parentheses goes by starts a call in front of a parenthesis. -/
theorem worded_call (rules : level.rules = .generic) {word : Word} {lexemes rest : List Lexeme}
    {arguments : Arguments} (free : word.keyword ∉ Sql.callWords)
    (read : level.arguments lexemes = .ok (arguments, rest))
    (named : level.named word (.mark "(" :: lexemes) =
      .ok (.call { name := ⟨[], Sql.nameOf word⟩, arguments := some arguments }, rest)) :
    level.worded word (.mark "(" :: lexemes) =
      .ok (.call { name := ⟨[], Sql.nameOf word⟩, arguments := some arguments }, rest) := by
  have listed {keyword : String} (same : word.keyword = keyword)
      (found : keyword ∈ Sql.callWords) : False := free (same ▸ found)
  have special (found : level.reserved? word (.mark "(" :: lexemes) = some (do
      if ← mark? "(" then
        let arguments ← level.arguments
        pure (.call { name := ⟨[], Sql.nameOf word⟩, arguments := some arguments })
      else pure (.call { name := ⟨[], Sql.nameOf word⟩ }))) :
      level.worded word (.mark "(" :: lexemes) =
        .ok (.call { name := ⟨[], Sql.nameOf word⟩, arguments := some arguments }, rest) := by
    refine worded_of_reads found ?_
    rw [bind_of_ok (mark?_mark "(" _), if_pos rfl]
    exact bind_of_ok read
  have unreserved (none : level.reserved? word (.mark "(" :: lexemes) = none) :
      level.worded word (.mark "(" :: lexemes) =
        .ok (.call { name := ⟨[], Sql.nameOf word⟩, arguments := some arguments }, rest) := by
    rw [worded, bind_of_ok (get_apply _), none]
    exact named
  by_cases timed : word.keyword ∈
      ["CURRENT_TIMESTAMP", "CURRENT_TIME", "CURRENT_DATE", "LOCALTIME", "LOCALTIMESTAMP"]
  · refine special ?_
    simp only [List.mem_cons, List.not_mem_nil, or_false] at timed
    rcases timed with same | same | same | same | same <;> · rw [reserved?, same]; rfl
  · refine unreserved ?_
    simp only [reserved?, rules]
    split
    case h_8 | h_9 | h_10 | h_11 | h_12 => exact absurd (by simp [*]) timed
    case h_31 => rfl
    case h_32 => rfl
    all_goals exact (listed ‹_› (by decide)).elim

/-! ## Names -/

/-- The lexemes of the further parts of a dotted name. -/
def dots (words : List Word) : List Lexeme :=
  words.flatMap fun word => [.mark ".", .word word]

theorem nameParts_dots {rest : List Lexeme} (stops : startsWithMark "." rest = false)
    (words : List Word) (fuel : Nat) (enough : words.length ≤ fuel) :
    nameParts fuel (dots words ++ rest) = .ok (words.map Sql.nameOf, rest) := by
  induction words generalizing fuel with
  | nil =>
      have none : mark? "." rest = .ok (false, rest) := takeIf_of_false stops
      cases fuel with
      | zero => rfl
      | succ fuel => exact bind_of_ok none
  | cons word more ih =>
      obtain ⟨fuel, rfl⟩ : ∃ less, fuel = less + 1 :=
        ⟨fuel - 1, by simp only [List.length_cons] at enough; omega⟩
      have further := ih fuel (Nat.le_of_succ_le_succ enough)
      rw [dots, List.flatMap_cons, ← dots, List.append_assoc, List.cons_append, nameParts,
        bind_of_ok (mark?_mark "." _), if_pos rfl, List.singleton_append,
        bind_of_ok (next_cons _ _)]
      exact bind_of_ok further

theorem length_dots_le (words : List Word) (rest : List Lexeme) :
    words.length ≤ (dots words ++ rest).length := by
  induction words with
  | nil => exact Nat.zero_le _
  | cons word more ih =>
      simp only [dots, List.flatMap_cons, List.length_append, List.length_cons] at ih ⊢
      omega

theorem startsWithMark_dots {text : String} (other : text ≠ ".") (words : List Word)
    {rest : List Lexeme} (behind : startsWithMark text rest = false) :
    startsWithMark text (dots words ++ rest) = false := by
  cases words with
  | nil => exact behind
  | cons word more => exact beq_eq_false_iff_ne.mpr other.symm

/-- A dotted name is read as a column where no parenthesis stands behind it. -/
theorem named_column {word : Word} {words : List Word} {rest : List Lexeme}
    (follows : Follows rest) :
    level.named word (dots words ++ rest) =
      .ok (Sql.columnTree (Sql.nameOf word) (words.map Sql.nameOf), rest) := by
  have parts := nameParts_dots (follows.startsWithMark (by decide)) words _
    (length_dots_le words rest)
  rw [named, bind_of_ok (get_apply _), bind_of_ok parts, bind_of_ok (ahead_apply _ _),
    follows.startsWithMark (by decide), if_neg Bool.false_ne_true]
  cases words with
  | nil =>
      cases rest with
      | nil => rfl
      | cons lexeme more =>
          rcases follows with ⟨text, -, rfl⟩ | ⟨keyword, -, same⟩
          · rfl
          · cases lexeme with
            | word other => rfl
            | _ => cases same
  | cons next more => rfl

/-- A dotted name is read as that of a call where a parenthesis stands behind it. -/
theorem named_call {word : Word} {words : List Word} {lexemes : List Lexeme} :
    level.named word (dots words ++ .mark "(" :: lexemes) =
      level.call (objectNameOf false (Sql.nameOf word) (words.map Sql.nameOf))
        (.mark "(" :: lexemes) := by
  have parts := @nameParts_dots (.mark "(" :: lexemes) rfl words _
    (length_dots_le words (.mark "(" :: lexemes))
  rw [named, bind_of_ok (get_apply _), bind_of_ok parts, bind_of_ok (ahead_apply _ _)]
  rfl

/-! ## Stars -/

theorem starPath?_dots {rest : List Lexeme} (stops : startsWithMark "." rest = false)
    (words : List Word) (fuel : Nat) (path : Sql.Path) :
    ∃ others, starPath? fuel path (dots words ++ rest) = .ok (none, others) := by
  induction words generalizing fuel path with
  | nil =>
      have noMark : mark? "." rest = .ok (false, rest) := takeIf_of_false stops
      cases fuel with
      | zero => exact ⟨_, rfl⟩
      | succ fuel => exact ⟨rest, bind_of_ok noMark⟩
  | cons word more ih =>
      cases fuel with
      | zero => exact ⟨_, rfl⟩
      | succ fuel =>
          obtain ⟨others, further⟩ := ih fuel (path ++ [Sql.nameOf word])
          refine ⟨others, ?_⟩
          rw [dots, List.flatMap_cons, ← dots, List.append_assoc, List.cons_append, starPath?,
            bind_of_ok (mark?_mark "." _), if_pos rfl, List.singleton_append,
            bind_of_ok (next_cons _ _)]
          exact further

theorem starPath?_star (rest : List Lexeme) (words : List Word) (fuel : Nat)
    (enough : words.length < fuel) (path : Sql.Path) :
    starPath? fuel path (dots words ++ .mark "." :: .mark "*" :: rest) =
      .ok (some (path ++ words.map Sql.nameOf), rest) := by
  induction words generalizing fuel path with
  | nil =>
      obtain ⟨fuel, rfl⟩ : ∃ less, fuel = less + 1 := ⟨fuel - 1, by omega⟩
      rw [List.map_nil, List.append_nil]
      rfl
  | cons word more ih =>
      obtain ⟨fuel, rfl⟩ : ∃ less, fuel = less + 1 := ⟨fuel - 1, by omega⟩
      rw [dots, List.flatMap_cons, ← dots, List.append_assoc, List.cons_append, starPath?,
        bind_of_ok (mark?_mark "." _), if_pos rfl, List.singleton_append,
        bind_of_ok (next_cons _ _), List.map_cons]
      have further := ih fuel (Nat.lt_of_succ_lt_succ enough) (path ++ [Sql.nameOf word])
      rw [List.append_assoc, List.singleton_append] at further
      exact further

/-- Where no star is found an expression is read. -/
theorem starred_of_none {lexemes : List Lexeme} (noStar : startsWithMark "*" lexemes = false)
    (noPath : ∀ first, starStart? lexemes = some first →
      ∀ fuel, ∃ others, starPath? fuel [first] (lexemes.drop 1) = .ok (none, others)) :
    level.starred lexemes = (Argument.expr <$> level.expression) lexemes := by
  rw [starred, bind_of_ok (get_apply _), noStar, if_neg Bool.false_ne_true]
  cases start : starStart? lexemes with
  | none => rfl
  | some first =>
      obtain ⟨others, path⟩ := noPath first start lexemes.length
      cases lexemes with
      | nil => cases start
      | cons lexeme rest =>
          simp only []
          rw [bind_of_ok (next_cons _ _)]
          exact bind_of_ok path

/-- A dotted name with a star is read. -/
theorem starred_path (word : Word) (words : List Word) (rest : List Lexeme) :
    level.starred (.word word :: (dots words ++ .mark "." :: .mark "*" :: rest)) =
      .ok (.qualifiedWildcard ((word :: words).map Sql.nameOf), rest) := by
  have dotted : startsWithMark "." (dots words ++ .mark "." :: .mark "*" :: rest) = true := by
    cases words <;> rfl
  have enough : words.length <
      (Lexeme.word word :: (dots words ++ .mark "." :: .mark "*" :: rest)).length :=
    Nat.lt_succ_of_le (length_dots_le words _)
  have path := starPath?_star rest words _ enough [Sql.nameOf word]
  have start : starStart? (.word word :: (dots words ++ .mark "." :: .mark "*" :: rest)) =
      some (Sql.nameOf word) := if_pos dotted
  rw [starred, bind_of_ok (get_apply _), startsWithMark_cons, Lexeme.isMark_word,
    if_neg Bool.false_ne_true, start]
  simp only []
  rw [bind_of_ok (next_cons _ _), bind_of_ok path]
  rfl

end Grammar.Level

namespace Sql

open Grammar (Lexeme Word Level Ahead Follows Closes Leaves)
open Grammar.Level (dots)
open Grammar.Reader

/-! ## Dotted names -/

theorem Path.dottedLexemes_cons (first : Name) (rest : Path) :
    Path.dottedLexemes (first :: rest) = .word first.written :: dots (rest.map Name.written) := by
  simp [dottedLexemes, dots, List.flatMap_map]

theorem Path.lexemes_cons (first : Name) (rest : Path) (lexemes : List Lexeme) :
    Path.lexemes (first :: rest) ++ lexemes =
      .word first.written :: (dots (rest.map Name.written) ++ .mark "." :: lexemes) := by
  induction rest generalizing first with
  | nil => rfl
  | cons second more ih =>
      have inner := ih second
      simp only [Path.lexemes, dots, List.flatMap_cons, List.cons_append, List.nil_append,
        List.map_cons] at inner ⊢
      rw [inner]

/-- A star that a path stands in front of starts with the parts of the path. -/
theorem lexemes_wildcard_cons (first : Name) (rest : Path) (behind : List Lexeme) :
    (Expr.wildcard (some (first :: rest))).lexemes ++ behind =
      .word first.written :: (dots (rest.map Name.written) ++ .mark "." :: .mark "*" :: behind) := by
  rw [Expr.lexemes_wildcard, Option.getD_some, List.append_assoc, List.singleton_append,
    Path.lexemes_cons]

/-- A call starts with the parts of its path and its name. -/
theorem lexemes_call_cons (name first : Name) (rest : Path) (args : List Expr) (distinct : Bool)
    (behind : List Lexeme) :
    (Expr.call name (some (first :: rest)) args distinct).lexemes ++ behind =
      .word first.written ::
        (dots (rest.map Name.written ++ [Word.plain (Dialect.duckDb.functionText name.value)]) ++
          .mark "(" :: ((if distinct then [.key "DISTINCT"] else []) ++
            commaJoined (args.map Expr.lexemes) ++ .mark ")" :: behind)) := by
  rw [Expr.lexemes_call, Option.getD_some, List.append_assoc, Path.lexemes_cons]
  simp [dots]

/-! ## Arguments -/

/-- An expression starts with no dotted name that a star ends. -/
theorem Expr.Readable.noStarPath {expr : Expr} (readable : expr.Readable)
    (operand : expr.isOperand = true) {behind : List Lexeme}
    (stops : Grammar.startsWithMark "." behind = false) :
    ∀ first, Level.starStart? (expr.lexemes ++ behind) = some first → ∀ fuel,
      ∃ others, Level.starPath? fuel [first] ((expr.lexemes ++ behind).drop 1) =
        .ok (none, others) := by
  have named (word : Word) (words : List Word) (rest : List Lexeme)
      (stops : Grammar.startsWithMark "." rest = false) :
      ∀ first, Level.starStart? (.word word :: (dots words ++ rest)) = some first → ∀ fuel,
        ∃ others, Level.starPath? fuel [first] (dots words ++ rest) = .ok (none, others) :=
    fun first _ fuel => Level.starPath?_dots stops words fuel [first]
  induction expr, readable using front_induction generalizing behind with
  | longer expr shorter tail _ _ _ whole extended isOperand ih =>
      rw [whole, List.append_assoc]
      exact ih isOperand ((extended.ahead behind).startsWithMark (by decide))
  | operand expr readable front =>
      have signed : "." ∉ ["(", "-", "+", "*"] := by decide
      cases expr with
      | column found =>
          obtain ⟨first, more, parts⟩ : ∃ first more, found.qualifier ++ [found.name] = first :: more :=
            List.exists_cons_of_ne_nil (by simp)
          rw [lexemes_column, parts, Path.dottedLexemes_cons]
          exact named _ _ _ stops
      | literal value =>
          rcases value with _ | _ | text | (_ | _) | _
          · exact fun first start => absurd start nofun
          · exact fun first start => absurd start nofun
          · intro first start
            have none : Level.starStart? (.string text :: behind) = none :=
              if_neg (by simp [stops])
            cases none.symm.trans start
          · exact named (Word.plain "false") [] behind stops
          · exact named (Word.plain "true") [] behind stops
          · exact named (Word.plain "NULL") [] behind stops
      | unary op inner =>
          have unmarked : Grammar.startsWithMark "." (inner.lexemes ++ behind) = false :=
            Readable.startsWithMark readable.2 (by decide) (fun same => absurd same (by decide)) _
          rw [lexemes_unary]
          cases op with
          | not => exact named (Word.plain "NOT") [] _ unmarked
          | _ => exact fun first start => absurd start nofun
      | call name path args distinct =>
          rcases path with - | - | ⟨first, more⟩
          · rw [lexemes_call]
            exact named _ [] (.mark "(" :: _) rfl
          · exact absurd rfl readable.1.1.2.2.1
          · rw [lexemes_call_cons]
            exact named _ _ _ rfl
      | case first conditions results otherwise =>
          have unmarked := readable.startsWithMark_case signed behind
          rw [lexemes_case] at unmarked ⊢
          exact named (Word.plain "CASE") [] _ unmarked
      | nested inner =>
          rw [lexemes_nested]
          exact fun first start => absurd start nofun
      | subquery query =>
          rw [lexemes_subquery]
          exact fun first start => absurd start nofun
      | wildcard path => cases operand
      | _ => cases front

namespace ReadsBack

variable {level : Level} {depth : Nat} (reads : ReadsBack level depth)

include reads

theorem argumentMark_of_not {lexemes : List Lexeme}
    (noArrow : Grammar.startsWithMark "=>" lexemes = false)
    (noAssignment : Grammar.startsWithMark ":=" lexemes = false) :
    level.argumentMark lexemes = .error .unexpected := by
  cases lexemes with
  | nil => rfl
  | cons lexeme rest =>
      rw [Level.argumentMark, bind_of_ok (next_cons _ _), reads.rules]
      split
      · simp at noArrow
      · simp at noAssignment
      · rfl
      · rfl
      · rfl

/-- An argument without a name is read as an expression or a star. -/
theorem argument_eq_starred {lexemes : List Lexeme} {argument : Grammar.Argument}
    {rest : List Lexeme} (noArrow : Grammar.startsWithMark "=>" (lexemes.drop 1) = false)
    (noAssignment : Grammar.startsWithMark ":=" (lexemes.drop 1) = false)
    (starred : level.starred lexemes = .ok (argument, rest)) :
    level.argument lexemes = .ok (argument, rest) := by
  have unnamed : attempt (do
      let name ← identifier
      level.argumentMark
      let value ← level.starred
      pure (Grammar.Argument.named name value)) lexemes = .ok (none, lexemes) := by
    refine attempt_of_error ?_
    cases lexemes with
    | nil => rfl
    | cons lexeme behind =>
        have fails := reads.argumentMark_of_not noArrow noAssignment
        rw [List.drop_succ_cons, List.drop_zero] at fails
        have first : identifier (lexeme :: behind) = .error .unexpected ∨
            ∃ name, identifier (lexeme :: behind) = .ok (name, behind) := by
          rw [identifier, bind_of_ok (next_cons _ _)]
          cases lexeme.name? with
          | none => exact .inl rfl
          | some name => exact .inr ⟨name, rfl⟩
        rcases first with unread | ⟨name, read⟩
        · exact bind_of_error unread
        · rw [bind_of_ok read, bind_of_error fails]
  rw [Level.argument, bind_of_ok unnamed]
  exact starred

/-- An expression is read back where a star may stand as well. -/
theorem starred {expr : Expr} (readable : expr.Readable) (operand : expr.isOperand = true)
    (deep : expr.depth < depth) {rest : List Lexeme} (closes : Closes rest) :
    ∃ tree, level.starred (expr.lexemes ++ rest) = .ok (.expr tree, rest) ∧ expr.ToldBy tree := by
  obtain ⟨tree, read, told⟩ := reads.expression readable operand deep closes
  refine ⟨tree, ?_, told⟩
  rw [Level.starred_of_none (readable.startsWithMark (by decide) (fun _ => operand) rest)
    (readable.noStarPath operand (closes.startsWithMark (by decide)))]
  exact map_of_ok read

/-- The argument of a call is read back in front of a comma and of the closing parenthesis. -/
theorem argument {arg : Expr} (readable : arg.Readable)
    (shape : arg.isOperand = true ∨ ∃ star, arg = .wildcard star) (deep : arg.depth < depth)
    {behind : List Lexeme} (stands : Ahead [")", ","] [] behind) :
    ∃ tree, level.argument (arg.lexemes ++ behind) = .ok (tree, behind) ∧
      arg.ToldByArgument tree := by
  have noArrow : Grammar.startsWithMark "=>" ((arg.lexemes ++ behind).drop 1) = false :=
    readable.startsWithMark_drop (by decide) (stands.startsWithMark (by decide))
  have noAssignment : Grammar.startsWithMark ":=" ((arg.lexemes ++ behind).drop 1) = false :=
    readable.startsWithMark_drop (by decide) (stands.startsWithMark (by decide))
  rcases shape with operand | ⟨star, rfl⟩
  · obtain ⟨tree, read, told⟩ :=
      reads.starred readable operand deep (stands.mono (fun _ => id) (by simp))
    exact ⟨.expr tree, reads.argument_eq_starred noArrow noAssignment read,
      Expr.toldByArgument_expr told⟩
  · rcases star with - | - | ⟨first, more⟩
    · exact ⟨.wildcard, reads.argument_eq_starred noArrow noAssignment rfl,
        Expr.toldByArgument_wildcard⟩
    · exact absurd rfl readable.1
    · refine ⟨_, reads.argument_eq_starred noArrow noAssignment ?_,
        Expr.toldByArgument_path (first :: more)⟩
      rw [lexemes_wildcard_cons, ← map_nameOf_written]
      exact Level.starred_path first.written (more.map Name.written) behind

/-- The items of a list of arguments are read back. -/
theorem argumentItems {args : List Expr} (some : args ≠ [])
    (each : ∀ arg ∈ args, arg.Readable ∧
      (arg.isOperand = true ∨ ∃ star, arg = .wildcard star) ∧ arg.depth < depth)
    (rest : List Lexeme) :
    ∃ trees, Grammar.Reader.commaSeparated .generic level.argument
          (commaJoined (args.map Expr.lexemes) ++ .mark ")" :: rest) =
        .ok (trees, .mark ")" :: rest) ∧ List.Forall₂ Expr.ToldByArgument args trees := by
  refine separated_told (fun _ => rfl) rfl some fun arg found behind stands => ?_
  obtain ⟨readable, shape, deep⟩ := each arg found
  refine reads.argument readable shape deep ?_
  rcases stands with ⟨more, rfl⟩ | rfl
  · exact Ahead.mark more (by decide)
  · exact Ahead.mark rest (by decide)

omit reads in
/-- What is read of the arguments of a call in front of the first of them. -/
theorem argumentStart {args : List Expr} (some : args ≠ []) (each : ∀ arg ∈ args, arg.Readable)
    (rest : List Lexeme) {lexemes : List Lexeme}
    (whole : lexemes = commaJoined (args.map Expr.lexemes) ++ .mark ")" :: rest) :
    Level.nullClause? lexemes = .ok ([], lexemes) ∧
      mark? ")" lexemes = .ok (false, lexemes) ∧
      keyword? "ALL" lexemes = .ok (false, lexemes) ∧
      keyword? "DISTINCT" lexemes = .ok (false, lexemes) := by
  obtain ⟨arg, others, rfl⟩ := List.exists_cons_of_ne_nil some
  have readable := each arg List.mem_cons_self
  rw [List.map_cons, commaJoined_cons, List.append_assoc] at whole
  obtain ⟨behind, stands, rfl⟩ : ∃ behind, Ahead [")", ","] [] behind ∧
      lexemes = arg.lexemes ++ behind := by
    refine ⟨_, ?_, whole⟩
    rcases behind_item Expr.lexemes others (.mark ")" :: rest) with ⟨more, same⟩ | same
    · rw [same]
      exact Ahead.mark more (by decide)
    · rw [same]
      exact Ahead.mark rest (by decide)
  have noClause (first : String) (free : first ∉ ["CASE", "NOT"]) :
      keywords? [first, "ON", "NULL"] (arg.lexemes ++ behind) =
        .ok (false, arg.lexemes ++ behind) :=
    takeIf_of_false (readable.startsWithKeywords ["NULL"] free (by decide)
      (stands.startsWithKeywords ["NULL"] (by decide)))
  have unclosed : Grammar.startsWithMark ")" (arg.lexemes ++ behind) = false :=
    readable.startsWithMark (by decide) (fun same => absurd same (by decide)) behind
  refine ⟨?_, takeIf_of_false unclosed, readable.keyword? ?_ behind, readable.keyword? ?_ behind⟩
  · rw [Level.nullClause?, bind_of_ok (noClause "ABSENT" (by decide)), if_neg Bool.false_ne_true,
      bind_of_ok (noClause "NULL" (by decide))]
    rfl
  · exact readable.headKeyword_ne_of_reserved (by decide) (by decide) (by decide)
  · exact readable.headKeyword_ne_of_reserved (by decide) (by decide) (by decide)

/-- The arguments of a call are read back up to the closing parenthesis. -/
theorem arguments {args : List Expr}
    (each : ∀ arg ∈ args, arg.Readable ∧
      (arg.isOperand = true ∨ ∃ star, arg = .wildcard star) ∧ arg.depth < depth)
    {distinct : Bool} (some : distinct = true → args ≠ []) (rest : List Lexeme) :
    ∃ trees, level.arguments ((if distinct then [.key "DISTINCT"] else []) ++
          commaJoined (args.map Expr.lexemes) ++ .mark ")" :: rest) =
        .ok (.list (if distinct then .some .distinct else none) trees [] none none [], rest) ∧
      List.Forall₂ Expr.ToldByArgument args trees := by
  cases args with
  | nil =>
      cases distinct with
      | true => exact absurd rfl (some rfl)
      | false => exact ⟨[], rfl, .nil⟩
  | cons arg others =>
      have nonempty := List.cons_ne_nil arg others
      obtain ⟨trees, items, told⟩ := reads.argumentItems nonempty each rest
      obtain ⟨noClause, unclosed, noAll, noDistinct⟩ :=
        argumentStart nonempty (fun other found => (each other found).1) rest rfl
      refine ⟨trees, ?_, told⟩
      have start : ∃ lexemes, (if distinct then [.key "DISTINCT"] else []) ++
            commaJoined ((arg :: others).map Expr.lexemes) ++ .mark ")" :: rest = lexemes ∧
          Level.nullClause? lexemes = .ok ([], lexemes) ∧
          mark? ")" lexemes = .ok (false, lexemes) ∧
          Level.duplicates? lexemes = .ok (if distinct then .some .distinct else none,
            commaJoined ((arg :: others).map Expr.lexemes) ++ .mark ")" :: rest) := by
        cases distinct with
        | true => exact ⟨_, rfl, rfl, rfl, rfl⟩
        | false =>
            refine ⟨_, rfl, noClause, unclosed, ?_⟩
            rw [if_neg Bool.false_ne_true, List.nil_append, Level.duplicates?, bind_of_ok noAll,
              bind_of_ok noDistinct]
            rfl
      obtain ⟨lexemes, whole, noClause, unclosed, kept⟩ := start
      rw [whole, Level.arguments, reads.rules, bind_of_ok noClause, bind_of_ok unclosed,
        if_neg Bool.false_ne_true, bind_of_ok kept, bind_of_ok items]
      rfl

/-- A call is read from the opening parenthesis on if its arguments are. -/
theorem call {duplicates : Option Grammar.Duplicates} {trees : List Grammar.Argument}
    {lexemes rest : List Lexeme}
    (read : level.arguments lexemes = .ok (.list duplicates trees [] none none [], rest))
    (name : Grammar.ObjectName) (follows : Follows rest) :
    level.call name (.mark "(" :: lexemes) =
      .ok (.call { name, arguments := some (.list duplicates trees [] none none []) }, rest) := by
  have plain : level.filter? rest = .ok (none, rest) := by
    rw [Level.filter?, reads.rules]
    rfl
  have untreated : Level.nullTreatment? rest = .ok (none, rest) := by
    rw [Level.nullTreatment?, bind_of_ok (follows.oneOf? (by decide))]
    rfl
  rw [Level.call, bind_of_ok (expectMark_mark "(" _), reads.rules, bind_of_ok (ahead_apply _ _),
    if_neg (by simp [Grammar.Rules.isOneOf]), bind_of_ok read, if_pos rfl,
    bind_of_ok (follows.mark? (by decide)), if_neg Bool.false_ne_true, bind_of_ok (pure_apply _ _)]
  simp only []
  rw [bind_of_ok (follows.keywords? ["GROUP"] (by decide)), if_neg Bool.false_ne_true,
    bind_of_ok (pure_apply _ _), bind_of_ok plain, if_neg (by simp [Grammar.Arguments.clauses]),
    bind_of_ok untreated, Level.window?, bind_of_ok (follows.behind? _ (by decide))]
  rfl

end ReadsBack
end Sql
end SemanticLayer
