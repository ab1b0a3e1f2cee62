import SemanticLayer.Proofs.RoundTrip

/-!
# Bare words

A name that is written without quotes is a word, which where it stands the grammar may take for one
of its own. What a word is read as is told where an expression ends and where a relation does.
-/

namespace SemanticLayer

namespace Grammar

/-! ## What readers give -/

namespace Reader

variable {α β : Type} {good : β → Prop}

/-- Whether all that a reader gives has some property. -/
def Gives (good : β → Prop) (reader : Reader β) : Prop :=
  ∀ lexemes value rest, reader lexemes = .ok (value, rest) → good value

theorem Gives.pure {value : β} (holds : good value) : Gives good (pure value) := by
  rintro lexemes _ rest ⟨⟩
  exact holds

theorem Gives.unexpected : Gives good (unexpected : Reader β) := by
  rintro lexemes value rest ⟨⟩

theorem Gives.bind {first : Reader α} {further : α → Reader β}
    (all : ∀ value, Gives good (further value)) : Gives good (first >>= further) := by
  intro lexemes value rest read
  obtain ⟨between, behind, -, last⟩ := bind_eq_ok.1 read
  exact all between behind value rest last

theorem Gives.map {first : Reader α} {change : α → β} (all : ∀ value, good (change value)) :
    Gives good (change <$> first) := by
  intro lexemes value rest read
  obtain ⟨before, -, rfl⟩ := map_eq_ok.1 read
  exact all before

theorem Gives.ite {condition : Prop} [Decidable condition] {first second : Reader β}
    (yes : Gives good first) (no : Gives good second) :
    Gives good (if condition then first else second) := by
  split
  · exact yes
  · exact no

end Reader

open Reader (Gives bind_eq_ok bind_of_ok get_apply next_cons)

namespace Level

variable {level : Level}

/-- Whether a tree is no column of a bare name. -/
def NoName (tree : Expr) : Prop :=
  ∀ name, tree ≠ .identifier name

theorem gives_isTest (subject : Expr) : Gives NoName (level.isTest subject) := by
  unfold isTest
  -- a chain of keywords with a tree behind each
  repeat' first
    | exact Gives.pure fun _ => Expr.noConfusion
    | exact Gives.map fun _ _ => Expr.noConfusion
    | exact Gives.unexpected
    | refine Gives.bind fun _ => Gives.ite ?_ ?_

theorem gives_negatableTest (subject : Expr) : Gives NoName (level.negatableTest subject) := by
  unfold negatableTest patternTest inTest betweenTest
  dsimp only
  repeat' first
    | exact Gives.pure fun _ => Expr.noConfusion
    | exact Gives.unexpected
    | refine Gives.bind fun _ => ?_
    | refine Gives.ite ?_ ?_

theorem gives_quantified (left : Expr) (op : Operator) (strength : Nat) (keyword : String) :
    Gives NoName (level.quantified left op strength keyword) := by
  unfold quantified
  dsimp only
  repeat' first
    | exact Gives.pure fun _ => Expr.noConfusion
    | exact Gives.unexpected
    | refine Gives.bind fun _ => ?_
    | refine Gives.ite ?_ ?_

theorem gives_subscript (array : Expr) : Gives NoName (level.subscript array) := by
  unfold subscript
  dsimp only
  repeat' first
    | exact Gives.pure fun _ => Expr.noConfusion
    | refine Gives.bind fun _ => ?_
    | refine Gives.ite ?_ ?_

/-- What binds to an operand makes no name of it. -/
theorem gives_extend (left : Expr) (strength : Nat) : Gives NoName (level.extend left strength) := by
  unfold extend
  refine Gives.bind fun lexemes => Gives.bind fun lexeme => ?_
  split
  · refine Gives.bind fun found => ?_
    split
    · exact gives_quantified left _ strength _
    · exact Gives.map fun _ _ => Expr.noConfusion
  · split
    · split
      · exact gives_isTest left
      · exact Gives.bind fun _ => Gives.bind fun _ => Gives.pure fun _ => Expr.noConfusion
      · exact Gives.bind fun _ => gives_negatableTest left
    · exact Gives.bind fun _ => Gives.pure fun _ => Expr.noConfusion
    · exact Gives.pure fun _ => Expr.noConfusion
    · exact gives_subscript left
    · exact Gives.unexpected

theorem gives_extended (strength fuel : Nat) {left : Expr} (noName : NoName left) :
    Gives NoName (level.extended strength fuel left) := by
  induction fuel generalizing left with
  | zero => exact Gives.pure noName
  | succ fuel ih =>
      intro lexemes tree rest read
      obtain ⟨between, behind, -, read⟩ := bind_eq_ok.1 read
      split at read
      · exact Gives.pure noName behind tree rest read
      · obtain ⟨longer, further, extends_, last⟩ := bind_eq_ok.1 read
        exact ih (gives_extend left _ behind longer further extends_) further tree rest last

theorem gives_interval : Gives NoName level.interval := by
  unfold interval
  dsimp only
  repeat' first
    | exact Gives.pure fun _ => Expr.noConfusion
    | exact Gives.unexpected
    | refine Gives.bind fun _ => ?_
    | split

theorem gives_lateralFunction :
    Gives (fun factor => ∃ name items label, factor = .function name items label)
      level.lateralFunction := by
  unfold lateralFunction
  refine Gives.bind fun name => Gives.bind fun _ => Gives.bind fun closed => ?_
  split
  · exact Gives.bind fun items => Gives.bind fun label => Gives.pure ⟨name, items, label, rfl⟩
  · exact Gives.bind fun _ => Gives.bind fun _ => Gives.bind fun items => Gives.bind fun label =>
      Gives.pure ⟨name, items, label, rfl⟩

/-! ## Operands that a word starts -/

variable {word : Word} {rest : List Lexeme} {special : Reader Expr} {tree : Expr}

/-- No type starts with a word in front of what may stand behind an expression, except for that of
an interval. -/
theorem typedLiteral?_of_closes (other : word.keyword ≠ "INTERVAL") (closes : Closes rest) :
    level.typedLiteral? (.word word :: rest) = .ok (none, .word word :: rest) := by
  refine typedLiteral?_of_balks fun shape found => ⟨?_, fun inner => ?_⟩
  · rintro rfl
    exact other (TypeShape.eq_interval found)
  · exact closes.follows.behindName.balks_shaped (fun _ => closes.startsWithMark (by decide)) inner

/-- What a word starts of its own is read as the operand. -/
theorem operand_of_reserved (other : word.keyword ≠ "INTERVAL") (closes : Closes rest)
    (found : level.reserved? word rest = some special) (reads : special rest = .ok (tree, rest)) :
    level.operand (.word word :: rest) = .ok (tree, rest) := by
  refine Sql.ReadsBack.operand_of_plainOperand (typedLiteral?_of_closes other closes) ?_
    closes.follows
  rw [plainOperand, bind_of_ok (get_apply _), bind_of_ok (next_cons _ _)]
  exact worded_of_reads found reads

/-- A word that is never a name is nothing if what it starts cannot be read. -/
theorem plainOperand_of_never {failure : Failure} (never : word.keyword ∈ neverNames level.rules)
    (found : level.reserved? word rest = some special) (fails : special rest = .error failure) :
    level.plainOperand (.word word :: rest) = .error failure := by
  rw [plainOperand, bind_of_ok (get_apply _), bind_of_ok (next_cons _ _)]
  simp only []
  rw [worded, bind_of_ok (get_apply _), found]
  simp only []
  rw [if_pos (by simpa using never)]
  exact fails

end Level

end Grammar

namespace Sql

open Grammar (Word Lexeme Level Closes BehindRelation)
open Grammar.Reader

/-! ## Words without quotes -/

variable {value : String}

/-- A name that needs no quotes is written as the bare word. -/
theorem written_of_bare (bare : needsQuoting value = false) :
    Name.written { value } = .plain value := by
  rw [Name.written, writtenName]
  exact if_neg (by simp [bare])

/-- The keyword of a bare word is no reserved word. -/
theorem upper_ne_of_bare (bare : needsQuoting value = false) {keyword : String}
    (reserved : Text.asciiLower keyword ∈ reservedWords) : Text.upper value ≠ keyword := by
  have other := Name.written_keyword_ne { value } reserved
  rwa [written_of_bare bare] at other

/-- The words of calls without parentheses. -/
def callsAlone : List String :=
  ["CURRENT_CATALOG", "CURRENT_USER", "SESSION_USER", "CURRENT_TIMESTAMP", "CURRENT_TIME",
    "CURRENT_DATE", "LOCALTIME", "LOCALTIMESTAMP"]

/-- What a bare word is read as where an expression stands: a truth value, a call without
parentheses, or a column. -/
inductive ReadsAs (value : String) : Grammar.Expr → Prop
  | truth (same : Text.upper value = "TRUE") : ReadsAs value (.value (.boolean true))
  | falsity (same : Text.upper value = "FALSE") : ReadsAs value (.value (.boolean false))
  | call (alone : Text.upper value ∈ callsAlone) : ReadsAs value (.call { name := ⟨[], { value }⟩ })
  | column (free : Text.upper value ∉ operandWords) : ReadsAs value (.identifier { value })

/-- A bare word is read as something, or it is never a name. -/
theorem readsAs_or_never (bare : needsQuoting value = false) :
    (∃ tree, ReadsAs value tree) ∨ Text.upper value ∈ Level.neverNames .generic := by
  by_cases free : Text.upper value ∉ operandWords
  · exact .inl ⟨_, .column free⟩
  · have cover : ∀ word ∈ operandWords, word = "TRUE" ∨ word = "FALSE" ∨ word ∈ callsAlone ∨
        word ∈ Level.neverNames .generic ∨ Text.asciiLower word ∈ reservedWords := by decide
    rcases cover _ (Decidable.not_not.1 free) with same | same | alone | never | reserved
    · exact .inl ⟨_, .truth same⟩
    · exact .inl ⟨_, .falsity same⟩
    · exact .inl ⟨_, .call alone⟩
    · exact .inr never
    · exact absurd rfl (upper_ne_of_bare bare reserved)

/-! ## Operands -/

section

variable {level : Level} {tree : Grammar.Expr} {rest : List Lexeme}

/-- A bare word is read as its tree where an expression ends. -/
theorem ReadsAs.operand (read : ReadsAs value tree) (rules : level.rules = .generic)
    (closes : Closes rest) : level.operand (.word (.plain value) :: rest) = .ok (tree, rest) := by
  cases read with
  | truth same =>
      refine Level.operand_of_reserved (by simp [Word.plain, same]) closes ?_ (pure_apply _ _)
      rw [Level.reserved?, Word.plain, same, rules]
      rfl
  | falsity same =>
      refine Level.operand_of_reserved (by simp [Word.plain, same]) closes ?_ (pure_apply _ _)
      rw [Level.reserved?, Word.plain, same, rules]
      rfl
  | call alone =>
      have noInterval : Text.upper value ≠ "INTERVAL" := fun same =>
        absurd (same ▸ alone : "INTERVAL" ∈ callsAlone) (by decide)
      have alone? : (do
          if ← mark? "(" then
            let arguments ← level.arguments
            pure (Grammar.Expr.call { name := ⟨[], { value }⟩, arguments := some arguments })
          else pure (Grammar.Expr.call { name := ⟨[], { value }⟩ })) rest =
            .ok (.call { name := ⟨[], { value }⟩ }, rest) := by
        rw [bind_of_ok (closes.mark? (by decide))]
        rfl
      simp only [callsAlone, List.mem_cons, List.not_mem_nil, or_false] at alone
      rcases alone with same | same | same | same | same | same | same | same
      case inl | inr.inl | inr.inr.inl =>
        refine Level.operand_of_reserved noInterval closes ?_ (pure_apply _ _)
        rw [Level.reserved?, Word.plain, same, rules]
        rfl
      all_goals
        refine Level.operand_of_reserved noInterval closes ?_ alone?
        rw [Level.reserved?, Word.plain, same]
        rfl
  | column free =>
      have noInterval : Text.upper value ≠ "INTERVAL" := fun same => free (same ▸ by decide)
      exact ReadsBack.operand_of_plainOperand (Level.typedLiteral?_of_closes noInterval closes)
        (ReadsBack.plainOperand_dotted [] free closes.follows) closes.follows

/-- The word INTERVAL starts an interval, or nothing. -/
theorem operand_of_interval (same : Text.upper value = "INTERVAL")
    (rules : level.rules = .generic) :
    level.operand (.word (.plain value) :: rest) = level.interval rest := by
  have tried : level.typedLiteral? (.word (.plain value) :: rest) =
      attempt (do let _ ← next; level.interval) (.word (.plain value) :: rest) := by
    rw [Level.typedLiteral?, bind_of_ok (get_apply _), Grammar.frontKeyword_word, Word.plain, same]
    rfl
  have found : level.reserved? (.plain value) rest = some level.interval := by
    rw [Level.reserved?, Word.plain, same]
    rfl
  have behind : (do let _ ← next; level.interval) (.word (.plain value) :: rest) =
      level.interval rest := bind_of_ok (next_cons _ _)
  cases read : level.interval rest with
  | ok result =>
      have typed : level.typedLiteral? (.word (.plain value) :: rest) =
          .ok (some result.1, result.2) := by rw [tried, attempt, behind, read]
      rw [Level.operand, bind_of_ok typed]
      rfl
  | error failure =>
      have never : (Word.plain value).keyword ∈ Level.neverNames level.rules := by
        rw [rules, show (Word.plain value).keyword = "INTERVAL" from same]
        decide
      have unread := Level.plainOperand_of_never never found read
      cases failure with
      | unexpected =>
          have untyped : level.typedLiteral? (.word (.plain value) :: rest) =
              .ok (none, .word (.plain value) :: rest) := by rw [tried, attempt, behind, read]
          rw [Level.operand, bind_of_ok untyped]
          exact bind_of_error unread
      | tooDeep =>
          have untyped : level.typedLiteral? (.word (.plain value) :: rest) = .error .tooDeep := by
            rw [tried, attempt, behind, read]
          rw [Level.operand, bind_of_error untyped]

/-- The other words that are never names start something in parentheses, or nothing. -/
theorem operand_of_never (never : Text.upper value ∈ Level.neverNames .generic)
    (other : Text.upper value ≠ "INTERVAL") (rules : level.rules = .generic)
    (closes : Closes rest) :
    level.operand (.word (.plain value) :: rest) = .error .unexpected := by
  have unopened := closes.startsWithMark (by decide : "(" ∉ [")", ","])
  have unread {special : Grammar.Reader Grammar.Expr}
      (found : level.reserved? (.plain value) rest = some special)
      (fails : special rest = .error .unexpected) :
      level.operand (.word (.plain value) :: rest) = .error .unexpected := by
    rw [Level.operand, bind_of_ok (Level.typedLiteral?_of_closes other closes)]
    exact bind_of_error (Level.plainOperand_of_never (by rw [rules]; exact never) found fails)
  have words : Text.upper value = "EXISTS" ∨ Text.upper value = "STRUCT" ∨
      Text.upper value = "TRIM" := by
    simpa [Level.neverNames, other] using never
  rcases words with same | same | same
  · have found : level.reserved? (.plain value) rest = some (level.existsOf false) := by
      rw [Level.reserved?, Word.plain, same]
      rfl
    exact unread found (bind_of_error (parenthesized_of_not unopened))
  · have found : level.reserved? (.plain value) rest = some level.structOf := by
      rw [Level.reserved?, Word.plain, same, rules]
      rfl
    exact unread found (bind_of_error (parenthesized_of_not unopened))
  · have found : level.reserved? (.plain value) rest = some level.trimOf := by
      rw [Level.reserved?, Word.plain, same]
      rfl
    exact unread found (parenthesized_of_not unopened)

/-- A word that is never a name is not read as one where an expression ends. -/
theorem noName_of_never (never : Text.upper value ∈ Level.neverNames .generic)
    (rules : level.rules = .generic) (closes : Closes rest) {behind : List Lexeme}
    (read : level.operand (.word (.plain value) :: rest) = .ok (tree, behind)) :
    Level.NoName tree := by
  by_cases same : Text.upper value = "INTERVAL"
  · rw [operand_of_interval same rules] at read
    exact Level.gives_interval _ _ _ read
  · rw [operand_of_never never same rules closes] at read
    cases read

/-! ## Expressions -/

/-- An operand is the whole expression where nothing binds to it. -/
theorem subexpression_of_operand (rules : level.rules = .generic) (closes : Closes rest)
    {lexemes : List Lexeme} (read : level.operand lexemes = .ok (tree, rest)) (strength : Nat) :
    level.subexpression strength lexemes = .ok (tree, rest) := by
  have looser : Grammar.nextStrength level.rules rest ≤ strength := by
    rw [rules, closes.nextStrength]
    exact Nat.zero_le strength
  rw [Level.subexpression, bind_of_ok read, bind_of_ok (get_apply _),
    extended_of_looser looser]

/-- A bare word is read as a column where an expression ends unless it starts an operand of its
own. -/
theorem subexpression_bare_iff (bare : needsQuoting value = false) (rules : level.rules = .generic)
    (closes : Closes rest) (strength : Nat) :
    level.subexpression strength (.word (.plain value) :: rest) =
        .ok (.identifier { value }, rest) ↔ Text.upper value ∉ operandWords := by
  constructor
  · intro read listed
    rcases readsAs_or_never bare with ⟨tree, reads⟩ | never
    · have other := subexpression_of_operand rules closes (reads.operand rules closes) strength
      rw [read] at other
      cases other
      cases reads with
      | column free => exact free listed
    · obtain ⟨first, behind, operand, more⟩ := bind_eq_ok.1 read
      exact Level.gives_extended _ _ (noName_of_never never rules closes operand) _ _ _ more _ rfl
  · intro free
    exact subexpression_of_operand rules closes ((ReadsAs.column free).operand rules closes) strength

end

/-! ## Tables -/

section

variable {level : Level} {depth : Nat} {rest : List Lexeme}

theorem reread_of_bare (bare : needsQuoting value = false) :
    Name.reread { value } = { value } := by
  rw [Name.reread, written_of_bare bare]
  rfl

/-- What starts with a word is no relation in parentheses. -/
theorem factorWithin_word (fuel : Nat) (word : Word) (lexemes : List Lexeme) :
    level.factorWithin fuel (.word word :: lexemes) =
      level.simpleFactor (.word word :: lexemes) := by
  cases fuel <;> rfl

/-- The word LATERAL starts a call where no parenthesis is opened behind it. -/
theorem simpleFactor_of_lateral (same : Text.upper value = "LATERAL") {lexemes : List Lexeme}
    (unopened : Grammar.startsWithMark "(" lexemes = false) :
    level.simpleFactor (.word (.plain value) :: lexemes) = level.lateralFunction lexemes := by
  have lateral : keyword? "LATERAL" (.word (.plain value) :: lexemes) = .ok (true, lexemes) := by
    simp [keyword?_apply, Word.plain, same]
  have noQuery : mark? "(" lexemes = .ok (false, lexemes) := takeIf_of_false unopened
  rw [Level.simpleFactor, bind_of_ok lateral, if_pos rfl, bind_of_ok noQuery,
    if_neg Bool.false_ne_true]

/-- The word UNNEST starts nothing where no parenthesis is opened behind it. -/
theorem simpleFactor_of_unnest (reads : ReadsBack level depth)
    (same : Text.upper value = "UNNEST") {lexemes : List Lexeme}
    (unopened : Grammar.startsWithMark "(" lexemes = false) :
    level.simpleFactor (.word (.plain value) :: lexemes) = .error .unexpected := by
  have others (keyword : String) (other : keyword ≠ "UNNEST") :
      keyword? keyword (.word (.plain value) :: lexemes) =
        .ok (false, .word (.plain value) :: lexemes) := by
    simp [keyword?_apply, Word.plain, same, other.symm]
  have unnest : keyword? "UNNEST" (.word (.plain value) :: lexemes) = .ok (true, lexemes) := by
    simp [keyword?_apply, Word.plain, same]
  rw [Level.simpleFactor, reads.rules, bind_of_ok (others "LATERAL" (by decide)),
    if_neg Bool.false_ne_true, bind_of_ok (others "TABLE" (by decide)),
    if_neg Bool.false_ne_true, bind_of_ok (ahead_apply _ _), List.drop_succ_cons,
    List.drop_zero, unopened, Bool.and_false, Bool.and_false, if_neg Bool.false_ne_true,
    if_pos (by decide), bind_of_ok unnest]
  exact bind_of_error (parenthesized_of_not unopened)

/-- Any other bare word is the table of the name, with the alias behind it. -/
theorem simpleFactor_of_bare (bare : needsQuoting value = false) (reads : ReadsBack level depth)
    (label : Option Name) (behind : BehindRelation rest)
    (free : Text.upper value ∉ ["LATERAL", "UNNEST"]) :
    level.simpleFactor (.word (.plain value) :: (aliasLexemes label ++ rest)) =
      .ok (.table ⟨[], { value }⟩ (aliasTree label) none [] [], rest) := by
  have unopened : Grammar.startsWithMark "(" (aliasLexemes label ++ rest) = false :=
    (aliasLexemes_ahead label behind).startsWithMark (by decide)
  have noTable : Text.upper value ≠ "TABLE" := upper_ne_of_bare bare (by decide)
  have parts : ({ name := { value }, aliasName := label } : Table).path.getD [] ++
      [({ name := { value }, aliasName := label } : Table).name] = { value } :: [] := rfl
  have named := reads.namedTable parts behind
  rw [written_of_bare bare, reread_of_bare bare] at named
  rw [reads.simpleFactor_eq_namedTable (by simpa [Word.plain, noTable] using free) unopened]
  exact named

/-- A bare word is read as a table, with the alias behind it, unless it starts another relation. -/
theorem factorWithin_bare_iff (bare : needsQuoting value = false) (reads : ReadsBack level depth)
    (label : Option Name) (behind : BehindRelation rest) (fuel : Nat) :
    level.factorWithin fuel (.word (.plain value) :: (aliasLexemes label ++ rest)) =
        .ok (.table ⟨[], { value }⟩ (aliasTree label) none [] [], rest) ↔
      Text.upper value ∉ ["LATERAL", "UNNEST"] := by
  have unopened : Grammar.startsWithMark "(" (aliasLexemes label ++ rest) = false :=
    (aliasLexemes_ahead label behind).startsWithMark (by decide)
  rw [factorWithin_word]
  refine ⟨fun read listed => ?_, simpleFactor_of_bare bare reads label behind⟩
  have words : Text.upper value = "LATERAL" ∨ Text.upper value = "UNNEST" := by
    simpa using listed
  rcases words with same | same
  · rw [simpleFactor_of_lateral same unopened] at read
    obtain ⟨name, items, named, other⟩ := Level.gives_lateralFunction _ _ _ read
    cases other
  · rw [simpleFactor_of_unnest reads same unopened] at read
    cases read

end

end Sql

end SemanticLayer
