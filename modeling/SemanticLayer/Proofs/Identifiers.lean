import SemanticLayer.Proofs.Spelling

/-!
# Identifiers in the grammar of each dialect

A written identifier, bare or in the quotation marks of its dialect, is one word in the grammar of
that dialect, whatever it holds, and a path is the words of its names with dots between them. The
word that a text in front of a parenthesis starts with is no longer than the text.
-/

namespace SemanticLayer

open Grammar (Word Lexeme Rules)

namespace Grammar

namespace Rules

variable {c : Char}

/-- A letter of ASCII or an underscore starts a word in every grammar. -/
theorem startsWord_of_ascii (rules : Rules) (letter : c.isAlpha = true ∨ c = '_') :
    rules.startsWord c = true := by
  have alphabetic : Text.isAlphabetic c = true ∨ c = '_' :=
    letter.imp_left Sql.isAlphabetic_of_isAlpha
  rcases rules with _ | dialect
  · rcases alphabetic with letter | rfl <;> simp [startsWord, *]
  · cases dialect <;> rcases letter with letter | rfl <;> rcases alphabetic with other | same <;>
      simp_all [startsWord]

/-- Letters and digits of ASCII and underscores continue a word in every grammar. -/
theorem continuesWord_of_ascii (rules : Rules) (bare : c.isAlphanum = true ∨ c = '_') :
    rules.continuesWord c = true := by
  have letters : (c.isAlpha = true ∨ c = '_') ∨ c.isDigit = true := by
    rw [Char.isAlphanum, Bool.or_eq_true] at bare
    tauto
  rcases letters with letter | digit
  · have starts := rules.startsWord_of_ascii letter
    have alphabetic : Text.isAlphabetic c = true ∨ c = '_' :=
      letter.imp_left Sql.isAlphabetic_of_isAlpha
    rcases rules with _ | dialect
    · rcases alphabetic with letter | rfl <;> simp [continuesWord, *]
    · cases dialect <;> rcases alphabetic with other | rfl <;> simp [continuesWord, *]
  · rcases rules with _ | dialect
    · simp [continuesWord, digit]
    · cases dialect <;> simp [continuesWord, digit]

/-- Each dialect has a grammar in which its own quotation marks quote identifiers. -/
theorem identifierEnd?_identifierQuotes (dialect : Dialect) :
    (ofDialect? (some dialect)).identifierEnd? dialect.identifierQuotes.1 =
      some dialect.identifierQuotes.2 := by
  cases dialect <;> rfl

end Rules

namespace Lexeme

variable {rules : Rules} {c : Char} {chars rest : List Char}

/-! ## First lexemes -/

/-- Characters that start an identifier: letters of ASCII, underscores and quotation marks. -/
def identifierStarts (c : Char) : Prop :=
  (c.isAlpha = true ∨ c = '_') ∨ c = '"' ∨ c = '\x60' ∨ c = '['

/-- What starts an identifier starts neither a number nor a comment, and is no blank. -/
theorem identifierStarts_facts (starts : identifierStarts c) :
    c.isDigit = false ∧ Text.isBlank c = false ∧ c ∉ ['.', '-', '#', '/', '@', '?', '\''] := by
  have letter (alpha : c.isAlpha = true) :
      c.isDigit = false ∧ Text.isBlank c = false ∧ c ∉ ['.', '-', '#', '/', '@', '?', '\''] := by
    have alphabetic := Sql.isAlphabetic_of_isAlpha alpha
    refine ⟨Text.isDigit_of_isAlphabetic alphabetic, Text.isBlank_of_isAlphabetic alphabetic,
      fun found => ?_⟩
    have none : ∀ d ∈ ['.', '-', '#', '/', '@', '?', '\''], d.isAlpha = false :=
      List.forall_iff_forall_mem.mp (by decide)
    simp [none c found] at alpha
  rcases starts with (alpha | rfl) | rfl | rfl | rfl
  · exact letter alpha
  all_goals decide

theorem startsLineComment_of_identifierStarts (starts : identifierStarts c) (rest : List Char) :
    startsLineComment rules (c :: rest) = false := by
  obtain ⟨-, -, unlike⟩ := identifierStarts_facts starts
  simp only [List.mem_cons, List.not_mem_nil, or_false, not_or] at unlike
  unfold startsLineComment
  split <;> simp_all

/-- A bare identifier is the first lexeme, up to where it ends. -/
theorem first?_bare {more : List Char} (bare : Sql.isBareIdentifier (c :: more) = true)
    (ends : Ends rest) :
    first? rules c (more ++ rest) =
      some (.word (Word.plain (String.ofList (c :: more))), rest) := by
  rw [Sql.isBareIdentifier, Bool.and_eq_true, Bool.or_eq_true, beq_iff_eq] at bare
  obtain ⟨letter, all⟩ := bare
  have continues : ∀ d ∈ more, rules.continuesWord d = true := fun d found =>
    rules.continuesWord_of_ascii (by simpa using List.all_eq_true.mp all d found)
  obtain ⟨noDigit, -, unlike⟩ := identifierStarts_facts (.inl letter)
  simp only [List.mem_cons, List.not_mem_nil, or_false, not_or] at unlike
  obtain ⟨dot, -, hash, -, at_, question, single⟩ := unlike
  have quotes : ∀ d ∈ ['"', '\x60', '['], d.isAlpha = false ∧ d ≠ '_' :=
    List.forall_iff_forall_mem.mp (by decide)
  have noQuote (d : Char) (quote : d ∈ ['"', '\x60', '[']) : c ≠ d := by
    rintro rfl
    rcases letter with alpha | underscore
    · simp [(quotes c quote).1] at alpha
    · exact (quotes c quote).2 underscore
  have plain : ∀ d ∈ (more ++ rest).head?, d ≠ '\'' ∧ d ≠ '"' ∧ d ≠ '&' := by
    intro d found
    cases more with
    | nil => exact (continuesWord_of_mem_endings d (ends d found)).2
    | cons e others =>
        obtain rfl : e = d := by simpa using found
        have ascii : e.isAlphanum = true ∨ e = '_' := by
          simpa using List.all_eq_true.mp all e List.mem_cons_self
        have none : ∀ d ∈ ['\'', '"', '&'], d.isAlphanum = false ∧ d ≠ '_' :=
          List.forall_iff_forall_mem.mp (by decide)
        have differs (d : Char) (quote : d ∈ ['\'', '"', '&']) : e ≠ d := by
          rintro rfl
          rcases ascii with alpha | underscore
          · simp [(none e quote).1] at alpha
          · exact (none e quote).2 underscore
        exact ⟨differs _ (by simp), differs _ (by simp), differs _ (by simp)⟩
  have word := ofWord_of_stops [c] continues fun d found =>
    rules.continuesWord_endings d (ends d found)
  rw [first?_eq plain single
    (rules.identifierEnd?_of_ne (noQuote _ (by simp)) (noQuote _ (by simp)) (noQuote _ (by simp)))
    (noQuote _ (by simp)), if_neg (by simp [noDigit, dot]), if_neg (by simp [at_, hash]),
    if_neg (by simp [question]), if_pos (rules.startsWord_of_ascii letter)]
  rw [word]
  rfl

/-- The text of a bare identifier starts one, and is its first lexeme up to where it ends. -/
theorem exists_first?_bare {text : String} (bare : Sql.isBareIdentifier text.toList = true)
    (rules : Rules) : ∃ c more, text.toList = c :: more ∧ identifierStarts c ∧
      ∀ rest, Ends rest → first? rules c (more ++ rest) = some (.word (Word.plain text), rest) := by
  cases chars : text.toList with
  | nil => simp [chars, Sql.isBareIdentifier] at bare
  | cons c more =>
      rw [chars] at bare
      refine ⟨c, more, rfl, .inl ?_, fun rest ends => ?_⟩
      · rw [Sql.isBareIdentifier, Bool.and_eq_true, Bool.or_eq_true, beq_iff_eq] at bare
        exact bare.1
      · rw [first?_bare bare ends, ← chars, String.ofList_toList]

/-- An identifier in quotation marks is the first lexeme, up to where it ends. -/
theorem first?_quoted {opening closing : Char} {text : String}
    (quotes : rules.identifierEnd? opening = some closing)
    (mark : opening ∈ ['"', '\x60', '[']) (ends : rest.head? ≠ some closing) :
    first? rules opening
        (Text.replaceChar closing [closing, closing] text.toList ++ closing :: rest) =
      some (.word (Word.quoted text opening), rest) := by
  have inner := quotedText?_replaceChar text.toList (by simp : false = true → _) ends
  have unmarked (quote : Char) : markedLiteral? rules opening quote = none := by
    simp only [List.mem_cons, List.not_mem_nil, or_false] at mark
    rcases mark with rfl | rfl | rfl <;> simp [markedLiteral?]
  have noSingle : opening ≠ '\'' := by
    rintro rfl
    simp at mark
  have noUnicode : ¬ (opening = 'u' ∨ opening = 'U') := by
    rintro (rfl | rfl) <;> simp at mark
  generalize Text.replaceChar closing [closing, closing] text.toList ++ closing :: rest = chars
    at inner ⊢
  unfold first?
  split <;> simp [noUnicode, unmarked, noSingle, quotes, inner]

/-- A comma and a parenthesis are marks, whatever stands behind them. -/
theorem first?_punctuation (alone : c ∈ [',', '(', ')']) (rest : List Char) :
    first? rules c rest = some (.mark (String.singleton c), rest) := by
  simp only [List.mem_cons, List.not_mem_nil, or_false] at alone
  have noWord : rules.startsWord c = false := by
    rcases rules with _ | dialect
    · rcases alone with rfl | rfl | rfl <;> rfl
    · cases dialect <;> rcases alone with rfl | rfl | rfl <;> rfl
  have single : markText rules c rest = (String.singleton c, rest) := by
    have none : ("//" :: longMarks).findSome? (fun text =>
        if text != "//" || rules.isGenericOr [.duckDb] then
          (dropStart? text.toList (c :: rest)).map fun after => (text, after)
        else none) = none := by
      rcases alone with rfl | rfl | rfl <;> simp [longMarks, dropStart?]
    unfold markText
    dsimp only
    rw [none]
    rcases alone with rfl | rfl | rfl <;> rfl
  have noIdentifier : rules.identifierEnd? c = none := by
    rcases alone with rfl | rfl | rfl <;>
      exact rules.identifierEnd?_of_ne (by decide) (by decide) (by decide)
  have unmarked (quote : Char) : markedLiteral? rules c quote = none := by
    rcases alone with rfl | rfl | rfl <;> simp [markedLiteral?]
  have others : ¬ (c = 'u' ∨ c = 'U') ∧ c ≠ '\'' ∧ c ≠ '"' ∧ ¬ (c.isDigit = true ∨ c = '.') ∧
      ¬ (c = '@' ∨ c = '#') ∧ c ≠ '?' ∧ c ≠ '$' := by
    rcases alone with rfl | rfl | rfl <;> decide
  unfold first?
  split <;> simp [others, unmarked, noIdentifier, noWord, single]

/-! ## Cutting off the first lexeme -/

/-- What starts with neither a blank nor a comment is cut behind its first lexeme. -/
theorem cut?_succ (noBlank : Text.isBlank c = false)
    (noLine : startsLineComment rules (c :: chars) = false)
    (noBlock : c = '/' → chars.head? ≠ some '*') (fuel : Nat) :
    cut? rules (fuel + 1) (c :: chars) =
      (first? rules c chars).bind fun (lexeme, after) =>
        (cut? rules fuel after).map (lexeme :: ·) := by
  have plain : ∀ body, c = '/' → chars = '*' :: body → False := by
    intro body slash star
    exact noBlock slash (by simp [star])
  rw [cut?, if_neg (by simp [noLine])]
  · simp [noBlank]
  · exact plain

/-- What starts an identifier is cut behind its first lexeme. -/
theorem cut?_of_identifierStarts {lexeme : Lexeme} (starts : identifierStarts c)
    (first : first? rules c chars = some (lexeme, rest)) (fuel : Nat) :
    cut? rules (fuel + 1) (c :: chars) = (cut? rules fuel rest).map (lexeme :: ·) := by
  obtain ⟨-, noBlank, unlike⟩ := identifierStarts_facts starts
  rw [cut?_succ noBlank (startsLineComment_of_identifierStarts starts chars), first]
  · rfl
  · rintro rfl
    simp at unlike

/-- A dot in front of what starts with no digit is a lexeme of its own. -/
theorem cut?_point (noDigit : ∀ d ∈ rest.head?, d.isDigit = false) (fuel : Nat) :
    cut? rules (fuel + 1) ('.' :: rest) = (cut? rules fuel rest).map (.mark "." :: ·) := by
  rw [cut?_succ (by decide) (by simp [startsLineComment]) (by simp), first?_point noDigit]
  rfl

/-- What starts with more than a point is no mark. -/
theorem ofDigits_ne_mark (several : (numberText chars).1 ≠ ['.']) (text : String) :
    (ofDigits rules chars).1 ≠ .mark text := by
  unfold ofDigits
  generalize numberText chars = parts at several ⊢
  obtain ⟨digits, exponent, rest⟩ := parts
  dsimp only at several ⊢
  rw [if_neg several]
  split
  next => nofun
  next =>
    generalize (if rules.wordsStartWithDigits ∧ exponent = [] then
      rest.takeWhile rules.continuesWord else []) = tail
    split <;> nofun

/-- A dot in front of a digit starts a number or a word. -/
theorem cut?_point_ne {d : Char} (digit : d.isDigit = true) (fuel : Nat) (lexemes : List Lexeme) :
    cut? rules (fuel + 1) ('.' :: d :: rest) ≠ some (.mark "." :: lexemes) := by
  have noMark : (ofDigits rules ('.' :: d :: rest)).1 ≠ .mark "." :=
    ofDigits_ne_mark (by simp [numberText, digit]) "."
  have noIdentifier : rules.identifierEnd? '.' = none :=
    rules.identifierEnd?_of_ne (by decide) (by decide) (by decide)
  have first : first? rules '.' (d :: rest) = some (ofDigits rules ('.' :: d :: rest)) := by
    unfold first?
    split <;> simp [markedLiteral?, noIdentifier]
  rw [cut?_succ (by decide) (by simp [startsLineComment]) (by simp), first]
  intro found
  obtain ⟨lexemes, -, same⟩ := Option.map_eq_some_iff.1 found
  exact noMark (List.cons.inj same).1

/-! ## Cutting -/

variable {lexemes : List Lexeme}

/-- A comma or a parenthesis in front of a text is a lexeme of its own. -/
theorem Cuts.punctuation (cuts : Cuts rules rest lexemes) (alone : c ∈ [',', '(', ')']) :
    Cuts rules (c :: rest) (.mark (String.singleton c) :: lexemes) := by
  refine cuts.lexeme (first?_punctuation alone rest) le_rfl ?_ ?_ ?_
  all_goals
    simp only [List.mem_cons, List.not_mem_nil, or_false] at alone
    rcases alone with rfl | rfl | rfl
  all_goals first
    | decide
    | simp [startsLineComment]

/-- An identifier is cut off behind its last character. -/
theorem Cuts.identifier {lexeme : Lexeme} (cuts : Cuts rules rest lexemes)
    (starts : identifierStarts c) (first : first? rules c chars = some (lexeme, rest))
    (shorter : rest.length ≤ chars.length) : Cuts rules (c :: chars) (lexeme :: lexemes) := by
  obtain ⟨-, noBlank, unlike⟩ := identifierStarts_facts starts
  refine cuts.lexeme first shorter noBlank (startsLineComment_of_identifierStarts starts chars) ?_
  rintro rfl
  simp at unlike

/-- A bare identifier is one word, up to where it ends. -/
theorem Cuts.bare {text : String} (cuts : Cuts rules rest lexemes)
    (bare : Sql.isBareIdentifier text.toList = true) (ends : Ends rest) :
    Cuts rules (text.toList ++ rest) (.word (Word.plain text) :: lexemes) := by
  obtain ⟨c, more, whole, starts, first⟩ := exists_first?_bare bare rules
  rw [whole]
  exact cuts.identifier starts (first rest ends) (by simp)

end Lexeme

end Grammar

namespace Sql

open Grammar.Lexeme

/-! ## Names and paths -/

/-- The word that a name is written as in a dialect. -/
def Name.wordIn (d : Dialect) (name : Name) : Word :=
  if name.quote.isSome || needsQuoting name.value then
    Word.quoted name.value d.identifierQuotes.1
  else Word.plain name.value

/-- The lexemes of a path in a dialect, with a dot behind each name. -/
def Path.lexemesIn (d : Dialect) (path : Path) : List Lexeme :=
  path.flatMap fun name => [.word (name.wordIn d), .mark "."]

/-- A name is written as one word in the grammar of its dialect, whatever it holds. -/
theorem Name.first?_text (d : Dialect) (name : Name) : ∃ c more,
    (name.token.text d).toList = c :: more ∧ identifierStarts c ∧
      ∀ rest, Ends rest →
        first? (Rules.ofDialect? (some d)) c (more ++ rest) =
          some (.word (name.wordIn d), rest) := by
  rw [Name.token, Token.text, wordIn]
  split
  next =>
    have quotes := Rules.identifierEnd?_identifierQuotes d
    have marks : d.identifierQuotes.1 ∈ ['"', '\x60', '['] ∧ d.identifierQuotes.2 ∉ endings := by
      cases d <;> decide
    refine ⟨d.identifierQuotes.1, _, by rw [Dialect.quoteIdentifier, Dialect.enclose]; simp; rfl,
      .inr (by simpa using marks.1), fun rest ends => ?_⟩
    simpa using first?_quoted quotes marks.1 (ends.head?_ne marks.2)
  next bare =>
    have identifier : isBareIdentifier name.value.toList = true := by
      simp only [Bool.or_eq_true, not_or, needsQuoting, Bool.not_eq_true'] at bare
      simpa using bare.2.1
    exact exists_first?_bare identifier _

/-- A path is written name by name, with a dot behind each. -/
theorem Path.toList_text_cons (d : Dialect) (name : Name) (path : Path) :
    (Tokens.text d (Path.tokens (name :: path))).toList =
      (name.token.text d).toList ++ '.' :: (Tokens.text d (Path.tokens path)).toList := by
  have split : Path.tokens (name :: path) = name.token :: .symbol .dot :: Path.tokens path := rfl
  rw [split, Tokens.toList_text_cons, Tokens.toList_text_cons]
  simp [Token.text, Symbol.text]

/-- A path starts with no digit, in front of what starts with none. -/
theorem Path.head?_text (d : Dialect) (path : Path) {rest : List Char}
    (noDigit : ∀ c ∈ rest.head?, c.isDigit = false) :
    ∀ c ∈ ((Tokens.text d path.tokens).toList ++ rest).head?, c.isDigit = false := by
  cases path with
  | nil => simpa [Path.tokens, Tokens.text] using noDigit
  | cons name path =>
      obtain ⟨c, more, text, starts, -⟩ := Name.first?_text d name
      simp [Path.toList_text_cons, text, (identifierStarts_facts starts).1]

/-- A path is cut into its names with a dot behind each, in front of what starts with no digit. -/
theorem Path.cut?_text (d : Dialect) (path : Path) {rest : List Char}
    (noDigit : path ≠ [] → ∀ c ∈ rest.head?, c.isDigit = false) (fuel : Nat) :
    cut? (Rules.ofDialect? (some d)) (fuel + 2 * path.length)
        ((Tokens.text d path.tokens).toList ++ rest) =
      (cut? (Rules.ofDialect? (some d)) fuel rest).map (path.lexemesIn d ++ ·) := by
  induction path with
  | nil => simp [Path.tokens, Tokens.text, Path.lexemesIn]
  | cons name path ih =>
      obtain ⟨c, more, text, starts, first⟩ := Name.first?_text d name
      have whole : (Tokens.text d (Path.tokens (name :: path))).toList ++ rest =
          c :: (more ++ '.' :: ((Tokens.text d (Path.tokens path)).toList ++ rest)) := by
        simp [Path.toList_text_cons, text]
      have later : ∀ e ∈ ((Tokens.text d (Path.tokens path)).toList ++ rest).head?,
          e.isDigit = false :=
        Path.head?_text d path (noDigit (List.cons_ne_nil name path))
      have steps : fuel + 2 * (name :: path).length = (fuel + 2 * path.length + 1) + 1 := by
        rw [List.length_cons]
        omega
      rw [whole, steps, cut?_of_identifierStarts starts (first _ (by simp [Ends, endings])),
        cut?_point later, ih fun some => noDigit (List.cons_ne_nil name path)]
      cases cut? (Rules.ofDialect? (some d)) fuel rest <;> simp [Path.lexemesIn]

/-- A path is not cut into its names with a dot behind each in front of a digit. -/
theorem Path.cut?_text_ne (d : Dialect) {path : Path} (some : path ≠ []) {c : Char}
    (digit : c.isDigit = true) (rest : List Char) (fuel : Nat) (lexemes : List Lexeme) :
    cut? (Rules.ofDialect? (.some d)) (fuel + 2 * path.length)
        ((Tokens.text d path.tokens).toList ++ c :: rest) ≠
      .some (path.lexemesIn d ++ lexemes) := by
  induction path with
  | nil => exact absurd rfl some
  | cons name path ih =>
      obtain ⟨e, more, text, starts, first⟩ := Name.first?_text d name
      have whole : (Tokens.text d (Path.tokens (name :: path))).toList ++ c :: rest =
          e :: (more ++ '.' :: ((Tokens.text d (Path.tokens path)).toList ++ c :: rest)) := by
        simp [Path.toList_text_cons, text]
      have steps : fuel + 2 * (name :: path).length = (fuel + 2 * path.length + 1) + 1 := by
        rw [List.length_cons]
        omega
      rw [whole, steps, cut?_of_identifierStarts starts (first _ (by simp [Ends, endings]))]
      intro found
      obtain ⟨others, behind, same⟩ := Option.map_eq_some_iff.1 found
      obtain rfl : others = .mark "." :: (Path.lexemesIn d path ++ lexemes) := by
        simpa [Path.lexemesIn] using same
      cases path with
      | nil => exact cut?_point_ne digit _ _ behind
      | cons next path =>
          have later : ∀ a ∈ ((Tokens.text d (Path.tokens (next :: path))).toList ++
              c :: rest).head?, a.isDigit = false := by
            obtain ⟨a, others, text, starts, -⟩ := Name.first?_text d next
            simp [Path.toList_text_cons, text, (identifierStarts_facts starts).1]
          rw [cut?_point later] at behind
          obtain ⟨inner, read, last⟩ := Option.map_eq_some_iff.1 behind
          exact ih (List.cons_ne_nil next path) (by rw [read, (List.cons.inj last).2])

/-- Behind a name stands nothing that it could go on in. -/
theorem ends_behind_name {d : Dialect} {tokens front rest : Tokens} {value : String} {quoted : Bool}
    (apart : Tokens.Apart tokens) (behind : tokens = front ++ .name value quoted :: rest) :
    Ends (Tokens.text d rest).toList := by
  subst behind
  refine ends_text fun next found => ?_
  obtain ⟨others, rfl⟩ := List.head?_eq_some_iff.1 found
  exact (List.isChain_append_cons_cons.1 apart).2.1

/-- In the grammar of its dialect a name is one word that has its value, whatever it holds and
whatever is written behind it: the end of the text, a blank, a line end, a comma, a parenthesis or a
dot. The word is no keyword if the name is reserved or no bare identifier. -/
theorem names_are_read_as_one_word (d : Dialect) (value : String) (quoted : Bool) :
    ∃ word : Word, word.value = value ∧
      ((quoted || needsQuoting value) = true → word.keyword = "") ∧
      Lexeme.ofText? (Rules.ofDialect? (some d)) ((Token.name value quoted).text d) =
        some [.word word] ∧
      (∀ (fuel : Nat) (rest : List Char), Ends rest →
        cut? (Rules.ofDialect? (some d)) (fuel + 1)
            (((Token.name value quoted).text d).toList ++ rest) =
          (cut? (Rules.ofDialect? (some d)) fuel rest).map (.word word :: ·)) ∧
      ∀ (query : Query) (front rest : Tokens),
        query.tokens d = front ++ .name value quoted :: rest →
          Ends (Tokens.text d rest).toList := by
  obtain ⟨name, same⟩ : ∃ name : Name, name.token = .name value quoted :=
    ⟨⟨value, if quoted then some '"' else none⟩, by cases quoted <;> rfl⟩
  obtain ⟨rfl, rfl⟩ : name.value = value ∧ name.quote.isSome = quoted := by
    simpa [Name.token] using same
  obtain ⟨c, more, text, starts, first⟩ := Name.first?_text d name
  have cuts : ∀ (fuel : Nat) (rest : List Char), Ends rest →
      cut? (Rules.ofDialect? (some d)) (fuel + 1) ((name.token.text d).toList ++ rest) =
        (cut? (Rules.ofDialect? (some d)) fuel rest).map (.word (name.wordIn d) :: ·) := by
    intro fuel rest ends
    rw [text, List.cons_append, cut?_of_identifierStarts starts (first rest ends)]
  refine ⟨name.wordIn d, ?_, fun marked => ?_, ?_, cuts,
    fun query front rest => ends_behind_name (query.apart_tokens d)⟩
  · rw [Name.wordIn]
    split <;> rfl
  · rw [Name.wordIn, if_pos marked]
    rfl
  · have whole := cuts more.length [] Ends.nil
    rw [List.append_nil] at whole
    rw [Lexeme.ofText?, ← same, text, List.length_cons, ← text, whole]
    cases more.length <;> rfl

/-- A name with a bracket, quotation marks and a reserved word is written and read in brackets. -/
theorem names_are_read_as_one_word_bracketed :
    ∃ word : Word, word.value = "select] \"a\"" ∧ word.keyword = "" ∧
      cut? (Rules.ofDialect? (some .tSql)) 2 "[select]] \"a\"].".toList =
        (cut? (Rules.ofDialect? (some .tSql)) 1 ".".toList).map (.word word :: ·) ∧
      Ends (Tokens.text .tSql []).toList := by
  obtain ⟨word, value, keyword, -, cuts, behind⟩ :=
    names_are_read_as_one_word .tSql "select] \"a\"" false
  have column : Query.tokens .tSql
      { select := { projection := [.column { name := { value := "select] \"a\"" } }] } } =
        [.keyword .select, .symbol .newline, .indent 1] ++
          .name "select] \"a\"" false :: [] := by rfl
  exact ⟨word, value, keyword (by decide), cuts 1 ['.'] (by simp [Ends, endings]),
    behind _ _ _ column⟩

end Sql
end SemanticLayer
