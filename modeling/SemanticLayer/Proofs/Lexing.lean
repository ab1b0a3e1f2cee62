import SemanticLayer.Grammar.Lexeme
import SemanticLayer.Proofs.Adjacency
import SemanticLayer.Proofs.Scans

/-!
# Lexemes of compiled SQL

Written tokens are cut into the lexemes they were meant to be, whatever expression or query they
come from, as long as no two minus signs meet and the names of functions are words.
-/

namespace SemanticLayer

open Grammar.Lexeme (quotedText?)

/-! ## Characters -/

namespace Text

@[simp]
theorem replaceChar_nil (old : Char) (new : List Char) : replaceChar old new [] = [] := rfl

theorem replaceChar_cons (old : Char) (new : List Char) (c : Char) (chars : List Char) :
    replaceChar old new (c :: chars) =
      (if c = old then new else [c]) ++ replaceChar old new chars := rfl

/-- The codes of letters of ASCII. -/
theorem toNat_of_isAlpha {c : Char} (letter : c.isAlpha = true) :
    0x41 ≤ c.toNat ∧ c.toNat ≤ 0x7A := by
  rcases Bool.or_eq_true_iff.1 letter with upper | lower
  · have low : 0x41 ≤ c.toNat := (of_decide_eq_true upper).1
    have high : c.toNat ≤ 0x5A := (of_decide_eq_true upper).2
    omega
  · obtain ⟨low, high⟩ := Bool.and_eq_true_iff.1 lower
    have low : 0x61 ≤ c.toNat := of_decide_eq_true low
    have high : c.toNat ≤ 0x7A := of_decide_eq_true high
    omega

/-- The codes of digits. -/
theorem toNat_of_isDigit {c : Char} (digit : c.isDigit = true) :
    0x30 ≤ c.toNat ∧ c.toNat ≤ 0x39 := by
  simpa [Char.isDigit, UInt32.le_iff_toNat_le] using digit

theorem alphabeticRanges_apart_blankRanges :
    ∀ a ∈ alphabeticRanges, ∀ b ∈ blankRanges, a.2 < b.1 ∨ b.2 < a.1 := by
  decide +kernel

/-- No letter is a blank. -/
theorem isBlank_of_isAlphabetic {c : Char} (letter : isAlphabetic c = true) :
    isBlank c = false := by
  by_contra blank
  simp only [isBlank, inRanges, Bool.not_eq_false, List.any_eq_true, Bool.and_eq_true,
    decide_eq_true_eq] at blank
  obtain ⟨b, isRange, lowB, highB⟩ := blank
  unfold isAlphabetic at letter
  split at letter
  · simp only [blankRanges, List.mem_cons, List.not_mem_nil, or_false] at isRange
    have small : c.toNat = 0x20 ∨ c.toNat ≤ 0x0D := by
      rcases isRange with rfl | rfl | rfl | rfl | rfl | rfl | rfl | rfl | rfl | rfl <;>
        simp only [] at lowB highB <;> omega
    have large := (toNat_of_isAlpha letter).1
    omega
  · simp only [inRanges, List.any_eq_true, Bool.and_eq_true, decide_eq_true_eq] at letter
    obtain ⟨a, isLetters, lowA, highA⟩ := letter
    have apart := alphabeticRanges_apart_blankRanges a isLetters b isRange
    omega

/-- No letter is a digit. -/
theorem isDigit_of_isAlphabetic {c : Char} (letter : isAlphabetic c = true) :
    c.isDigit = false := by
  by_contra digit
  have range := toNat_of_isDigit (Bool.not_eq_false _ ▸ digit)
  have ascii : c.toNat < 0x80 := by omega
  rw [isAlphabetic, if_pos ascii] at letter
  have large := (toNat_of_isAlpha letter).1
  omega

end Text

namespace Grammar

namespace Lexeme

/-! ## Cutting -/

/-- A text is cut into the given lexemes, however much fuel beyond its length there is. -/
def Cuts (rules : Rules) (chars : List Char) (lexemes : List Lexeme) : Prop :=
  ∀ fuel, chars.length ≤ fuel → cut? rules fuel chars = some lexemes

theorem Cuts.nil (rules : Rules) : Cuts rules [] [] := by
  intro fuel _
  cases fuel <;> rfl

/-- A blank in front of a text adds no lexeme. -/
theorem Cuts.blank
    {rules : Rules} {rest : List Char} {lexemes : List Lexeme} {c : Char}
    (cuts : Cuts rules rest lexemes) (isBlank : c = ' ' ∨ c = '\n') :
    Cuts rules (c :: rest) lexemes := by
  intro fuel enough
  obtain ⟨fuel, rfl⟩ : ∃ less, fuel = less + 1 := ⟨fuel - 1, by simp at enough; omega⟩
  have inner := cuts fuel (by simpa using enough)
  rcases isBlank with rfl | rfl
  · have blank : Text.isBlank ' ' = true := by decide
    simp [cut?, startsLineComment, blank, inner]
  · have blank : Text.isBlank '\n' = true := by decide
    simp [cut?, startsLineComment, blank, inner]

/-- A lexeme in front of a text, unless a comment starts there. -/
theorem Cuts.lexeme
    {rules : Rules} {c : Char} {chars rest : List Char} {lexeme : Lexeme} {lexemes : List Lexeme}
    (cuts : Cuts rules rest lexemes)
    (first : first? rules c chars = some (lexeme, rest)) (shorter : rest.length ≤ chars.length)
    (noBlank : Text.isBlank c = false) (noLine : startsLineComment rules (c :: chars) = false)
    (noBlock : c = '/' → chars.head? ≠ some '*') :
    Cuts rules (c :: chars) (lexeme :: lexemes) := by
  intro fuel enough
  obtain ⟨fuel, rfl⟩ : ∃ less, fuel = less + 1 := ⟨fuel - 1, by simp at enough; omega⟩
  have inner := cuts fuel (by simp at enough; omega)
  have plain : ∀ body, c = '/' → chars = '*' :: body → False := by
    intro body slash star
    exact noBlock slash (by simp [star])
  rw [cut?, if_neg (by simp [noLine])]
  · simp [noBlank, first, inner]
  · exact plain

/-! ## Words -/

/-- Characters none of which continues a word or quotes. -/
def endings : List Char := [' ', '\n', ',', '(', ')', '.']

end Lexeme

namespace Rules

/-- What ends a word continues none in any grammar. -/
theorem continuesWord_endings (rules : Rules) :
    ∀ c ∈ Lexeme.endings, rules.continuesWord c = false := by
  rcases rules with _ | dialect
  · exact List.forall_iff_forall_mem.mp (by decide)
  · cases dialect <;> exact List.forall_iff_forall_mem.mp (by decide)

/-- Only three marks quote identifiers, whatever the grammar. -/
theorem identifierEnd?_of_ne (rules : Rules) {c : Char} (double : c ≠ '"') (back : c ≠ '\x60')
    (bracket : c ≠ '[') : rules.identifierEnd? c = none := by
  rcases rules with _ | dialect
  · simp [identifierEnd?, double, back]
  · cases dialect <;> simp [identifierEnd?, double, back, bracket]

end Rules

namespace Lexeme

/-- Whether a word or a literal ends where a text starts. -/
def Ends (chars : List Char) : Prop :=
  ∀ c ∈ chars.head?, c ∈ endings

theorem Ends.nil : Ends [] := by simp [Ends]

/-- Whether a text is a single word of the generic grammar. -/
def isWord : List Char → Bool
  | [] => false
  | c :: rest =>
    (Text.isAlphabetic c || c == '_' || ((c == '#' || c == '@') && rest.head?.any (· != '@'))) &&
      rest.all Rules.generic.continuesWord

/-- What continues a word does not quote and does not end one. -/
theorem ne_of_continuesWord
    {c d : Char} (continues : Rules.generic.continuesWord c = true)
    (other : Rules.generic.continuesWord d = false) : c ≠ d := by
  rintro rfl
  simp [other] at continues

theorem continuesWord_of_mem_endings :
    ∀ c ∈ endings, Rules.generic.continuesWord c = false ∧ c ≠ '\'' ∧ c ≠ '"' ∧ c ≠ '&' :=
  List.forall_iff_forall_mem.mp (by decide)

/-- Where no quotation mark follows, no letter marks a literal. -/
theorem markedLiteral?_eq_none
    {rules : Rules} {c quote : Char} (single : quote ≠ '\'') (double : quote ≠ '"') :
    markedLiteral? rules c quote = none := by
  simp [markedLiteral?, single, double]

/-- A text that starts with no quotation mark leaves the character in front of it as it is. -/
theorem first?_eq
    {rules : Rules} {c : Char} {rest : List Char}
    (plain : ∀ d ∈ rest.head?, d ≠ '\'' ∧ d ≠ '"' ∧ d ≠ '&') (noQuote : c ≠ '\'')
    (noIdentifier : rules.identifierEnd? c = none) (noDouble : c ≠ '"') :
    first? rules c rest =
      if c.isDigit ∨ c = '.' then some (ofDigits rules (c :: rest))
      else if c = '@' ∨ c = '#' then
        match rest with
        | d :: more =>
          if rules.startsWord c ∧ ¬ ['>', '?', '@', ' ', '-'].contains d then
            some (ofWord rules [c, d] more)
          else some (mark (markText rules c rest).1, (markText rules c rest).2)
        | [] => some (mark (String.singleton c), [])
      else if c = '?' ∧ rules ≠ .of .postgres then
        some (literal .placeholder (String.ofList ('?' :: rest.takeWhile Text.isNumeric)),
          rest.dropWhile Text.isNumeric)
      else if rules.startsWord c then some (ofWord rules [c] rest)
      else if c = '$' then ofDollar? rest
      else some (mark (markText rules c rest).1, (markText rules c rest).2) := by
  cases rest with
  | nil => simp [first?, noQuote, noIdentifier, noDouble]
  | cons d more =>
      obtain ⟨single, double, ampersand⟩ := plain d rfl
      simp [first?, markedLiteral?_eq_none single double, noQuote, noIdentifier, noDouble,
        ampersand]

/-- A character that starts a word is neither a blank, a digit nor punctuation. -/
theorem startsWord_facts
    {c : Char} (starts : Rules.generic.startsWord c = true) :
    Text.isBlank c = false ∧ c.isDigit = false ∧
      c ∉ ['\'', '"', '\x60', '.', '?', '$', '-', '/'] := by
  have letters : Text.isAlphabetic c = true ∨ c = '_' ∨ c = '#' ∨ c = '@' := by
    simpa [Rules.startsWord, or_assoc] using starts
  refine ⟨?_, ?_, fun found => ?_⟩
  · rcases letters with letter | rfl | rfl | rfl
    · exact Text.isBlank_of_isAlphabetic letter
    all_goals decide
  · rcases letters with letter | rfl | rfl | rfl
    · exact Text.isDigit_of_isAlphabetic letter
    all_goals decide
  · have none : ∀ d ∈ ['\'', '"', '\x60', '.', '?', '$', '-', '/'],
        Rules.generic.startsWord d = false :=
      List.forall_iff_forall_mem.mp (by decide)
    simp [none c found] at starts

/-- A word is read up to what does not continue it. -/
theorem ofWord_of_stops {rules : Rules} {chars rest : List Char} (start : List Char)
    (continues : ∀ c ∈ chars, rules.continuesWord c = true)
    (stops : ∀ c ∈ rest.head?, rules.continuesWord c = false) :
    ofWord rules start (chars ++ rest) =
      (.word (Word.plain (String.ofList (start ++ chars))), rest) := by
  rw [ofWord, Text.takeWhile_of_stops continues stops, Text.dropWhile_of_stops continues stops]

/-- What ends a word does not continue it. -/
theorem Ends.stops {rest : List Char} (ends : Ends rest) :
    ∀ c ∈ rest.head?, Rules.generic.continuesWord c = false :=
  fun c found => (continuesWord_of_mem_endings c (ends c found)).1

/-- Neither the characters of a word nor what ends it quotes. -/
theorem plain_head?
    {chars rest : List Char} (all : chars.all Rules.generic.continuesWord = true)
    (ends : Ends rest) : ∀ d ∈ (chars ++ rest).head?, d ≠ '\'' ∧ d ≠ '"' ∧ d ≠ '&' := by
  cases chars with
  | nil => exact fun d found => (continuesWord_of_mem_endings d (ends d found)).2
  | cons c more =>
      rintro d ⟨⟩
      have continues : Rules.generic.continuesWord c = true := by
        simp only [List.all_cons, Bool.and_eq_true] at all
        exact all.1
      exact ⟨ne_of_continuesWord continues (by decide), ne_of_continuesWord continues (by decide),
        ne_of_continuesWord continues (by decide)⟩

/-- A word that starts with a letter or an underscore is the first lexeme. -/
theorem first?_letter
    {c : Char} {more rest : List Char} (head : Text.isAlphabetic c = true ∨ c = '_')
    (all : more.all Rules.generic.continuesWord = true) (ends : Ends rest) :
    first? .generic c (more ++ rest) =
      some (.word (Word.plain (String.ofList (c :: more))), rest) := by
  have starts : Rules.generic.startsWord c = true := by
    rcases head with letter | rfl
    · simp [Rules.startsWord, letter]
    · rfl
  have other : c ≠ '@' ∧ c ≠ '#' := by
    constructor
    all_goals
      rintro rfl
      rcases head with letter | same
      · exact absurd letter (by decide)
      · cases same
  obtain ⟨-, noDigit, unlike⟩ := startsWord_facts starts
  simp only [List.mem_cons, List.not_mem_nil, or_false, not_or] at unlike
  obtain ⟨single, double, back, dot, question, -⟩ := unlike
  have noIdentifier : Rules.generic.identifierEnd? c = none := by
    simp [Rules.identifierEnd?, double, back]
  rw [first?_eq (plain_head? all ends) single noIdentifier double, if_neg (by simp [noDigit, dot]),
    if_neg (by simp [other]), if_neg (by simp [question]), if_pos starts]
  simp [ofWord_of_stops [c] (List.all_eq_true.1 all) ends.stops]

/-- A word that starts with an at or a hash sign is the first lexeme. -/
theorem first?_sign
    {c d : Char} {more rest : List Char} (sign : c = '#' ∨ c = '@') (notAt : d ≠ '@')
    (all : (d :: more).all Rules.generic.continuesWord = true) (ends : Ends rest) :
    first? .generic c (d :: more ++ rest) =
      some (.word (Word.plain (String.ofList (c :: d :: more))), rest) := by
  have starts : Rules.generic.startsWord c = true := by rcases sign with rfl | rfl <;> decide
  obtain ⟨-, noDigit, unlike⟩ := startsWord_facts starts
  simp only [List.mem_cons, List.not_mem_nil, or_false, not_or] at unlike
  obtain ⟨single, double, back, dot, -⟩ := unlike
  have noIdentifier : Rules.generic.identifierEnd? c = none := by
    simp [Rules.identifierEnd?, double, back]
  rw [first?_eq (plain_head? all ends) single noIdentifier double, if_neg (by simp [noDigit, dot]),
    if_pos sign.symm]
  obtain ⟨continues, allMore⟩ : Rules.generic.continuesWord d = true ∧
      more.all Rules.generic.continuesWord = true := by simpa using all
  have usual : d ≠ '>' ∧ d ≠ '?' ∧ d ≠ '@' ∧ d ≠ ' ' ∧ d ≠ '-' :=
    ⟨ne_of_continuesWord continues (by decide), ne_of_continuesWord continues (by decide), notAt,
      ne_of_continuesWord continues (by decide), ne_of_continuesWord continues (by decide)⟩
  simp [starts, usual, ofWord_of_stops [c, d] (List.all_eq_true.1 allMore) ends.stops]

/-- A word is cut off where it ends. -/
theorem Cuts.word
    {chars rest : List Char} {lexemes : List Lexeme} (cuts : Cuts .generic rest lexemes)
    (isWord : isWord chars = true) (ends : Ends rest) :
    Cuts .generic (chars ++ rest) (.word (Word.plain (String.ofList chars)) :: lexemes) := by
  cases chars with
  | nil => cases isWord
  | cons c more =>
      simp only [Lexeme.isWord, Bool.and_eq_true, Bool.or_eq_true, beq_iff_eq] at isWord
      obtain ⟨head, all⟩ := isWord
      have starts : Rules.generic.startsWord c = true := by
        simp only [Rules.startsWord, Bool.or_eq_true, beq_iff_eq]
        rcases head with (letter | underscore) | ⟨hash | at_, -⟩
        · exact .inl (.inl (.inl letter))
        · exact .inl (.inl (.inr underscore))
        · exact .inl (.inr hash)
        · exact .inr at_
      obtain ⟨noBlank, -, unlike⟩ := startsWord_facts starts
      simp only [List.mem_cons, List.not_mem_nil, or_false, not_or] at unlike
      obtain ⟨-, -, -, -, -, -, minus, slash⟩ := unlike
      have first : first? .generic c (more ++ rest) =
          some (.word (Word.plain (String.ofList (c :: more))), rest) := by
        rcases head with letter | ⟨sign, behind⟩
        · exact first?_letter letter all ends
        · cases more with
          | nil => cases behind
          | cons d others => exact first?_sign sign (by simpa using behind) all ends
      have noLine : startsLineComment .generic (c :: (more ++ rest)) = false := by
        unfold startsLineComment
        split <;> simp_all [Rules.commentsByHash, Rules.isOneOf]
      exact cuts.lexeme first (by simp) noBlank noLine fun same => absurd same slash

/-! ## Quoted text -/

/-- Doubled text reads back up to its closing mark, and nothing behind the mark is touched. -/
theorem quotedText?_replaceChar
    {closing : Char} {backslash : Bool} (chars : List Char) {rest : List Char}
    (plain : backslash = true → '\\' ∉ chars)
    (ends : rest.head? ≠ some closing) :
    quotedText? closing backslash
        (Text.replaceChar closing [closing, closing] chars ++ closing :: rest) =
      some (chars, rest) := by
  induction chars with
  | nil =>
      cases rest with
      | nil => simp [quotedText?]
      | cons d more =>
          have other : d ≠ closing := fun same => ends (by simp [same])
          simp [quotedText?, other]
  | cons c chars ih =>
      have inner := ih fun escapes => fun found => plain escapes (List.mem_cons_of_mem _ found)
      rw [Text.replaceChar_cons]
      by_cases same : c = closing
      · subst same
        simp [quotedText?, inner]
      · have noEscape : (backslash && c == '\\') = false := by
          cases backslash with
          | false => rfl
          | true =>
              have other : c ≠ '\\' := fun same => plain rfl (by simp [same])
              simpa using other
        rw [if_neg same, List.singleton_append, List.cons_append, quotedText?.eq_def]
        simp [same, noEscape, inner]

theorem Ends.head?_ne {rest : List Char} {d : Char} (ends : Ends rest) (other : d ∉ endings) :
    rest.head? ≠ some d := by
  intro found
  exact other (ends d found)

theorem first?_doubleQuote (chars : List Char) :
    first? .generic '"' chars =
      (quotedText? '"' false chars).map fun (value, after) =>
        (.word (Word.quoted (String.ofList value) '"'), after) := by
  unfold first?
  split <;> simp [markedLiteral?, Rules.identifierEnd?]

theorem first?_singleQuote (chars : List Char) :
    first? .generic '\'' chars =
      (quotedText? '\'' false chars).map fun (value, after) =>
        (.string (String.ofList value), after) := by
  unfold first?
  split <;> simp [markedLiteral?, Rules.escapesByBackslash, Rules.isOneOf]

/-- A quoted identifier is cut off behind its closing mark. -/
theorem Cuts.quoted
    {rest : List Char} {lexemes : List Lexeme} (cuts : Cuts .generic rest lexemes)
    (text : String) (ends : Ends rest) :
    Cuts .generic ((Dialect.enclose '"' '"' text).toList ++ rest)
      (.word (Word.quoted text '"') :: lexemes) := by
  have inner := quotedText?_replaceChar text.toList (by simp : false = true → _)
    (ends.head?_ne (by decide : '"' ∉ endings))
  have first : first? .generic '"'
        (Text.replaceChar '"' ['"', '"'] text.toList ++ '"' :: rest) =
      some (.word (Word.quoted text '"'), rest) := by
    simp [first?_doubleQuote, inner]
  have whole := cuts.lexeme first (by simp; omega) (by decide) rfl (by simp)
  simpa [Dialect.enclose] using whole

/-- A string literal is cut off behind its closing mark. -/
theorem Cuts.string
    {rest : List Char} {lexemes : List Lexeme} (cuts : Cuts .generic rest lexemes)
    (text : String) (ends : Ends rest) :
    Cuts .generic ((Dialect.enclose '\'' '\'' text).toList ++ rest) (.string text :: lexemes) := by
  have inner := quotedText?_replaceChar text.toList (by simp : false = true → _)
    (ends.head?_ne (by decide : '\'' ∉ endings))
  have first : first? .generic '\''
        (Text.replaceChar '\'' ['\'', '\''] text.toList ++ '\'' :: rest) =
      some (.string text, rest) := by
    simp [first?_singleQuote, inner]
  have whole := cuts.lexeme first (by simp; omega) (by decide) rfl (by simp)
  simpa [Dialect.enclose] using whole

/-! ## Marks -/

/-- The characters that the marks of compiled SQL start with, dots apart. -/
def markStarts : List Char :=
  [',', '(', ')', '*', '+', '%', '-', '<', '>', '=', '/', '|']

theorem first?_mark {c : Char} (rest : List Char) (start : c ∈ markStarts) :
    first? .generic c rest =
      some (.mark (markText .generic c rest).1, (markText .generic c rest).2) := by
  have noWord : ∀ d ∈ markStarts, Rules.generic.startsWord d = false ∧ d.isDigit = false :=
    List.forall_iff_forall_mem.mp (by decide)
  obtain ⟨noWord, noDigit⟩ := noWord c start
  simp only [markStarts, List.mem_cons, List.not_mem_nil, or_false] at start
  unfold first?
  split
  · rcases start with rfl | rfl | rfl | rfl | rfl | rfl | rfl | rfl | rfl | rfl | rfl | rfl <;>
      simp [Rules.identifierEnd?, noWord, noDigit]
  · rcases start with rfl | rfl | rfl | rfl | rfl | rfl | rfl | rfl | rfl | rfl | rfl | rfl <;>
      simp [markedLiteral?, Rules.identifierEnd?, noWord, noDigit]
  · rcases start with rfl | rfl | rfl | rfl | rfl | rfl | rfl | rfl | rfl | rfl | rfl | rfl <;>
      simp [Rules.identifierEnd?, noWord, noDigit]

/-- A mark is cut off where it ends, unless it starts a comment. -/
theorem Cuts.mark
    {c : Char} {chars rest : List Char} {text : String} {lexemes : List Lexeme}
    (cuts : Cuts .generic rest lexemes) (start : c ∈ markStarts)
    (found : markText .generic c chars = (text, rest)) (shorter : rest.length ≤ chars.length)
    (noLine : c = '-' → chars.head? ≠ some '-') (noBlock : c = '/' → chars.head? ≠ some '*') :
    Cuts .generic (c :: chars) (.mark text :: lexemes) := by
  have noBlank : ∀ d ∈ markStarts, Text.isBlank d = false :=
    List.forall_iff_forall_mem.mp (by decide)
  refine cuts.lexeme (by rw [first?_mark chars start, found]) shorter (noBlank c start) ?_ noBlock
  unfold startsLineComment
  split
  · rename_i rest same
    obtain ⟨rfl, rfl⟩ := List.cons.inj same
    exact absurd rfl (noLine rfl)
  · simp [Rules.commentsByHash, Rules.isOneOf]
  · simp [Rules.isOneOf]
  · rfl

/-- In the generic grammar a mark is the first of the long marks that fits, or one character. -/
theorem markText_generic (c : Char) (rest : List Char) :
    markText .generic c rest =
      (("//" :: longMarks).findSome? fun text =>
        (dropStart? text.toList (c :: rest)).map fun after => (text, after)).getD
          (String.singleton c, rest) := by
  have taken (chars : List Char) : chars.takeWhile Rules.generic.lengthensOperator = [] := by
    cases chars <;> simp [Rules.lengthensOperator, Rules.isOneOf]
  have dropped (chars : List Char) : chars.dropWhile Rules.generic.lengthensOperator = chars := by
    cases chars <;> simp [Rules.lengthensOperator, Rules.isOneOf]
  simp [markText, Rules.isGenericOr, taken, dropped]

/-- A minus sign that a greater sign does not lengthen. -/
theorem markText_minus {chars : List Char} (noArrow : chars.head? ≠ some '>') :
    markText .generic '-' chars = ("-", chars) := by
  cases chars with
  | nil => rfl
  | cons c more =>
      have other : '>' ≠ c := fun same => noArrow (by simp [← same])
      have none : ("//" :: longMarks).findSome? (fun text =>
          (dropStart? text.toList ('-' :: c :: more)).map fun after => (text, after)) = none := by
        simp [longMarks, dropStart?, other]
      rw [markText_generic, none]
      rfl

/-! ## Numbers -/

/-- What stands behind a number: a blank, a comma or a parenthesis. -/
def Parts (chars : List Char) : Prop :=
  ∀ c ∈ chars.head?, c ∈ [' ', '\n', ',', '(', ')']

theorem span_digits
    {digits rest : List Char} (all : digits.all Char.isDigit = true)
    (ends : ∀ c ∈ rest.head?, c.isDigit = false) :
    (digits ++ rest).takeWhile Char.isDigit = digits ∧
      (digits ++ rest).dropWhile Char.isDigit = rest :=
  ⟨Text.takeWhile_of_stops (List.all_eq_true.1 all) ends,
    Text.dropWhile_of_stops (List.all_eq_true.1 all) ends⟩

/-- The exponent of a number: none, or the letter and a whole number. -/
def IsExponent (chars : List Char) : Prop :=
  chars = [] ∨ ∃ sign digits, chars = 'e' :: sign ++ digits ∧ (sign = [] ∨ sign = ['-']) ∧
    digits ≠ [] ∧ digits.all Char.isDigit = true

/-- The decimals of a number: none, or a point and digits. -/
def IsFraction (chars : List Char) : Prop :=
  chars = [] ∨ ∃ digits, chars = '.' :: digits ∧ digits.all Char.isDigit = true

theorem exponentText_append
    {exponent rest : List Char} (isExponent : IsExponent exponent) (parts : Parts rest) :
    exponentText (exponent ++ rest) = (exponent, rest) := by
  have facts : ∀ c ∈ [' ', '\n', ',', '(', ')'], c.isDigit = false ∧ c ≠ 'e' ∧ c ≠ 'E' :=
    List.forall_iff_forall_mem.mp (by decide)
  rcases isExponent with rfl | ⟨sign, digits, rfl, isSign, some, all⟩
  · cases rest with
    | nil => rfl
    | cons c more => simp [exponentText, (facts c (parts c rfl)).2]
  · obtain ⟨taken, dropped⟩ := span_digits all fun c found => (facts c (parts c found)).1
    obtain ⟨d, others, rfl⟩ : ∃ d others, digits = d :: others := by
      cases digits with
      | nil => exact absurd rfl some
      | cons d others => exact ⟨d, others, rfl⟩
    have digit : d.isDigit = true := by
      simp only [List.all_cons, Bool.and_eq_true] at all
      exact all.1
    have noSign : d ≠ '+' ∧ d ≠ '-' := by
      constructor
      all_goals
        rintro rfl
        exact absurd digit (by decide)
    rcases isSign with rfl | rfl
    · rw [List.cons_append] at taken dropped
      simp [exponentText, noSign, taken, dropped]
    · rw [List.cons_append] at taken dropped
      simp [exponentText, taken, dropped]

/-- Digits, decimals and an exponent are a number, whatever parts it from the text behind. -/
theorem ofDigits_append {rules : Rules}
    {whole fraction exponent rest : List Char} (some : whole ≠ [])
    (all : whole.all Char.isDigit = true) (isFraction : IsFraction fraction)
    (isExponent : IsExponent exponent) (parts : Parts rest) :
    ofDigits rules (whole ++ fraction ++ exponent ++ rest) =
      (.number (String.ofList (whole ++ fraction ++ exponent)), rest) := by
  have facts : ∀ c ∈ [' ', '\n', ',', '(', ')'],
      c.isDigit = false ∧ c ≠ '.' ∧ c ≠ 'x' ∧ c ≠ 'L' :=
    List.forall_iff_forall_mem.mp (by decide)
  have behind : ∀ c ∈ (exponent ++ rest).head?, c.isDigit = false ∧ c ≠ '.' ∧ c ≠ 'x' := by
    intro c found
    rcases isExponent with rfl | ⟨sign, digits, rfl, -⟩
    · obtain ⟨noDigit, noPoint, noHex, -⟩ := facts c (parts c found)
      exact ⟨noDigit, noPoint, noHex⟩
    · obtain rfl : 'e' = c := by simpa using found
      decide
  have number : numberText (whole ++ (fraction ++ (exponent ++ rest))) =
      (whole ++ fraction, exponent, rest) := by
    have exponents := exponentText_append isExponent parts
    rcases isFraction with rfl | ⟨digits, rfl, decimals⟩
    · obtain ⟨taken, dropped⟩ := span_digits all fun c found => (behind c found).1
      simp only [numberText, List.nil_append, List.append_nil, taken, dropped]
      split
      · rename_i more same
        exact absurd rfl (behind '.' (by simp [same])).2.1
      · simp [exponents]
    · obtain ⟨taken, dropped⟩ := span_digits all
        (by simp : ∀ c ∈ ('.' :: (digits ++ (exponent ++ rest))).head?, c.isDigit = false)
      obtain ⟨takenMore, droppedMore⟩ := span_digits decimals fun c found => (behind c found).1
      simp [numberText, taken, dropped, takenMore, droppedMore, exponents]
  have notPoint : whole ++ fraction ≠ ['.'] := by
    intro same
    cases whole with
    | nil => exact some rfl
    | cons c more =>
        obtain ⟨rfl, -⟩ := List.cons.inj same
        simp at all
  have notHex : (whole ++ (fraction ++ (exponent ++ rest))).take 2 ≠ ['0', 'x'] := by
    intro same
    cases whole with
    | nil => exact some rfl
    | cons c more =>
        have second : (more ++ (fraction ++ (exponent ++ rest))).head? = .some 'x' := by
          rw [List.cons_append, List.take_succ_cons] at same
          have heads := congrArg List.head? (List.cons.inj same).2
          rwa [List.head?_take, if_neg Nat.one_ne_zero] at heads
        cases more with
        | nil =>
            rcases isFraction with rfl | ⟨digits, rfl, -⟩
            · exact absurd rfl (behind 'x' second).2.2
            · simp at second
        | cons d others =>
            obtain rfl : d = 'x' := by simpa using second
            simp at all
  rw [List.append_assoc, List.append_assoc]
  unfold ofDigits
  rw [number]
  simp only [notPoint, if_false, notHex]
  cases rest with
  | nil => simp
  | cons c more =>
      have noLong : c ≠ 'L' := (facts c (parts c rfl)).2.2.2
      have stop : rules.continuesWord c = false :=
        rules.continuesWord_endings c
          ((by decide : [' ', '\n', ',', '(', ')'] ⊆ endings) (parts c rfl))
      simp [noLong, stop]

theorem ne_of_isDigit {c d : Char} (digit : c.isDigit = true) (other : d.isDigit = false) :
    c ≠ d := by
  rintro rfl
  simp [other] at digit

/-- A digit or a point starts what its digits make. -/
theorem first?_digits {rules : Rules} {c : Char} (digits : c.isDigit = true ∨ c = '.')
    (rest : List Char) : first? rules c rest = some (ofDigits rules (c :: rest)) := by
  have ne (d : Char) (other : d.isDigit = false ∧ d ≠ '.') : c ≠ d := by
    rcases digits with digit | rfl
    · exact ne_of_isDigit digit other.1
    · exact other.2.symm
  have unmarked (quote : Char) : markedLiteral? rules c quote = none := by
    simp [markedLiteral?, ne 'n' (by decide), ne 'N' (by decide), ne 'x' (by decide),
      ne 'X' (by decide), ne 'e' (by decide), ne 'E' (by decide), ne 'b' (by decide),
      ne 'B' (by decide), ne 'r' (by decide), ne 'R' (by decide)]
  have noIdentifier : rules.identifierEnd? c = none :=
    rules.identifierEnd?_of_ne (ne _ (by decide)) (ne _ (by decide)) (ne _ (by decide))
  unfold first?
  split <;>
    simp [unmarked, ne 'u' (by decide), ne 'U' (by decide), ne '\'' (by decide),
      ne '"' (by decide), digits, noIdentifier]

/-- The marks that what parts them from the text behind keeps from being longer ones. -/
theorem markText_of_parts
    {c : Char} {chars rest : List Char} (parts : Parts rest)
    (short : (c, chars) ∈
      [('=', []), ('<', []), ('>', []), ('<', ['=']), ('/', []), ('|', ['|'])]) :
    markText .generic c (chars ++ rest) = (String.ofList (c :: chars), rest) := by
  simp only [List.mem_cons, Prod.mk.injEq, List.not_mem_nil, or_false] at short
  cases rest with
  | nil =>
      rcases short with ⟨rfl, rfl⟩ | ⟨rfl, rfl⟩ | ⟨rfl, rfl⟩ | ⟨rfl, rfl⟩ | ⟨rfl, rfl⟩ | ⟨rfl, rfl⟩ <;>
        rfl
  | cons d more =>
      have blank := parts d rfl
      simp only [List.mem_cons, List.not_mem_nil, or_false] at blank
      rcases blank with rfl | rfl | rfl | rfl | rfl
      all_goals
        rcases short with ⟨rfl, rfl⟩ | ⟨rfl, rfl⟩ | ⟨rfl, rfl⟩ | ⟨rfl, rfl⟩ | ⟨rfl, rfl⟩ | ⟨rfl, rfl⟩ <;>
          rfl

/-- A dot that no digit follows is a mark. -/
theorem first?_point {rules : Rules} {rest : List Char}
    (noDigit : ∀ c ∈ rest.head?, c.isDigit = false) :
    first? rules '.' rest = some (.mark ".", rest) := by
  have point : ofDigits rules ('.' :: rest) = (.mark ".", rest) := by
    obtain ⟨decimals, others⟩ := @span_digits [] rest rfl noDigit
    rw [List.nil_append] at decimals others
    simp [ofDigits, numberText, decimals, others]
  have noIdentifier : rules.identifierEnd? '.' = none := by
    rcases rules with _ | dialect
    · rfl
    · cases dialect <;> rfl
  unfold first?
  split <;> simp [markedLiteral?, noIdentifier, point]

/-- A number is cut off where it is parted from what follows. -/
theorem Cuts.number {rules : Rules}
    {whole fraction exponent rest : List Char} {lexemes : List Lexeme}
    (cuts : Cuts rules rest lexemes) (some : whole ≠ [])
    (all : whole.all Char.isDigit = true) (isFraction : IsFraction fraction)
    (isExponent : IsExponent exponent) (parts : Parts rest) :
    Cuts rules (whole ++ fraction ++ exponent ++ rest)
      (.number (String.ofList (whole ++ fraction ++ exponent)) :: lexemes) := by
  have cutOff := @ofDigits_append rules _ _ _ _ some all isFraction isExponent parts
  cases whole with
  | nil => exact absurd rfl some
  | cons c more =>
      have digit : c.isDigit = true := by
        simp only [List.all_cons, Bool.and_eq_true] at all
        exact all.1
      have noBlank : Text.isBlank c = false := by
        have range := Text.toNat_of_isDigit digit
        simp [Text.isBlank, Text.inRanges, Text.blankRanges]
        omega
      have noLine (chars : List Char) : startsLineComment rules (c :: chars) = false := by
        unfold startsLineComment
        split <;> simp_all
      refine cuts.lexeme ?_ (by simp; omega) noBlank (noLine _) fun same =>
        absurd same (ne_of_isDigit digit rfl)
      rw [List.cons_append, List.cons_append, List.cons_append] at cutOff
      exact (first?_digits (.inl digit) _).trans (congrArg Option.some cutOff)

end Lexeme
end Grammar
end SemanticLayer
