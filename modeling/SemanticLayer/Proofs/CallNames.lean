import Mathlib.Data.List.TakeWhile
import SemanticLayer.Proofs.Identifiers
import SemanticLayer.Proofs.UpperCase

/-!
# Names of functions

The name of a function is written bare whatever it holds, in upper case and as the dialect spells
it. A call is read back as a call of its function just where that text is one word in front of a
parenthesis, and no other spelling has taken the place of a name in quotation marks or of a name
behind a path.
-/

namespace SemanticLayer

open Grammar (Word Lexeme Rules)

namespace Text

/-- No digit is a blank. -/
theorem isBlank_of_isDigit {c : Char} (digit : c.isDigit = true) : isBlank c = false := by
  have range := toNat_of_isDigit digit
  simp only [isBlank, inRanges, blankRanges, List.any_cons, List.any_nil, Bool.or_false,
    Bool.or_eq_false_iff, Bool.and_eq_false_iff, decide_eq_false_iff_not]
  omega

end Text

namespace Grammar

/-- Punctuation starts no word in any grammar. -/
theorem Rules.startsWord_punctuation (rules : Rules) :
    ∀ d ∈ ['\'', '"', '\x60', '[', '-', '/', '?'], rules.startsWord d = false := by
  rcases rules with _ | dialect
  · exact List.forall_iff_forall_mem.mp (by decide)
  · cases dialect <;> exact List.forall_iff_forall_mem.mp (by decide)

/-- Quotation marks and ampersands continue no word in any grammar. -/
theorem Rules.continuesWord_punctuation (rules : Rules) :
    ∀ d ∈ ['\'', '"', '&'], rules.continuesWord d = false := by
  rcases rules with _ | dialect
  · exact List.forall_iff_forall_mem.mp (by decide)
  · cases dialect <;> exact List.forall_iff_forall_mem.mp (by decide)

namespace Lexeme

variable {rules : Rules} {c : Char} {chars rest after : List Char} {word : Word} {fuel : Nat}
  {lexemes : List Lexeme}

/-! ## Where words come from -/

/-- Quoted text is no longer than what it is read from and holds its characters only. -/
theorem quotedText?_bounds {closing : Char} {value : List Char}
    (found : quotedText? closing false chars = some (value, after)) :
    value.length + after.length ≤ chars.length ∧ ∀ x ∈ value, x ∈ chars := by
  generalize plain : false = backslash at found
  fun_induction quotedText? closing backslash chars generalizing value after with
  | case1 => cases found
  | case2 more ih =>
      obtain ⟨⟨inner, behind⟩, read, same⟩ := Option.map_eq_some_iff.1 found
      obtain ⟨rfl, rfl⟩ := Prod.mk.inj same
      obtain ⟨shorter, inside⟩ := ih read
      simp only [List.length_cons, List.mem_cons] at shorter ⊢
      exact ⟨by omega, by tauto⟩
  | case3 d more other =>
      obtain ⟨rfl, rfl⟩ := Prod.mk.inj (Option.some.inj found)
      simp
  | case4 =>
      obtain ⟨rfl, rfl⟩ := Prod.mk.inj (Option.some.inj found)
      simp
  | case5 d other escapes => simp [← plain] at escapes
  | case6 d other escapes => simp [← plain] at escapes
  | case7 d more _ _ ih =>
      obtain ⟨⟨inner, behind⟩, read, same⟩ := Option.map_eq_some_iff.1 found
      obtain ⟨rfl, rfl⟩ := Prod.mk.inj same
      obtain ⟨shorter, inside⟩ := ih read
      simp only [List.length_cons, List.mem_cons] at shorter ⊢
      refine ⟨by omega, ?_⟩
      rintro x (rfl | found)
      · exact .inl rfl
      · exact .inr (inside x found)

/-- The sign that the digits of an exponent stand behind. -/
def signText : List Char → List Char × List Char
  | '+' :: more => (['+'], more)
  | '-' :: more => (['-'], more)
  | more => ([], more)

theorem signText_join (chars : List Char) : (signText chars).1 ++ (signText chars).2 = chars := by
  unfold signText
  split <;> rfl

theorem signText_paren (chars rest : List Char) :
    signText (chars ++ '(' :: rest) = ((signText chars).1, (signText chars).2 ++ '(' :: rest) := by
  cases chars with
  | nil => rfl
  | cons c more =>
      by_cases plus : c = '+'
      · subst plus
        rfl
      · by_cases minus : c = '-'
        · subst minus
          rfl
        · simp [signText, plus, minus]

theorem exponentText_cons (c : Char) (rest : List Char) :
    exponentText (c :: rest) =
      if (c = 'e' ∨ c = 'E') ∧ (signText rest).2.takeWhile Char.isDigit ≠ [] then
        (c :: (signText rest).1 ++ (signText rest).2.takeWhile Char.isDigit,
          (signText rest).2.dropWhile Char.isDigit)
      else ([], c :: rest) := by
  generalize whole : c :: rest = chars
  fun_cases exponentText chars with
  | case1 d more letter sign digits signed none =>
      obtain ⟨rfl, rfl⟩ := List.cons.inj whole
      have taken : signText rest = (sign, digits) := signed
      simp [taken, none]
  | case2 d more letter sign digits signed some =>
      obtain ⟨rfl, rfl⟩ := List.cons.inj whole
      have taken : signText rest = (sign, digits) := signed
      rw [taken, if_pos ⟨letter, some⟩]
  | case3 d more other =>
      obtain ⟨rfl, rfl⟩ := List.cons.inj whole
      simp [other]
  | case4 => cases whole

theorem exponentText_join (chars : List Char) :
    (exponentText chars).1 ++ (exponentText chars).2 = chars := by
  cases chars with
  | nil => rfl
  | cons c more =>
      rw [exponentText_cons]
      split
      next => simp [signText_join]
      next => rfl

theorem takeWhile_paren {p : Char → Bool} (stop : p '(' = false) (chars rest : List Char) :
    (chars ++ '(' :: rest).takeWhile p = chars.takeWhile p := by
  induction chars with
  | nil => simp [stop]
  | cons c more ih => simp [List.takeWhile_cons, ih]

theorem dropWhile_paren {p : Char → Bool} (stop : p '(' = false) (chars rest : List Char) :
    (chars ++ '(' :: rest).dropWhile p = chars.dropWhile p ++ '(' :: rest := by
  induction chars with
  | nil => simp [stop]
  | cons c more ih =>
    rw [List.cons_append, List.dropWhile_cons, List.dropWhile_cons, ih]
    split <;> rfl

/-- A parenthesis does not make a hexadecimal number of what stands in front of it. -/
theorem take_two_paren (c : Char) (more rest : List Char) :
    (c :: more ++ '(' :: rest).take 2 = ['0', 'x'] ↔ (c :: more).take 2 = ['0', 'x'] := by
  cases more <;> simp

theorem exponentText_paren (chars rest : List Char) :
    exponentText (chars ++ '(' :: rest) =
      ((exponentText chars).1, (exponentText chars).2 ++ '(' :: rest) := by
  cases chars with
  | nil => simp [exponentText]
  | cons c more =>
      rw [List.cons_append, exponentText_cons, exponentText_cons, signText_paren]
      dsimp only
      rw [takeWhile_paren rfl, dropWhile_paren rfl]
      split <;> rfl

/-- A number is cut from the text that it starts. -/
theorem numberText_join (chars : List Char) :
    (numberText chars).1 ++ ((numberText chars).2.1 ++ (numberText chars).2.2) = chars := by
  unfold numberText
  dsimp only
  rw [exponentText_join]
  split
  next more point => simp [← point]
  next => simp

theorem numberText_paren (chars rest : List Char) :
    numberText (chars ++ '(' :: rest) =
      ((numberText chars).1, (numberText chars).2.1, (numberText chars).2.2 ++ '(' :: rest) := by
  unfold numberText
  dsimp only
  rw [takeWhile_paren rfl, dropWhile_paren rfl]
  cases chars.dropWhile Char.isDigit with
  | nil => simp [exponentText]
  | cons c more =>
    by_cases point : c = '.'
    · subst point
      simp [takeWhile_paren, dropWhile_paren, exponentText_paren]
    · have plain := exponentText_paren (c :: more) rest
      rw [List.cons_append] at plain
      simp [point, plain]

theorem drop_length_takeWhile (p : Char → Bool) (chars : List Char) :
    chars.drop (chars.takeWhile p).length = chars.dropWhile p :=
  calc chars.drop (chars.takeWhile p).length
      = (chars.takeWhile p ++ chars.dropWhile p).drop (chars.takeWhile p).length := by
        rw [List.takeWhile_append_dropWhile]
    _ = chars.dropWhile p := List.drop_left

/-- Digits start a word just where the grammar has such words, the digits have no exponent, and what
continues a word stands behind them. -/
theorem ofDigits_word_iff :
    ofDigits rules chars = (.word word, after) ↔
      ∃ digits behind, numberText chars = (digits, [], behind) ∧
        rules.wordsStartWithDigits = true ∧ digits ≠ ['.'] ∧ chars.take 2 ≠ ['0', 'x'] ∧
        behind.takeWhile rules.continuesWord ≠ [] ∧
        word = Word.plain (String.ofList (digits ++ behind.takeWhile rules.continuesWord)) ∧
        after = behind.dropWhile rules.continuesWord := by
  unfold ofDigits
  generalize numberText chars = parts
  obtain ⟨digits, exponent, behind⟩ := parts
  dsimp only
  constructor
  · intro found
    by_cases starts : rules.wordsStartWithDigits = true ∧ exponent = []
    · rw [if_pos starts] at found
      obtain ⟨starts, rfl⟩ := starts
      split_ifs at found with point hex tail
      · simp at found
      · simp at found
      · obtain ⟨same, rfl⟩ := Prod.mk.inj found
        exact ⟨digits, behind, rfl, starts, point, hex, tail, (Lexeme.word.inj same).symm,
          drop_length_takeWhile _ _⟩
      · simp at found
    · rw [if_neg starts] at found
      split_ifs at found with point hex tail
      · simp at found
      · simp at found
      · exact absurd rfl tail
      · simp at found
  · rintro ⟨_, _, same, starts, point, hex, tail, rfl, rfl⟩
    obtain ⟨rfl, rfl, rfl⟩ : digits = _ ∧ exponent = [] ∧ behind = _ := by simpa using same
    simp only [if_neg point, if_neg hex, starts, and_self, if_true, if_pos tail,
      drop_length_takeWhile]

/-- A word that digits start is the text in front of what is left. -/
theorem ofDigits_word_append (found : ofDigits rules chars = (.word word, after)) :
    ∃ front, chars = front ++ after ∧ word = Word.plain (String.ofList front) := by
  have whole := numberText_join chars
  obtain ⟨digits, behind, parts, -, -, -, -, rfl, rfl⟩ := ofDigits_word_iff.1 found
  rw [parts] at whole
  refine ⟨digits ++ behind.takeWhile rules.continuesWord, ?_, rfl⟩
  rw [List.append_assoc, List.takeWhile_append_dropWhile]
  exact whole.symm

/-- A word as the first lexeme is an identifier in quotation marks, or digits, an at or a hash sign
or a letter start it. -/
theorem first?_word_cases (found : first? rules c rest = some (.word word, after)) :
    (∃ closing value, quotedText? closing false rest = some (value, after) ∧
        word = Word.quoted (String.ofList value) c) ∨
      ((c.isDigit = true ∨ c = '.') ∧ ofDigits rules (c :: rest) = (.word word, after)) ∨
      ((c = '@' ∨ c = '#') ∧ ∃ d more, rest = d :: more ∧ rules.startsWord c = true ∧
        ¬ ['>', '?', '@', ' ', '-'].contains d ∧
          ofWord rules [c, d] more = (.word word, after)) ∨
      (¬ (c.isDigit = true ∨ c = '.') ∧ ¬ (c = '@' ∨ c = '#') ∧ rules.startsWord c = true ∧
        ofWord rules [c] rest = (.word word, after)) := by
  unfold first? at found
  dsimp only at found
  split at found
  next => simp at found
  next =>
    split at found
    next => simp at found
    next =>
      split at found
      next closing quotes =>
        obtain ⟨⟨value, behind⟩, read, same⟩ := Option.map_eq_some_iff.1 found
        obtain ⟨isWord, rfl⟩ := Prod.mk.inj same
        exact .inl ⟨closing, value, read, (Lexeme.word.inj isWord).symm⟩
      next =>
        split_ifs at found with double digits sign question starts dollar
        · simp at found
        · exact .inr (.inl ⟨digits, Option.some.inj found⟩)
        · split at found
          next d more _ =>
            split_ifs at found with begins
            · exact .inr (.inr (.inl
                ⟨sign, d, more, rfl, begins.1, begins.2, Option.some.inj found⟩))
            · simp at found
          next => simp at found
        · simp at found
        · exact .inr (.inr (.inr ⟨digits, sign, starts, Option.some.inj found⟩))
        · unfold ofDollar? at found
          dsimp only at found
          split at found <;> simp at found
        · simp at found

/-- A word that letters start is the text in front of what is left. -/
theorem ofWord_append {start : List Char}
    (found : ofWord rules start chars = (.word word, after)) :
    ∃ front, start ++ chars = front ++ after ∧ word = Word.plain (String.ofList front) := by
  obtain ⟨isWord, rfl⟩ := Prod.mk.inj found
  refine ⟨start ++ chars.takeWhile rules.continuesWord, ?_, (Lexeme.word.inj isWord).symm⟩
  rw [List.append_assoc, List.takeWhile_append_dropWhile]

/-- A word is a start of the text it is cut from, or it is shorter than that text and made of its
characters. -/
theorem first?_word (found : first? rules c rest = some (.word word, after)) :
    (∃ front, c :: rest = front ++ after ∧ word = Word.plain (String.ofList front)) ∨
      word.value.toList.length + after.length ≤ rest.length ∧
        ∀ x ∈ word.value.toList, x ∈ rest := by
  rcases first?_word_cases found with ⟨closing, value, read, rfl⟩ | ⟨-, number⟩ |
    ⟨-, d, more, rfl, -, -, sign⟩ | ⟨-, -, -, letter⟩
  · exact .inr (by simpa [Word.quoted] using quotedText?_bounds read)
  · exact .inl (ofDigits_word_append number)
  · exact .inl (ofWord_append sign)
  · exact .inl (ofWord_append letter)

/-! ## Words in front of a parenthesis -/

/-- Whether digits or a point start a word that is the whole text. -/
def isNumbered (rules : Rules) (chars : List Char) : Bool :=
  rules.wordsStartWithDigits && (numberText chars).1 != ['.'] && chars.take 2 != ['0', 'x'] &&
    (numberText chars).2.1.isEmpty && !(numberText chars).2.2.isEmpty &&
    (numberText chars).2.2.all rules.continuesWord

/-- Whether a text is one bare word in front of a parenthesis. -/
def isCallable (rules : Rules) : List Char → Bool
  | [] => false
  | c :: more =>
    if c.isDigit ∨ c = '.' then isNumbered rules (c :: more)
    else if c = '@' ∨ c = '#' then
      rules.startsWord c && (more.head?.any fun d => !(['>', '?', '@', ' ', '-'].contains d)) &&
        more.tail.all rules.continuesWord
    else rules.startsWord c && !Text.isBlank c && more.all rules.continuesWord

/-- What a callable text starts with is no blank and starts no comment. -/
theorem isCallable_facts {more : List Char} (callable : isCallable rules (c :: more) = true)
    (rest : List Char) :
    Text.isBlank c = false ∧ startsLineComment rules (c :: rest) = false ∧ c ≠ '/' := by
  have byHash : rules.startsWord '#' = true → rules.commentsByHash = false := by
    rcases rules with _ | dialect
    · decide
    · cases dialect <;> decide
  have start : Text.isBlank c = false ∧ c ≠ '-' ∧ c ≠ '/' ∧
      (c = '#' → rules.startsWord '#' = true) := by
    rw [isCallable] at callable
    split_ifs at callable with digits sign
    · rcases digits with digit | rfl
      · exact ⟨Text.isBlank_of_isDigit digit, ne_of_isDigit digit rfl, ne_of_isDigit digit rfl,
          fun same => absurd same (ne_of_isDigit digit rfl)⟩
      · exact ⟨by decide, by decide, by decide, fun same => absurd same (by decide)⟩
    · simp only [Bool.and_eq_true] at callable
      rcases sign with rfl | rfl
      · exact ⟨by decide, by decide, by decide, fun same => absurd same (by decide)⟩
      · exact ⟨by decide, by decide, by decide, fun _ => callable.1.1⟩
    · simp only [Bool.and_eq_true, Bool.not_eq_true'] at callable
      have unlike (d : Char) (mark : rules.startsWord d = false) : c ≠ d := by
        rintro rfl
        simp [mark] at callable
      exact ⟨callable.1.2, unlike '-' (rules.startsWord_punctuation _ (by simp)),
        unlike '/' (rules.startsWord_punctuation _ (by simp)), fun same => same ▸ callable.1.1⟩
  obtain ⟨noBlank, noMinus, noSlash, hash⟩ := start
  refine ⟨noBlank, ?_, noSlash⟩
  unfold startsLineComment
  split <;> simp_all

/-- An at or a hash sign may start a word with what stands behind it. -/
theorem first?_atSign {d : Char} (sign : c = '@' ∨ c = '#') (more : List Char) :
    first? rules c (d :: more) =
      if rules.startsWord c ∧ ¬ ['>', '?', '@', ' ', '-'].contains d then
        some (ofWord rules [c, d] more)
      else some (mark (markText rules c (d :: more)).1, (markText rules c (d :: more)).2) := by
  have noIdentifier : rules.identifierEnd? c = none := by
    rcases sign with rfl | rfl <;>
      exact rules.identifierEnd?_of_ne (by decide) (by decide) (by decide)
  have unmarked (quote : Char) : markedLiteral? rules c quote = none := by
    rcases sign with rfl | rfl <;> simp [markedLiteral?]
  have others : ¬ (c = 'u' ∨ c = 'U') ∧ c ≠ '\'' ∧ c ≠ '"' ∧ ¬ (c.isDigit = true ∨ c = '.') := by
    rcases sign with rfl | rfl <;> decide
  unfold first?
  split <;> simp_all

/-- A callable text is the first lexeme in front of a parenthesis. -/
theorem first?_of_isCallable {more : List Char} (callable : isCallable rules (c :: more) = true)
    (rest : List Char) :
    first? rules c (more ++ '(' :: rest) =
      some (.word (Word.plain (String.ofList (c :: more))), '(' :: rest) := by
  have stop : rules.continuesWord '(' = false := rules.continuesWord_endings _ (by decide)
  have taken {chars : List Char} (all : chars.all rules.continuesWord = true) :
      (chars ++ '(' :: rest).takeWhile rules.continuesWord = chars ∧
        (chars ++ '(' :: rest).dropWhile rules.continuesWord = '(' :: rest := by
    have stops : ∀ c ∈ ('(' :: rest).head?, rules.continuesWord c = false := by
      rintro c ⟨⟩
      exact stop
    exact ⟨Text.takeWhile_of_stops (List.all_eq_true.1 all) stops,
      Text.dropWhile_of_stops (List.all_eq_true.1 all) stops⟩
  rw [isCallable] at callable
  split_ifs at callable with digits sign
  · have whole := numberText_join (c :: more)
    rw [first?_digits digits, ← List.cons_append]
    simp only [isNumbered, Bool.and_eq_true, bne_iff_ne, ne_eq, Bool.not_eq_true',
      List.isEmpty_iff, List.isEmpty_eq_false_iff] at callable
    obtain ⟨⟨⟨⟨⟨starts, noPoint⟩, noHex⟩, noExponent⟩, some⟩, all⟩ := callable
    obtain ⟨front, behind⟩ := taken all
    have hex : (c :: more ++ '(' :: rest).take 2 ≠ ['0', 'x'] := fun same =>
      noHex ((take_two_paren c more rest).1 same)
    rw [noExponent, List.nil_append] at whole
    refine congrArg Option.some (ofDigits_word_iff.2 ⟨_, _, numberText_paren _ _ |>.trans
      (by rw [noExponent]), starts, noPoint, hex, by rwa [front], ?_, behind.symm⟩)
    rw [front, whole]
  · simp only [Bool.and_eq_true] at callable
    obtain ⟨⟨starts, usual⟩, all⟩ := callable
    cases more with
    | nil => simp at usual
    | cons d others =>
        rw [List.cons_append, first?_atSign sign, if_pos ⟨starts, by simpa using usual⟩]
        obtain ⟨front, behind⟩ := taken all
        rw [List.tail_cons] at front behind
        simp [ofWord, front, behind]
  · simp only [Bool.and_eq_true, Bool.not_eq_true'] at callable
    obtain ⟨⟨starts, -⟩, all⟩ := callable
    have unlike (d : Char) (mark : rules.startsWord d = false) : c ≠ d := by
      rintro rfl
      simp [mark] at starts
    have punctuation := rules.startsWord_punctuation
    have noIdentifier : rules.identifierEnd? c = none :=
      rules.identifierEnd?_of_ne (unlike _ (punctuation _ (by simp)))
        (unlike _ (punctuation _ (by simp))) (unlike _ (punctuation _ (by simp)))
    have plain : ∀ d ∈ (more ++ '(' :: rest).head?, d ≠ '\'' ∧ d ≠ '"' ∧ d ≠ '&' := by
      intro d found
      have continues (mark : Char) (marked : mark ∈ ['\'', '"', '&']) : d ≠ mark := by
        rintro rfl
        cases more with
        | nil =>
            obtain rfl : '(' = d := by simpa using found
            simp at marked
        | cons e others =>
            obtain rfl : e = d := by simpa using found
            simp [rules.continuesWord_punctuation e marked] at all
      exact ⟨continues _ (by simp), continues _ (by simp), continues _ (by simp)⟩
    obtain ⟨front, behind⟩ := taken all
    rw [first?_eq plain (unlike _ (punctuation _ (by simp))) noIdentifier
      (unlike _ (punctuation _ (by simp))), if_neg digits, if_neg sign,
      if_neg fun question => unlike '?' (punctuation _ (by simp)) question.1, if_pos starts]
    simp [ofWord, front, behind]

/-- A first lexeme in front of a parenthesis is a callable text. -/
theorem isCallable_of_first? {more : List Char} (noBlank : Text.isBlank c = false)
    (found : first? rules c (more ++ '(' :: rest) =
      some (.word (Word.plain (String.ofList (c :: more))), '(' :: rest)) :
    isCallable rules (c :: more) = true := by
  have stop : rules.continuesWord '(' = false := rules.continuesWord_endings _ (by decide)
  have all {chars : List Char}
      (dropped : '(' :: rest = (chars ++ '(' :: rest).dropWhile rules.continuesWord) :
      chars.all rules.continuesWord = true := by
    have none : chars.dropWhile rules.continuesWord = [] := by
      simpa [dropWhile_paren stop] using dropped
    exact List.all_eq_true.mpr (List.dropWhile_eq_nil_iff.mp none)
  rcases first?_word_cases found with ⟨closing, value, -, bad⟩ | ⟨digits, number⟩ |
    ⟨sign, d, others, whole, starts, usual, same⟩ | ⟨noDigits, noSign, starts, same⟩
  · simp [Word.plain, Word.quoted] at bad
  · rw [← List.cons_append] at number
    obtain ⟨front, behind, parts, starts, noPoint, noHex, some, -, dropped⟩ :=
      ofDigits_word_iff.1 number
    rw [numberText_paren] at parts
    obtain ⟨rfl, noExponent, rfl⟩ : (numberText (c :: more)).1 = front ∧
        (numberText (c :: more)).2.1 = [] ∧
          (numberText (c :: more)).2.2 ++ '(' :: rest = behind := by
      simpa using parts
    rw [takeWhile_paren stop] at some
    have tail : (numberText (c :: more)).2.2 ≠ [] := by
      intro none
      simp [none] at some
    have hex : (c :: more).take 2 ≠ ['0', 'x'] := fun same =>
      noHex ((take_two_paren c more rest).2 same)
    rw [isCallable, if_pos digits, isNumbered, starts, noExponent, all dropped,
      bne_iff_ne.mpr noPoint, bne_iff_ne.mpr hex, List.isEmpty_eq_false_iff.mpr tail]
    rfl
  · obtain ⟨value, dropped⟩ := Prod.mk.inj same
    cases more with
    | nil =>
        obtain ⟨rfl, rfl⟩ : '(' = d ∧ rest = others := by simpa using whole
        simp [Word.plain] at value
    | cons e es =>
        obtain ⟨rfl, rfl⟩ : e = d ∧ es ++ '(' :: rest = others := by simpa using whole
        rw [isCallable, if_neg (by rcases sign with rfl | rfl <;> decide), if_pos sign]
        simp only [starts, List.head?_cons, Option.any_some, List.tail_cons, all dropped.symm,
          Bool.not_eq_true _ ▸ usual]
        rfl
  · rw [isCallable, if_neg noDigits, if_neg noSign]
    simp [starts, noBlank, all (Prod.mk.inj same).2.symm]

/-- An identifier of ASCII is callable in every grammar. -/
theorem isCallable_of_isBareIdentifier (bare : Sql.isBareIdentifier chars = true) :
    isCallable rules chars = true := by
  cases chars with
  | nil => simp [Sql.isBareIdentifier] at bare
  | cons c more =>
      simp only [Sql.isBareIdentifier, Bool.and_eq_true, Bool.or_eq_true, beq_iff_eq,
        List.all_eq_true] at bare
      obtain ⟨letter, all⟩ := bare
      obtain ⟨noDigit, noBlank, unlike⟩ := identifierStarts_facts (.inl letter)
      simp only [List.mem_cons, List.not_mem_nil, or_false, not_or] at unlike
      rw [isCallable, if_neg (by simp [noDigit, unlike]), if_neg (by simp [unlike])]
      simp only [Bool.and_eq_true, List.all_eq_true, noBlank, Bool.not_false, and_true]
      exact ⟨rules.startsWord_of_ascii letter, fun e found => rules.continuesWord_of_ascii
        (all e found)⟩

/-- A callable text is cut off in front of a parenthesis. -/
theorem Cuts.callable (cuts : Cuts rules rest lexemes)
    (callable : isCallable rules chars = true) :
    Cuts rules (chars ++ '(' :: rest)
      (.word (Word.plain (String.ofList chars)) :: .mark "(" :: lexemes) := by
  have paren : Cuts rules ('(' :: rest) (.mark "(" :: lexemes) :=
    cuts.punctuation (by decide)
  cases chars with
  | nil => simp [isCallable] at callable
  | cons c more =>
      obtain ⟨noBlank, noLine, noSlash⟩ := isCallable_facts callable (more ++ '(' :: rest)
      exact paren.lexeme (first?_of_isCallable callable rest) (by simp) noBlank noLine
        fun slash => absurd slash noSlash

theorem afterLine_suffix (chars : List Char) : afterLine chars <:+ chars := by
  fun_induction afterLine chars with
  | case1 => exact List.suffix_rfl
  | case2 rest => exact List.suffix_cons _ _
  | case3 c rest _ ih => exact ih.trans (List.suffix_cons _ _)

theorem afterComment?_suffix {nests : Bool} {depth : Nat}
    (found : afterComment? nests depth chars = some after) : after <:+ chars := by
  fun_induction afterComment? nests depth chars with
  | case1 => cases found
  | case2 rest =>
      obtain rfl := Option.some.inj found
      exact (List.suffix_cons _ _).trans (List.suffix_cons _ _)
  | case3 depth rest _ ih =>
      exact (ih found).trans ((List.suffix_cons _ _).trans (List.suffix_cons _ _))
  | case4 depth rest _ ih =>
      exact (ih found).trans ((List.suffix_cons _ _).trans (List.suffix_cons _ _))
  | case5 depth rest _ ih => exact (ih found).trans (List.suffix_cons _ _)
  | case6 depth c rest _ _ ih => exact (ih found).trans (List.suffix_cons _ _)

/-- The first word of a text stands in it, in front of the other lexemes. -/
theorem first?_of_cut? (found : cut? rules fuel chars = some (.word word :: lexemes)) :
    ∃ c rest after, c :: rest <:+ chars ∧ Text.isBlank c = false ∧
      first? rules c rest = some (.word word, after) ∧
      ∃ less, cut? rules less after = some lexemes := by
  induction fuel generalizing chars with
  | zero => cases chars <;> simp [cut?] at found
  | succ fuel ih =>
      have inner {shorter : List Char} (suffix : shorter <:+ chars)
          (found : cut? rules fuel shorter = some (.word word :: lexemes)) :
          ∃ c rest after, c :: rest <:+ chars ∧ Text.isBlank c = false ∧
            first? rules c rest = some (.word word, after) ∧
            ∃ less, cut? rules less after = some lexemes := by
        obtain ⟨c, rest, after, within, facts⟩ := ih found
        exact ⟨c, rest, after, within.trans suffix, facts⟩
      cases chars with
      | nil => simp [cut?] at found
      | cons c rest =>
          unfold cut? at found
          dsimp only at found
          split at found
          next => exact inner ((afterLine_suffix _).trans (List.suffix_cons _ _)) found
          next =>
            split at found
            next body _ =>
              obtain ⟨after, behind, found⟩ := Option.bind_eq_some_iff.1 found
              exact inner ((afterComment?_suffix behind).trans
                ((List.suffix_cons _ _).trans (List.suffix_cons _ _))) found
            next =>
              split at found
              next => exact inner (List.suffix_cons _ _) found
              next noBlank =>
                obtain ⟨⟨lexeme, after⟩, first, found⟩ := Option.bind_eq_some_iff.1 found
                obtain ⟨others, cut, same⟩ := Option.map_eq_some_iff.1 found
                obtain ⟨rfl, rfl⟩ := List.cons.inj same
                exact ⟨c, rest, after, List.suffix_rfl, by simpa using noBlank, first, fuel, cut⟩

/-- The first word of a text is made of its characters. -/
theorem mem_of_cut? (found : cut? rules fuel chars = some (.word word :: lexemes)) :
    ∀ x ∈ word.value.toList, x ∈ chars := by
  obtain ⟨c, rest, after, within, -, first, -⟩ := first?_of_cut? found
  intro x inside
  refine within.subset ?_
  rcases first?_word first with ⟨front, whole, rfl⟩ | ⟨-, among⟩
  · rw [whole]
    exact List.mem_append_left _ (by simpa [Word.plain] using inside)
  · exact List.mem_cons_of_mem _ (among x inside)

/-- A word as long as a text in front of a parenthesis that is not the last lexeme is that text. -/
theorem isCallable_of_cut? {next : Lexeme}
    (found : cut? rules fuel (chars ++ ['(']) = some (.word word :: next :: lexemes))
    (long : chars.length ≤ word.value.toList.length) :
    isCallable rules chars = true ∧ word = Word.plain (String.ofList chars) := by
  obtain ⟨c, rest, after, within, noBlank, first, less, behind⟩ := first?_of_cut? found
  have bound := within.length_le
  rw [List.length_append, List.length_cons, List.length_singleton] at bound
  have later : after ≠ [] := by
    rintro rfl
    cases less <;> simp [cut?] at behind
  have positive := List.length_pos_iff.mpr later
  rcases first?_word first with ⟨front, whole, rfl⟩ | ⟨short, -⟩
  · have lengths := congrArg List.length whole
    rw [List.length_cons, List.length_append] at lengths
    simp only [Word.plain, String.toList_ofList] at long
    have same : c :: rest = chars ++ ['('] := within.eq_of_length (by simp; omega)
    obtain ⟨rfl, rfl⟩ : chars = front ∧ ['('] = after :=
      List.append_inj (same.symm.trans whole) (by omega)
    cases chars with
    | nil =>
        obtain ⟨rfl, rfl⟩ := List.cons.inj same
        rw [first?_punctuation (by decide)] at first
        simp at first
    | cons d more =>
        obtain ⟨rfl, rfl⟩ := List.cons.inj same
        exact ⟨isCallable_of_first? noBlank first, rfl⟩
  · omega

end Lexeme

end Grammar

namespace Sql

open Grammar.Lexeme

variable {d : Dialect} {name : Name} {path : Option Path} {args : List Expr} {distinct : Bool}

/-! ## Calls -/

/-- The tokens of a call up to its opening parenthesis. -/
def callHead (name : Name) (path : Option Path) : Tokens :=
  (path.getD []).tokens ++ [.function name.value, .symbol .leftParen]

/-- The name that a call is to have in a dialect: the dialect's own for a bare name that no path
stands in front of, and the name itself for every other. -/
def calledAs (d : Dialect) (name : Name) (path : Option Path) : String :=
  if name.quote.isSome = true ∨ path.getD [] ≠ [] then name.value
  else (d.functionSpelling? name.value).getD name.value

/-- Whether the calls of a function are read, in front of any text, as the names of the path with a
dot behind each, one word that names the function in whatever case, and the parenthesis. -/
def ReadsAsCall (d : Dialect) (name : Name) (path : Option Path) : Prop :=
  ∃ word : Word, Text.upper word.value = Text.upper (calledAs d name path) ∧
    ∀ rest lexemes, Cuts (Rules.ofDialect? (some d)) rest lexemes →
      Cuts (Rules.ofDialect? (some d)) ((Tokens.text d (callHead name path)).toList ++ rest)
        (Path.lexemesIn d (path.getD []) ++ .word word :: .mark "(" :: lexemes)

/-- A call starts with its head. -/
theorem Expr.callHead_prefix :
    callHead name path <+: (Expr.call name path args distinct).tokens d := by
  rw [Expr.tokens, callHead, parenthesized]
  simp [List.prefix_append_right_inj]

theorem toList_text_callHead (d : Dialect) (name : Name) (path : Option Path) :
    (Tokens.text d (callHead name path)).toList =
      (Tokens.text d (path.getD []).tokens).toList ++
        ((d.functionText name.value).toList ++ ['(']) := by
  simp [callHead, Tokens.text, String.join_append, String.join_cons, Token.text, Symbol.text]

/-- A path has at least two characters for each name. -/
theorem Path.length_le (d : Dialect) (path : Path) :
    2 * path.length ≤ (Tokens.text d path.tokens).toList.length := by
  induction path with
  | nil => simp
  | cons name path ih =>
      obtain ⟨c, more, text, -, -⟩ := Name.first?_text d name
      simp only [Path.toList_text_cons, text, List.length_append, List.length_cons]
      omega

/-- The spellings of a dialect are words of ASCII, and no such spelling is spelled otherwise. -/
theorem functionSpellings_facts (d : Dialect) :
    ∀ entry ∈ d.functionSpellings, isBareIdentifier (Text.upper entry.2).toList = true ∧
      Text.upper entry.2 ∉ entry.1 := by
  cases d <;> decide

/-- A spelling that takes the place of a name is a word of ASCII, and it is another name. -/
theorem functionSpelling?_facts {spelling : String}
    (spelled : d.functionSpelling? name.value = some spelling) :
    isBareIdentifier (Text.upper spelling).toList = true ∧
      Text.upper spelling ≠ Text.upper name.value := by
  obtain ⟨entry, search, rfl⟩ := Option.map_eq_some_iff.1 spelled
  obtain ⟨bare, other⟩ := functionSpellings_facts d entry (List.mem_of_find?_eq_some search)
  have member := List.find?_some search
  refine ⟨bare, fun same => other ?_⟩
  rw [same]
  simpa using member

/-- A written name is in upper case. -/
theorem upper_functionText (d : Dialect) (called : String) :
    Text.upper (d.functionText called) = d.functionText called :=
  Text.upper_upper _

/-- A call has the written name unless another spelling takes the place of a name in quotation marks
or behind a path. -/
theorem upper_calledAs
    (kept : name.quote.isSome = true ∨ path.getD [] ≠ [] →
      d.functionSpelling? name.value = none) :
    Text.upper (calledAs d name path) = d.functionText name.value := by
  rw [calledAs, Dialect.functionText]
  split
  next other => rw [kept other, Option.getD_none]
  next => rfl

/-- What a call is read as behind its path: its path ends where its written name starts. -/
theorem cut?_of_reads {lexemes : List Lexeme}
    (cuts : Cuts (Rules.ofDialect? (some d)) (Tokens.text d (callHead name path)).toList
      (Path.lexemesIn d (path.getD []) ++ lexemes)) :
    (path.getD [] ≠ [] →
        ∀ c ∈ (d.functionText name.value).toList.head?, c.isDigit = false) ∧
      ∃ fuel, ((d.functionText name.value).toList ++ ['(']).length ≤ fuel ∧
        cut? (Rules.ofDialect? (some d)) fuel
          ((d.functionText name.value).toList ++ ['(']) = some lexemes := by
  rw [toList_text_callHead] at cuts
  generalize path.getD [] = names at cuts ⊢
  generalize (d.functionText name.value).toList = written at cuts ⊢
  have whole := cuts (((Tokens.text d names.tokens).toList ++ (written ++ ['('])).length +
    2 * names.length) (Nat.le_add_right _ _)
  have noDigit : names ≠ [] → ∀ c ∈ written.head?, c.isDigit = false := by
    intro some c found
    cases written with
    | nil => cases found
    | cons e more =>
        obtain rfl : e = c := by simpa using found
        by_contra digit
        exact Path.cut?_text_ne d some (Bool.not_eq_false _ ▸ digit) _ _ _ whole
  have behind : names ≠ [] → ∀ c ∈ (written ++ ['(']).head?, c.isDigit = false := by
    intro some c found
    cases written with
    | nil => exact Option.some.inj found ▸ rfl
    | cons e more => exact noDigit some c found
  rw [Path.cut?_text d names behind] at whole
  obtain ⟨others, read, same⟩ := Option.map_eq_some_iff.1 whole
  refine ⟨noDigit, ((Tokens.text d names.tokens).toList ++ (written ++ ['('])).length, ?_, ?_⟩
  · simp only [List.length_append]
    omega
  · rw [read, List.append_cancel_left same]

/-- A callable written name is read behind its path, in front of any text. -/
theorem readsAsCall_of_isCallable
    (callable : isCallable (Rules.ofDialect? (some d)) (d.functionText name.value).toList = true)
    (noDigit : path.getD [] ≠ [] →
      ∀ c ∈ (d.functionText name.value).toList.head?, c.isDigit = false)
    (kept : name.quote.isSome = true ∨ path.getD [] ≠ [] →
      d.functionSpelling? name.value = none) :
    ReadsAsCall d name path := by
  refine ⟨Word.plain (d.functionText name.value), ?_, fun rest lexemes cuts fuel enough => ?_⟩
  · rw [upper_calledAs kept]
    exact upper_functionText d name.value
  · have digit : path.getD [] ≠ [] →
        ∀ c ∈ ((d.functionText name.value).toList ++ '(' :: rest).head?, c.isDigit = false := by
      intro some c found
      cases text : (d.functionText name.value).toList with
      | nil => simp [text, isCallable] at callable
      | cons e more => exact noDigit some c (by rw [text] at found ⊢; exact found)
    have short := Path.length_le d (path.getD [])
    rw [toList_text_callHead, List.append_assoc, List.append_assoc, List.singleton_append] at *
    rw [List.length_append] at enough
    obtain ⟨less, rfl⟩ : ∃ less, fuel = less + 2 * (path.getD []).length :=
      ⟨fuel - 2 * (path.getD []).length, by omega⟩
    rw [Path.cut?_text d _ digit, cuts.callable callable less (by omega), String.ofList_toList]
    rfl

/-- A call is read as a call of its function in a dialect, in front of any text, just where its
written name is one word in front of a parenthesis, does not start with a digit behind a path, and
has not been taken by another spelling although it is quoted or stands behind a path. -/
theorem calls_are_read_by_their_names (d : Dialect) (name : Name) (path : Option Path) :
    (∀ args distinct, callHead name path <+: (Expr.call name path args distinct).tokens d) ∧
      (ReadsAsCall d name path ↔
        isCallable (Rules.ofDialect? (some d)) (d.functionText name.value).toList = true ∧
        (path.getD [] ≠ [] →
          ∀ c ∈ (d.functionText name.value).toList.head?, c.isDigit = false) ∧
        (name.quote.isSome = true ∨ path.getD [] ≠ [] →
          d.functionSpelling? name.value = none)) := by
  refine ⟨fun _ _ => Expr.callHead_prefix, ?_, ?_⟩
  · rintro ⟨word, named, reads⟩
    have cuts := reads [] [] (Cuts.nil _)
    rw [List.append_nil] at cuts
    obtain ⟨noDigit, fuel, enough, cut⟩ := cut?_of_reads cuts
    have upper : Text.upper word.value = word.value := by
      refine Text.upper_of_mem fun x found => ?_
      rcases List.mem_append.mp (mem_of_cut? cut x found) with inside | last
      · obtain ⟨c, -, written⟩ :=
          List.mem_flatMap.mp (by simpa [Dialect.functionText, Text.upper] using inside)
        exact ⟨c, written⟩
      · obtain rfl : x = '(' := by simpa using last
        exact ⟨'(', List.mem_singleton_self _⟩
    rw [upper] at named
    by_cases kept : name.quote.isSome = true ∨ path.getD [] ≠ [] →
        d.functionSpelling? name.value = none
    · rw [upper_calledAs kept] at named
      exact ⟨(isCallable_of_cut? cut (by rw [named])).1, noDigit, kept⟩
    · obtain ⟨other, spelled⟩ := Classical.not_imp.mp kept
      obtain ⟨spelling, spelled⟩ := Option.ne_none_iff_exists'.mp spelled
      obtain ⟨bare, differs⟩ := functionSpelling?_facts spelled
      have written : d.functionText name.value = Text.upper spelling := by
        rw [Dialect.functionText, spelled, Option.getD_some]
      have bareCut := (Cuts.nil (Rules.ofDialect? (some d))).callable
        (isCallable_of_isBareIdentifier bare) fuel (by rwa [← written])
      rw [← written, cut] at bareCut
      obtain rfl : word = Word.plain (d.functionText name.value) := by simpa using bareCut
      rw [calledAs, if_pos other] at named
      exact absurd (written.symm.trans named) differs
  · rintro ⟨callable, noDigit, kept⟩
    exact readsAsCall_of_isCallable callable noDigit kept

/-- A quoted name with a blank in it is written as two words. -/
example :
    Lexeme.ofText? (Rules.ofDialect? (some .duckDb))
        (Tokens.text .duckDb (callHead { value := "my func", quote := some '"' } none)) =
      some [.word (Word.plain "MY"), .word (Word.plain "FUNC"), .mark "("] := by
  decide +kernel

end Sql
end SemanticLayer
