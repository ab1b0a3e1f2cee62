import SemanticLayer.Proofs.Lexing
import SemanticLayer.Proofs.Numerals

/-!
# The lexemes of written tokens

What each token is read back as by the generic grammar, in the dialects that write names and
literals the way that grammar reads them. A text of tokens is cut into the lexemes of its tokens.
-/

namespace SemanticLayer

open Grammar (Word Lexeme Rules)
open Grammar.Lexeme (Cuts Ends Parts IsFraction IsExponent isWord endings)

/-- A dialect that writes names, literals and operators as the generic grammar reads them. -/
structure Dialect.IsGeneric (d : Dialect) : Prop where
  concat : d.concatOperator = "||"
  hasConcat : d.hasConcatOperator = true
  quotes : d.identifierQuotes = ('"', '"')
  strings : ∀ text, d.quoteString text = Dialect.enclose '\'' '\'' text
  booleans : ∀ value, d.booleanText value = if value then "true" else "false"
  ordersNulls : d.ordersNulls = true
  counts : d.paginatesByFetch = false

theorem Dialect.duckDb_isGeneric : duckDb.IsGeneric where
  concat := rfl
  hasConcat := rfl
  quotes := rfl
  strings _ := by simp [quoteString]
  booleans _ := rfl
  ordersNulls := rfl
  counts := rfl

namespace Sql

/-! ## Lexemes -/

/-- The words of a keyword. -/
def Keyword.words : Keyword → List String
  | groupBy => ["GROUP", "BY"]
  | orderBy => ["ORDER", "BY"]
  | nullsFirst => ["NULLS", "FIRST"]
  | nullsLast => ["NULLS", "LAST"]
  | isNull => ["IS", "NULL"]
  | isNotNull => ["IS", "NOT", "NULL"]
  | word => [word.text]

/-- Words with a blank between them. -/
def spelled : List String → List Char
  | [] => []
  | [word] => word.toList
  | word :: rest => word.toList ++ ' ' :: spelled rest

theorem Keyword.toList_text (word : Keyword) : word.text.toList = spelled word.words := by
  cases word <;> rfl

theorem Keyword.isWord_of_mem_words (word : Keyword) :
    ∀ part ∈ word.words, isWord part.toList = true := by
  cases word <;> decide

/-- The word that an identifier is written as. -/
def writtenName (value : String) (quoted : Bool) : Word :=
  if quoted || needsQuoting value then Word.quoted value '"' else Word.plain value

/-- The lexemes that a token is read back as. -/
def Token.lexemes (d : Dialect) : Token → List Lexeme
  | .keyword word => word.words.map fun part => .word (Word.plain part)
  | .symbol .space | .symbol .newline | .indent _ => []
  | .symbol mark => [.mark mark.text]
  | .concat => [.mark "||"]
  | .name value quoted => [.word (writtenName value quoted)]
  | .int value => [.number (Number.intText value.toInt)]
  | .float value => [.number value.text]
  | .string value => [.string value]
  | .bool value => [.word (Word.plain (if value then "true" else "false"))]
  | .null => [.word (Word.plain "NULL")]
  | .function called => [.word (Word.plain (d.functionText called))]

/-- The lexemes of tokens one after the other. -/
def Tokens.lexemes (d : Dialect) (tokens : Tokens) : List Lexeme :=
  tokens.flatMap (Token.lexemes d)

/-- A text that is read as one number. -/
def IsNumber (chars : List Char) : Prop :=
  ∃ whole fraction exponent, chars = whole ++ fraction ++ exponent ∧ whole ≠ [] ∧
    whole.all Char.isDigit = true ∧ IsFraction fraction ∧ IsExponent exponent

/-- Whether a token is written as the lexemes it is to be read back as: numbers are finite and have
no sign, and the name of a function is a word. -/
def Token.IsLegible (d : Dialect) : Token → Prop
  | .int value => 0 ≤ value.toInt
  | .float value => value.isFinite = true ∧ IsNumber value.text.toList
  | .function called => isWord (d.functionText called).toList = true
  | _ => True

/-- Tokens among which no two minus signs meet. -/
def Tokens.Unhyphenated (tokens : Tokens) : Prop :=
  tokens.IsChain fun first second => ¬(first = .symbol .minus ∧ second = .symbol .minus)

/-! ## Cutting -/

theorem Tokens.text_cons (dialect : Dialect) (token : Token) (rest : Tokens) :
    Tokens.text dialect (token :: rest) = token.text dialect ++ Tokens.text dialect rest := by
  simp [Tokens.text, String.join_cons]

theorem Tokens.toList_text_cons (dialect : Dialect) (token : Token) (rest : Tokens) :
    (Tokens.text dialect (token :: rest)).toList =
      (token.text dialect).toList ++ (Tokens.text dialect rest).toList := by
  rw [Tokens.text_cons, String.toList_append]

/-- Words with blanks between them are cut into the words. -/
theorem cuts_spelled
    {words : List String} {rest : List Char} {lexemes : List Lexeme}
    (cuts : Cuts .generic rest lexemes) (each : ∀ word ∈ words, isWord word.toList = true)
    (ends : Ends rest) :
    Cuts .generic (spelled words ++ rest)
      (words.map (fun part => .word (Word.plain part)) ++ lexemes) := by
  fun_induction spelled words with
  | case1 => exact cuts
  | case2 word => simpa using cuts.word (each word List.mem_cons_self) ends
  | case3 word more _ ih =>
      have tail := ih fun other found => each other (List.mem_cons_of_mem _ found)
      have blank : Ends (' ' :: (spelled more ++ rest)) := by simp [Ends, endings]
      simpa using (tail.blank (.inl rfl)).word (each word List.mem_cons_self) blank

/-- A letter of ASCII is alphabetic. -/
theorem isAlphabetic_of_isAlpha {c : Char} (letter : c.isAlpha = true) :
    Text.isAlphabetic c = true := by
  have ascii : c.toNat < 0x80 :=
    Nat.lt_of_le_of_lt (Text.toNat_of_isAlpha letter).2 (by decide)
  rw [Text.isAlphabetic, if_pos ascii]
  exact letter

/-- An identifier that needs no quotes is a word. -/
theorem isWord_of_isBareIdentifier {chars : List Char} (bare : isBareIdentifier chars = true) :
    isWord chars = true := by
  cases chars with
  | nil => cases bare
  | cons c more =>
      simp only [isBareIdentifier, Bool.and_eq_true, Bool.or_eq_true, beq_iff_eq] at bare
      obtain ⟨head, all⟩ := bare
      simp only [isWord, Bool.and_eq_true, Bool.or_eq_true, beq_iff_eq]
      constructor
      · rcases head with letter | underscore
        · exact .inl (.inl (isAlphabetic_of_isAlpha letter))
        · exact .inl (.inr underscore)
      · refine List.all_eq_true.mpr fun d found => ?_
        have char := List.all_eq_true.mp all d found
        simp only [Char.isAlphanum, Bool.or_eq_true, beq_iff_eq] at char
        rcases char with (letter | digit) | rfl
        · simp [Rules.continuesWord, isAlphabetic_of_isAlpha letter]
        · simp [Rules.continuesWord, digit]
        · rfl

theorem startsWord_of_isWord {c : Char} {more : List Char} (word : isWord (c :: more) = true) :
    Rules.generic.startsWord c = true := by
  simp only [isWord, Bool.and_eq_true, Bool.or_eq_true, beq_iff_eq] at word
  simp only [Rules.startsWord, Bool.or_eq_true, beq_iff_eq]
  rcases word.1 with (letter | underscore) | ⟨hash | at_, -⟩
  · exact .inl (.inl (.inl letter))
  · exact .inl (.inl (.inr underscore))
  · exact .inl (.inr hash)
  · exact .inr at_

section

variable {d : Dialect} (plain : d.IsGeneric)

include plain

/-- The text of an identifier: the identifier itself where it is a word, or else in quotes. -/
theorem toList_text_name (value : String) (quoted : Bool) :
    (needsQuoting value = false ∧ quoted = false ∧ isWord value.toList = true ∧
        (Token.name value quoted).text d = value) ∨
      ((quoted || needsQuoting value) = true ∧
        (Token.name value quoted).text d = Dialect.enclose '"' '"' value) := by
  cases written : quoted || needsQuoting value with
  | true => exact .inr ⟨rfl, by simp [Token.text, written, Dialect.quoteIdentifier, plain.quotes]⟩
  | false =>
      obtain ⟨unquoted, bare⟩ := Bool.or_eq_false_iff.mp written
      refine .inl ⟨bare, unquoted, isWord_of_isBareIdentifier ?_, by simp [Token.text, written]⟩
      simp only [needsQuoting, Bool.or_eq_false_iff, Bool.not_eq_false'] at bare
      exact bare.1

/-- What a legible token starts with: a hyphen only if it is a minus sign, a greater sign only if it
may make an arrow, and a digit only if it may not stand behind a dot. -/
theorem head?_text
    {token : Token} (legible : token.IsLegible d)
    (solid : token.makesArrow = false ∨ token.isNamed = true) (rest : List Char) :
    ∀ c ∈ ((token.text d).toList ++ rest).head?,
      (c = '-' → token = .symbol .minus) ∧ (c = '>' → token.makesArrow = true) ∧
        (c.isDigit = true → token.isNamed = false) := by
  have word {chars : List Char} (starts : ∀ c ∈ chars.head?, Rules.generic.startsWord c = true)
      (some : chars ≠ []) :
      ∀ c ∈ (chars ++ rest).head?, c ≠ '-' ∧ c ≠ '>' ∧ c.isDigit = false := by
    cases chars with
    | nil => exact absurd rfl some
    | cons c more =>
        rintro d ⟨⟩
        have starts := starts c rfl
        refine ⟨?_, ?_, (Grammar.Lexeme.startsWord_facts starts).2.1⟩
        · rintro rfl
          exact absurd starts (by decide)
        · rintro rfl
          exact absurd starts (by decide)
  have digits {chars : List Char} (some : chars ≠ []) (all : chars.all Char.isDigit = true)
      (more : List Char) : ∀ c ∈ (chars ++ more).head?, c ≠ '-' ∧ c ≠ '>' := by
    cases chars with
    | nil => exact absurd rfl some
    | cons c others =>
        rintro d ⟨⟩
        simp only [List.all_cons, Bool.and_eq_true] at all
        exact ⟨Grammar.Lexeme.ne_of_isDigit all.1 rfl, Grammar.Lexeme.ne_of_isDigit all.1 rfl⟩
  have isWord {chars : List Char} (isWord : isWord chars = true) :
      ∀ c ∈ (chars ++ rest).head?, c ≠ '-' ∧ c ≠ '>' ∧ c.isDigit = false := by
    cases chars with
    | nil => cases isWord
    | cons c more => exact word (by rintro d ⟨⟩; exact startsWord_of_isWord isWord) (by simp)
  intro c found
  cases token with
  | keyword kw =>
      have starts : ∃ x more, kw.text.toList = x :: more ∧ Rules.generic.startsWord x = true := by
        cases kw <;> exact ⟨_, _, rfl, by decide⟩
      obtain ⟨x, more, text, starts⟩ := starts
      have first : ∀ d ∈ (x :: more ++ rest).head?, d ≠ '-' ∧ d ≠ '>' ∧ d.isDigit = false :=
        word (by rintro d ⟨⟩; exact starts) (by simp)
      obtain ⟨noMinus, noGreater, noDigit⟩ := first c (text ▸ found)
      simp [noMinus, noGreater, noDigit]
  | symbol mark =>
      have text : ∃ x more, mark.text.toList = x :: more ∧ (x = '-' → mark = .minus) ∧
          (x = '>' → mark = .gt ∨ mark = .gte) ∧ x.isDigit = false := by
        cases mark <;> exact ⟨_, _, rfl, by decide, by decide, by decide⟩
      obtain ⟨x, more, text, minus, greater, noDigit⟩ := text
      obtain rfl : x = c := by simpa [Token.text, text] using found
      refine ⟨fun same => by rw [minus same], fun same => ?_, by simp [noDigit]⟩
      rcases greater same with rfl | rfl <;> rfl
  | concat =>
      rw [Token.text, plain.concat] at found
      obtain rfl : '|' = c := by simpa using found
      decide
  | indent depth => simp [Token.makesArrow, Token.isNamed] at solid
  | name value quoted =>
      rcases toList_text_name plain value quoted with ⟨-, -, bare, text⟩ | ⟨-, text⟩
      · rw [text] at found
        obtain ⟨noMinus, noGreater, noDigit⟩ := isWord bare c found
        simp [noMinus, noGreater, noDigit]
      · rw [text] at found
        obtain rfl : '"' = c := by simpa [Dialect.enclose] using found
        exact ⟨fun same => absurd same (by decide), fun same => absurd same (by decide),
          fun digit => absurd digit (by decide)⟩
  | int value =>
      obtain ⟨n, same⟩ := Int.eq_ofNat_of_zero_le legible
      rw [Token.text, same] at found
      obtain ⟨noMinus, noGreater⟩ := digits (Number.natText_ne_nil n)
        (Number.all_isDigit_natText n) rest c (by simpa [Number.intText] using found)
      simp [noMinus, noGreater, Token.isNamed]
  | float value =>
      obtain ⟨finite, whole, fraction, exponent, same, some, all, -⟩ := legible
      rw [Token.text, if_pos finite, same, List.append_assoc, List.append_assoc] at found
      obtain ⟨noMinus, noGreater⟩ := digits some all _ c found
      simp [noMinus, noGreater, Token.isNamed]
  | string value =>
      rw [Token.text, plain.strings] at found
      obtain rfl : '\'' = c := by simpa [Dialect.enclose] using found
      exact ⟨fun same => absurd same (by decide), fun same => absurd same (by decide),
        fun digit => absurd digit (by decide)⟩
  | bool value =>
      rw [Token.text, plain.booleans] at found
      cases value
      · obtain rfl : 'f' = c := by simpa using found
        decide
      · obtain rfl : 't' = c := by simpa using found
        decide
  | null =>
      obtain rfl : 'N' = c := by simpa [Token.text, Dialect.nullText] using found
      decide
  | function called =>
      obtain ⟨noMinus, noGreater, noDigit⟩ := isWord legible c found
      simp [noMinus, noGreater, noDigit]

omit plain in
/-- Tokens that start with one that parts are a text that parts. -/
theorem parts_text {rest : Tokens} (parted : ∀ next ∈ rest.head?, next.parts = true) :
    Parts (Tokens.text d rest).toList := by
  cases rest with
  | nil => simp [Parts, Tokens.text]
  | cons next more =>
      have first := parted next rfl
      cases next with
      | symbol mark =>
          cases mark <;>
            simp_all [Parts, Tokens.toList_text_cons, Token.text, Symbol.text, Token.parts,
              Symbol.parts]
      | _ => cases first

omit plain in
theorem ends_of_parts {chars : List Char} (parts : Parts chars) : Ends chars := by
  intro c found
  have blank := parts c found
  simp only [List.mem_cons, List.not_mem_nil, or_false] at blank
  simp only [endings, List.mem_cons, List.not_mem_nil, or_false]
  tauto

/-- A symbol in front of tokens that are cut into their lexemes is cut off as its own. -/
theorem Symbol.cuts
    {mark : Symbol} {rest : Tokens} {lexemes : List Lexeme}
    (cuts : Cuts .generic (Tokens.text d rest).toList lexemes)
    (others : ∀ next ∈ rest.head?, next.IsLegible d)
    (beside : ∀ next ∈ rest.head?, (Token.symbol mark).Beside next)
    (unhyphenated : mark = .minus → rest.head? ≠ some (.symbol .minus)) :
    Cuts .generic (mark.text.toList ++ (Tokens.text d rest).toList)
      ((Token.symbol mark).lexemes d ++ lexemes) := by
  have parted (notFree : mark.isFree = false) (usual : mark ≠ .dot ∧ mark ≠ .minus) :
      Parts (Tokens.text d rest).toList := by
    refine parts_text fun next found => ?_
    have beside := beside next found
    cases mark <;> simp_all [Token.Beside, Symbol.isFree]
  have free (c : Char) (chars : List Char) (start : c ∈ Grammar.Lexeme.markStarts)
      (found : Grammar.Lexeme.markText .generic c (chars ++ (Tokens.text d rest).toList) =
        (String.ofList (c :: chars), (Tokens.text d rest).toList))
      (noComment : c ≠ '-' ∧ c ≠ '/') :
      Cuts .generic (c :: (chars ++ (Tokens.text d rest).toList))
        (.mark (String.ofList (c :: chars)) :: lexemes) :=
    cuts.mark start found (by simp) (fun same => absurd same noComment.1)
      fun same => absurd same noComment.2
  cases mark with
  | space => exact cuts.blank (.inl rfl)
  | newline => exact cuts.blank (.inr rfl)
  | comma => exact free ',' [] (by decide) rfl (by decide)
  | leftParen => exact free '(' [] (by decide) rfl (by decide)
  | rightParen => exact free ')' [] (by decide) rfl (by decide)
  | star | times => exact free '*' [] (by decide) rfl (by decide)
  | plus => exact free '+' [] (by decide) rfl (by decide)
  | modulo => exact free '%' [] (by decide) (Grammar.Lexeme.markText_generic _ _) (by decide)
  | ne => exact free '<' ['>'] (by decide) (Grammar.Lexeme.markText_generic _ _) (by decide)
  | gte => exact free '>' ['='] (by decide) (Grammar.Lexeme.markText_generic _ _) (by decide)
  | eq =>
      have parts := parted rfl (by simp)
      exact free '=' [] (by decide) (Grammar.Lexeme.markText_of_parts parts (by simp)) (by decide)
  | lt =>
      have parts := parted rfl (by simp)
      exact free '<' [] (by decide) (Grammar.Lexeme.markText_of_parts parts (by simp)) (by decide)
  | gt =>
      have parts := parted rfl (by simp)
      exact free '>' [] (by decide) (Grammar.Lexeme.markText_of_parts parts (by simp)) (by decide)
  | lte =>
      have parts := parted rfl (by simp)
      exact free '<' ['='] (by decide) (Grammar.Lexeme.markText_of_parts parts (by simp)) (by decide)
  | divide =>
      have parts := parted rfl (by simp)
      have slash : (('/', []) : Char × List Char) ∈
          [('=', []), ('<', []), ('>', []), ('<', ['=']), ('/', []), ('|', ['|'])] := by decide
      exact cuts.mark (c := '/') (by decide) (Grammar.Lexeme.markText_of_parts parts slash)
        (Nat.le_refl _) (fun same => absurd same (by decide))
        fun _ => (ends_of_parts parts).head?_ne (by decide)
  | dot =>
      have noDigit : ∀ c ∈ (Tokens.text d rest).toList.head?, c.isDigit = false := by
        cases rest with
        | nil => simp [Tokens.text]
        | cons next more =>
            intro c found
            rw [Tokens.toList_text_cons] at found
            have named : next.isNamed = true := beside next rfl
            have start := head?_text plain (others next rfl) (.inr named) _ c found
            by_contra digit
            simp [start.2.2 (by simpa using digit)] at named
      exact cuts.lexeme (Grammar.Lexeme.first?_point noDigit) (Nat.le_refl _) (by decide) rfl
        fun same => absurd same (by decide)
  | minus =>
      have start : ∀ c ∈ (Tokens.text d rest).toList.head?, c ≠ '>' ∧ c ≠ '-' := by
        cases rest with
        | nil => simp [Tokens.text]
        | cons next more =>
            intro c found
            rw [Tokens.toList_text_cons] at found
            have noArrow : next.makesArrow = false := beside next rfl
            have start := head?_text plain (others next rfl) (.inl noArrow) _ c found
            constructor
            · rintro rfl
              simp [start.2.1 rfl] at noArrow
            · rintro rfl
              exact unhyphenated rfl (by simp [start.1 rfl])
      have arrow : (Tokens.text d rest).toList.head? ≠ some '>' := fun found =>
        (start '>' found).1 rfl
      have hyphen : (Tokens.text d rest).toList.head? ≠ some '-' := fun found =>
        (start '-' found).2 rfl
      exact cuts.mark (by decide) (Grammar.Lexeme.markText_minus arrow) (Nat.le_refl _)
        (fun _ => hyphen) fun same => absurd same (by decide)

omit plain in
/-- Tokens behind a word are a text that ends it. -/
theorem ends_text
    {rest : Tokens} (parted : ∀ next ∈ rest.head?, next.parts = true ∨ next = .symbol .dot) :
    Ends (Tokens.text d rest).toList := by
  cases rest with
  | nil => simp [Ends, Tokens.text]
  | cons next more =>
      rcases parted next rfl with parts | rfl
      · refine ends_of_parts (parts_text ?_)
        rintro other ⟨⟩
        exact parts
      · simp [Ends, endings, Tokens.toList_text_cons, Token.text, Symbol.text]

/-- A token in front of tokens that are cut into their lexemes is cut off as its own. -/
theorem Token.cuts
    {token : Token} {rest : Tokens} {lexemes : List Lexeme}
    (cuts : Cuts .generic (Tokens.text d rest).toList lexemes) (legible : token.IsLegible d)
    (others : ∀ next ∈ rest.head?, next.IsLegible d)
    (beside : ∀ next ∈ rest.head?, token.Beside next)
    (unhyphenated : token = .symbol .minus → rest.head? ≠ some (.symbol .minus)) :
    Cuts .generic (Tokens.text d (token :: rest)).toList (token.lexemes d ++ lexemes) := by
  have word {text : String} (isWord : isWord text.toList = true)
      (parted : ∀ next ∈ rest.head?, next.parts = true ∨ next = .symbol .dot) :
      Cuts .generic (text.toList ++ (Tokens.text d rest).toList)
        (.word (Word.plain text) :: lexemes) := by
    simpa using cuts.word isWord (ends_text parted)
  rw [Tokens.toList_text_cons]
  cases token with
  | keyword kw =>
      rw [Token.text, Keyword.toList_text]
      exact cuts_spelled cuts kw.isWord_of_mem_words (ends_of_parts (parts_text beside))
  | symbol mark =>
      exact Symbol.cuts plain cuts others beside fun same => unhyphenated (by rw [same])
  | concat =>
      have parts := parts_text (d := d) beside
      rw [Token.text, plain.concat]
      have bars : (('|', ['|']) : Char × List Char) ∈
          [('=', []), ('<', []), ('>', []), ('<', ['=']), ('/', []), ('|', ['|'])] := by decide
      exact cuts.mark (c := '|') (by decide) (Grammar.Lexeme.markText_of_parts parts bars)
        (by simp) (fun same => absurd same (by decide)) fun same => absurd same (by decide)
  | indent depth =>
      have blanks (n : Nat) :
          Cuts .generic (List.replicate n ' ' ++ (Tokens.text d rest).toList) lexemes := by
        induction n with
        | zero => simpa using cuts
        | succ n ih =>
            rw [List.replicate_succ, List.cons_append]
            exact ih.blank (.inl rfl)
      simpa [Token.text, Token.lexemes] using blanks (2 * depth)
  | name value quoted =>
      rcases toList_text_name plain value quoted with ⟨bare, unquoted, isWord, text⟩ | ⟨written, text⟩
      · rw [text]
        simpa [Token.lexemes, writtenName, bare, unquoted] using word isWord beside
      · rw [text]
        simpa [Token.lexemes, writtenName, written] using cuts.quoted value (ends_text beside)
  | int value =>
      obtain ⟨n, same⟩ := Int.eq_ofNat_of_zero_le legible
      have number := cuts.number (Number.natText_ne_nil n) (Number.all_isDigit_natText n) (.inl rfl)
        (.inl rfl) (parts_text (d := d) beside)
      simpa [Token.text, Token.lexemes, same, Number.intText] using number
  | float value =>
      obtain ⟨finite, whole, fraction, exponent, same, some, all, isFraction, isExponent⟩ := legible
      have number := cuts.number some all isFraction isExponent (parts_text (d := d) beside)
      rw [← same, String.ofList_toList] at number
      simpa [Token.text, Token.lexemes, finite] using number
  | string value =>
      rw [Token.text, plain.strings]
      exact cuts.string value (ends_of_parts (parts_text beside))
  | bool value =>
      rw [Token.text, plain.booleans]
      cases value
      · exact word (by decide) fun next found => .inl (beside next found)
      · exact word (by decide) fun next found => .inl (beside next found)
  | null => exact word (by decide : isWord "NULL".toList = true) fun next found => .inl (beside next found)
  | function called => exact word legible fun next found => .inl (beside next found)

/-- The text of tokens that stand apart is cut into the lexemes of the tokens, if each of them is
legible and no two minus signs meet. -/
theorem Tokens.cuts
    {tokens : Tokens} (apart : tokens.Apart) (unhyphenated : tokens.Unhyphenated)
    (legible : ∀ token ∈ tokens, token.IsLegible d) :
    Cuts .generic (Tokens.text d tokens).toList (tokens.lexemes d) := by
  induction tokens with
  | nil => exact .nil .generic
  | cons token rest ih =>
      obtain ⟨beside, apartRest⟩ := List.isChain_cons.mp apart
      obtain ⟨hyphens, unhyphenatedRest⟩ := List.isChain_cons.mp unhyphenated
      have legibleRest : ∀ next ∈ rest, next.IsLegible d := fun next found =>
        legible next (List.mem_cons_of_mem _ found)
      have inner := ih apartRest unhyphenatedRest legibleRest
      refine Token.cuts plain inner (legible token List.mem_cons_self) (fun next found => ?_) beside
        fun same found => hyphens _ found ⟨same, rfl⟩
      exact legibleRest next (List.mem_of_mem_head? found)

/-- A query is cut into the lexemes of its tokens. -/
theorem Query.lexemes_text
    (query : Query) (unhyphenated : Tokens.Unhyphenated (query.tokens d))
    (legible : ∀ token ∈ query.tokens d, token.IsLegible d) :
    Lexeme.ofText? .generic (query.text d) = some (Tokens.lexemes d (query.tokens d)) := by
  have cut := Tokens.cuts plain (query.apart_tokens d) unhyphenated legible
  exact cut _ (Nat.le_refl _)

end

end Sql
end SemanticLayer
