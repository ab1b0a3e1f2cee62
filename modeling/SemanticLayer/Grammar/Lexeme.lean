import SemanticLayer.Grammar.Rules

/-!
# Lexemes

The words, literals and marks that SQL text is made of, and how text is cut into them. Blanks and
comments separate lexemes and are no lexemes themselves.
-/

namespace SemanticLayer.Grammar

/-- String literals that are no plain strings. -/
inductive LiteralKind where
  | national
  | hex
  | doubleQuoted
  | escaped
  | unicode
  | byte
  | doubleQuotedByte
  | raw
  | doubleQuotedRaw
  | dollarQuoted
  | placeholder
  deriving DecidableEq, Repr

/-- A word: its text, the mark that quotes it, and the keyword it may be, in upper case. A quoted
word is no keyword. -/
structure Word where
  value : String
  quote : Option Char
  keyword : String
  deriving DecidableEq, Repr

/-- The word written without quotes. -/
def Word.plain (value : String) : Word :=
  ⟨value, none, Text.upper value⟩

/-- The word written in quotes. -/
def Word.quoted (value : String) (mark : Char) : Word :=
  ⟨value, some mark, ""⟩

/-- A piece of SQL text. -/
inductive Lexeme where
  | word (word : Word)
  | number (text : String)
  | string (text : String)
  | literal (kind : LiteralKind) (text : String)
  | mark (text : String)
  deriving DecidableEq, Repr

namespace Lexeme

/-! ## Quoted text -/

/-- What a backslash and a character stand for. -/
def escaped : Char → Char
  | '0' => Char.ofNat 0
  | 'a' => Char.ofNat 7
  | 'b' => Char.ofNat 8
  | 'f' => Char.ofNat 12
  | 'n' => '\n'
  | 'r' => '\r'
  | 't' => '\t'
  | 'Z' => Char.ofNat 26
  | c => c

/-- The value of text up to a closing mark, and the text behind it. The mark written twice stands
for itself, and so does a character behind a backslash where backslashes escape. -/
def quotedText? (closing : Char) (backslash : Bool) : List Char → Option (List Char × List Char)
  | [] => none
  | c :: rest =>
    if c = closing then
      match rest with
      | d :: more =>
        if d = closing then
          (quotedText? closing backslash more).map fun (value, after) => (closing :: value, after)
        else some ([], d :: more)
      | [] => some ([], [])
    else if backslash && c == '\\' then
      match rest with
      | d :: more =>
        (quotedText? closing backslash more).map fun (value, after) => (escaped d :: value, after)
      | [] => none
    else
      (quotedText? closing backslash rest).map fun (value, after) => (c :: value, after)

/-! ## Comments -/

/-- The text behind the end of a line. -/
def afterLine : List Char → List Char
  | [] => []
  | c :: rest => if c = '\n' then rest else afterLine rest

/-- The text behind the end of a comment between slash and star, `depth` comments deep. -/
def afterComment? (nests : Bool) : Nat → List Char → Option (List Char)
  | _, [] => none
  | depth, '*' :: '/' :: rest =>
    if depth = 0 then some rest else afterComment? nests (depth - 1) rest
  | depth, '/' :: '*' :: rest =>
    if nests then afterComment? nests (depth + 1) rest else afterComment? nests depth ('*' :: rest)
  | depth, _ :: rest => afterComment? nests depth rest

/-! ## Numbers -/

/-- The exponent at the start of a text: the letter, a sign and at least one digit. -/
def exponentText : List Char → List Char × List Char
  | c :: rest =>
    if c = 'e' ∨ c = 'E' then
      let (sign, digits) :=
        match rest with
        | '+' :: more => (['+'], more)
        | '-' :: more => (['-'], more)
        | more => ([], more)
      match digits.takeWhile Char.isDigit with
      | [] => ([], c :: rest)
      | found => (c :: sign ++ found, digits.dropWhile Char.isDigit)
    else ([], c :: rest)
  | [] => ([], [])

/-- The digits, point and exponent at the start of a text. -/
def numberText (chars : List Char) : List Char × List Char × List Char :=
  let whole := chars.takeWhile Char.isDigit
  let afterWhole := chars.dropWhile Char.isDigit
  let (point, rest) :=
    match afterWhole with
    | '.' :: more => ('.' :: more.takeWhile Char.isDigit, more.dropWhile Char.isDigit)
    | _ => ([], afterWhole)
  let (exponent, after) := exponentText rest
  (whole ++ point, exponent, after)

/-- The number, the word or the point that a digit or a point starts. -/
def ofDigits (rules : Rules) (chars : List Char) : Lexeme × List Char :=
  let (digits, exponent, rest) := numberText chars
  if digits = ['.'] then (mark ".", chars.drop 1)
  else if chars.take 2 = ['0', 'x'] then
    let hex (c : Char) : Bool :=
      c.isDigit || ('a' ≤ c && c ≤ 'f') || ('A' ≤ c && c ≤ 'F')
    let body := chars.drop 2
    (literal .hex (String.ofList (body.takeWhile hex)), body.dropWhile hex)
  else
    let tail :=
      if rules.wordsStartWithDigits ∧ exponent = [] then rest.takeWhile rules.continuesWord
      else []
    if tail ≠ [] then
      (word (Word.plain (String.ofList (digits ++ tail))), rest.drop tail.length)
    else
      let after :=
        match rest with
        | 'L' :: more => more
        | more => more
      (number (String.ofList (digits ++ exponent)), after)

/-! ## Marks -/

/-- Marks of several characters, a longer one before those it starts with. -/
def longMarks : List String :=
  ["<=>", "<=", "<>", "<<", "<@", ">=", ">>", "!=", "!!", "!~~*", "!~~", "!~*", "!~", "==", "=>",
    "||/", "||", "|/", "::", ":=", "->>", "->", "&&", "^@", "~~*", "~~", "~*", "@>", "@?", "@@",
    "#>>", "#>", "#-"]

/-- The text without its first characters, if it starts with `start`. -/
def dropStart? : List Char → List Char → Option (List Char)
  | [], chars => some chars
  | c :: start, d :: chars => if c = d then dropStart? start chars else none
  | _ :: _, [] => none

/-- Marks that an operator of the dialect's own may start with. -/
def openMarks : List String :=
  ["-", "%", "||", "|", "<=", "<", ">", "<=>", "<>", "<<", ">=", ">>", "~", "@", "#"]

/-- The mark at the start of a text. -/
def markText (rules : Rules) (c : Char) (rest : List Char) : String × List Char :=
  let whole := c :: rest
  let usable (text : String) : Bool := text != "//" || rules.isGenericOr [.duckDb]
  let found := ("//" :: longMarks).findSome? fun text =>
    if usable text then (dropStart? text.toList whole).map fun after => (text, after) else none
  let (text, after) := found.getD (String.singleton c, rest)
  if openMarks.contains text then
    (text ++ String.ofList (after.takeWhile rules.lengthensOperator),
      after.dropWhile rules.lengthensOperator)
  else (text, after)

/-! ## Cutting -/

/-- A word that starts with the given characters. -/
def ofWord (rules : Rules) (start rest : List Char) : Lexeme × List Char :=
  (word (Word.plain (String.ofList (start ++ rest.takeWhile rules.continuesWord))),
    rest.dropWhile rules.continuesWord)

/-- The literal that a letter and a quotation mark open, if the letter marks one. -/
def markedLiteral? (rules : Rules) (c quote : Char) : Option (LiteralKind × Bool) :=
  let single := quote == '\''
  if (c = 'n' ∨ c = 'N') ∧ single then some (.national, rules.escapesByBackslash)
  else if (c = 'x' ∨ c = 'X') ∧ single then some (.hex, true)
  else if (c = 'e' ∨ c = 'E') ∧ single then some (.escaped, true)
  else if (c = 'b' ∨ c = 'B') ∧ (single ∨ quote = '"') ∧ rules.isGenericOr [.bigQuery] then
    some (if single then .byte else .doubleQuotedByte, false)
  else if (c = 'r' ∨ c = 'R') ∧ (single ∨ quote = '"') ∧ rules.isGenericOr [.bigQuery] then
    some (if single then .raw else .doubleQuotedRaw, false)
  else none

/-- The text between a dollar sign and its counterpart, where the tag between dollar signs closes
what it opens. -/
def dollarQuoted? (tag : List Char) : List Char → Option (List Char × List Char)
  | [] => none
  | c :: rest =>
    match dropStart? ('$' :: tag ++ ['$']) (c :: rest) with
    | some after => some ([], after)
    | none => (dollarQuoted? tag rest).map fun (value, after) => (c :: value, after)

/-- A placeholder or a quoted text that a dollar sign starts. -/
def ofDollar? (rest : List Char) : Option (Lexeme × List Char) :=
  let tag := rest.takeWhile fun c => Text.isAlphanumeric c || c == '_'
  match rest.drop tag.length with
  | '$' :: body =>
    (dollarQuoted? tag body).map fun (value, after) =>
      (literal .dollarQuoted (String.ofList value), after)
  | after => some (literal .placeholder (String.ofList ('$' :: tag)), after)

/-- The first lexeme of a text that starts with neither blank nor comment, and the text behind
it. -/
def first? (rules : Rules) (c : Char) (rest : List Char) : Option (Lexeme × List Char) :=
  let quoteMarked : Option ((LiteralKind × Bool) × Char × List Char) :=
    match rest with
    | '&' :: '\'' :: body =>
      if (c = 'u' ∨ c = 'U') ∧ rules.isGenericOr [.postgres] then
        some ((.unicode, false), '\'', body)
      else none
    | quote :: body => (markedLiteral? rules c quote).map fun found => (found, quote, body)
    | [] => none
  match quoteMarked with
  | some ((kind, backslash), quote, body) =>
    (quotedText? quote backslash body).map fun (value, after) =>
      (literal kind (String.ofList value), after)
  | none =>
    if c = '\'' then
      (quotedText? '\'' rules.escapesByBackslash rest).map fun (value, after) =>
        (string (String.ofList value), after)
    else
      match rules.identifierEnd? c with
      | some closing =>
        (quotedText? closing false rest).map fun (value, after) =>
          (word (Word.quoted (String.ofList value) c), after)
      | none =>
        if c = '"' then
          (quotedText? '"' rules.escapesByBackslash rest).map fun (value, after) =>
            (literal .doubleQuoted (String.ofList value), after)
        else if c.isDigit ∨ c = '.' then some (ofDigits rules (c :: rest))
        else if c = '@' ∨ c = '#' then
          match rest with
          | d :: more =>
            if rules.startsWord c ∧ ¬ ['>', '?', '@', ' ', '-'].contains d then
              some (ofWord rules [c, d] more)
            else some ((mark (markText rules c rest).1, (markText rules c rest).2))
          | [] => some (mark (String.singleton c), [])
        else if c = '?' ∧ rules ≠ .of .postgres then
          some (literal .placeholder (String.ofList ('?' :: rest.takeWhile Text.isNumeric)),
            rest.dropWhile Text.isNumeric)
        else if rules.startsWord c then some (ofWord rules [c] rest)
        else if c = '$' then ofDollar? rest
        else some (mark (markText rules c rest).1, (markText rules c rest).2)

/-- Whether a text starts with a comment to the end of the line. -/
def startsLineComment (rules : Rules) : List Char → Bool
  | '-' :: '-' :: rest => !rules.commentNeedsBlank || rest.head? == some ' '
  | '#' :: _ => rules.commentsByHash
  | '/' :: '/' :: _ => rules.isOneOf [.snowflake]
  | _ => false

/-- Cuts a text into lexemes. It fails where a quotation or a comment does not end. -/
def cut? (rules : Rules) : Nat → List Char → Option (List Lexeme)
  | _, [] => some []
  | 0, _ => none
  | fuel + 1, c :: rest =>
    if startsLineComment rules (c :: rest) then cut? rules fuel (afterLine rest)
    else
      match c, rest with
      | '/', '*' :: body => (afterComment? rules.nestsComments 0 body).bind (cut? rules fuel)
      | _, _ =>
        if Text.isBlank c then cut? rules fuel rest
        else
          (first? rules c rest).bind fun (lexeme, after) =>
            (cut? rules fuel after).map (lexeme :: ·)

/-- The lexemes of a text. -/
def ofText? (rules : Rules) (text : String) : Option (List Lexeme) :=
  cut? rules text.toList.length text.toList

end Lexeme
end SemanticLayer.Grammar
