import SemanticLayer.Config.Value
import SemanticLayer.Number.Decimal
import SemanticLayer.Number.Integer

/-!
# Reading TOML

A document is a list of lines: a key with a value, or a header that names the table which the
following keys belong to. Tables are built up along the way; a key and a table are given once only.
-/

namespace SemanticLayer.Config.Toml

/-- A step that reads from the front of a text. -/
abbrev Reader (α : Type) := StateT (List Char) Option α

/-! ## Characters -/

/-- Takes the next character. -/
def next : Reader Char := fun
  | c :: rest => some (c, rest)
  | [] => none

/-- Takes a text if it comes next. -/
def skip? (text : String) : Reader Bool :=
  fun chars =>
    some (if text.toList.isPrefixOf chars then (true, chars.drop text.length) else (false, chars))

/-- Takes a text that has to come next. -/
def expect (text : String) : Reader Unit := do
  if ← skip? text then pure () else failure

/-- Takes characters as long as a test holds of them. -/
def takeWhile (test : Char → Bool) : Reader (List Char) :=
  fun chars => some (chars.takeWhile test, chars.dropWhile test)

/-- Whether something holds of the text ahead. -/
def ahead (test : List Char → Bool) : Reader Bool :=
  fun chars => some (test chars, chars)

/-- Takes blanks and tabs. -/
def skipBlanks : Reader Unit := do
  let _ ← takeWhile fun c => c == ' ' || c == '\t'
  pure ()

/-- Whether a character may stand in a comment or a string. -/
def isPrintable (c : Char) : Bool :=
  c == '\t' || (c.toNat ≥ 0x20 && c.toNat ≠ 0x7F)

/-- Takes a comment if one comes next. -/
def skipComment : Reader Unit := do
  if ← skip? "#" then
    let _ ← takeWhile isPrintable
    pure ()

/-- Takes the end of a line, or meets the end of the text. -/
def endOfLine : Reader Unit := do
  if ← skip? "\n" then pure ()
  else if ← skip? "\r\n" then pure ()
  else if ← ahead List.isEmpty then pure ()
  else failure

/-- Takes blanks, comments and ends of lines. -/
def skipLines : Nat → Reader Unit
  | 0 => pure ()
  | fuel + 1 => do
    skipBlanks
    skipComment
    if ← ahead List.isEmpty then pure ()
    else if ← ahead fun chars => chars.head? == some '\n' || chars.take 2 == ['\r', '\n'] then do
      endOfLine
      skipLines fuel
    else pure ()

/-- Takes blanks, comments and ends of lines, however many. -/
def skipSpace : Reader Unit := do
  let chars ← get
  skipLines (chars.length + 1)

/-! ## Strings -/

/-- The character of a number in base 16. -/
def ofHexDigits? (digits : List Char) : Option Char := do
  let value ← digits.foldlM (fun (value : Nat) c =>
    if c.isDigit then some (16 * value + (c.toNat - '0'.toNat))
    else if 'a' ≤ c ∧ c ≤ 'f' then some (16 * value + (c.toNat - 'a'.toNat) + 10)
    else if 'A' ≤ c ∧ c ≤ 'F' then some (16 * value + (c.toNat - 'A'.toNat) + 10)
    else none) 0
  if h : value.isValidChar then some (Char.ofNatAux value h) else none

/-- Takes so many digits of base 16 for a character. -/
def hexChar (count : Nat) : Reader Char := do
  let chars ← get
  if chars.length < count then failure
  else
    match ofHexDigits? (chars.take count) with
    | some c =>
      set (chars.drop count)
      pure c
    | none => failure

/-- Takes what follows a backslash. -/
def escapedChar : Reader Char := do
  match ← next with
  | 'b' => pure (Char.ofNat 8)
  | 't' => pure '\t'
  | 'n' => pure '\n'
  | 'f' => pure (Char.ofNat 12)
  | 'r' => pure '\r'
  | '"' => pure '"'
  | '\\' => pure '\\'
  | 'u' => hexChar 4
  | 'U' => hexChar 8
  | _ => failure

/-- Takes the rest of a string on one line. Where `escapes` is not set a backslash is plain. -/
def lineString (mark : Char) (escapes : Bool) : Nat → Reader (List Char)
  | 0 => failure
  | fuel + 1 => do
    let c ← next
    if c = mark then pure []
    else if c = '\\' ∧ escapes = true then
      let found ← escapedChar
      let rest ← lineString mark escapes fuel
      pure (found :: rest)
    else if isPrintable c then
      let rest ← lineString mark escapes fuel
      pure (c :: rest)
    else failure

/-- Whether a text goes on with the end of a line behind blanks. -/
def endsLine (chars : List Char) : Bool :=
  match chars.dropWhile fun c => c == ' ' || c == '\t' with
  | '\n' :: _ | '\r' :: '\n' :: _ => true
  | _ => false

/-- Takes the rest of a string of several lines. Up to two marks may stand in front of the closing
three. -/
def blockString (mark : Char) (escapes : Bool) : Nat → Reader (List Char)
  | 0 => failure
  | fuel + 1 => do
    let chars ← get
    let marks := (chars.takeWhile (· == mark)).length
    if marks ≥ 3 then
      let kept := min (marks - 3) 2
      set (chars.drop (kept + 3))
      pure (List.replicate kept mark)
    else
      let c ← next
      if c = '\\' ∧ escapes = true then
        if ← ahead endsLine then
          let _ ← takeWhile fun d => d == ' ' || d == '\t' || d == '\n' || d == '\r'
          blockString mark escapes fuel
        else
          let found ← escapedChar
          let rest ← blockString mark escapes fuel
          pure (found :: rest)
      else if c = '\r' then
        expect "\n"
        let rest ← blockString mark escapes fuel
        pure ('\n' :: rest)
      else if c = '\n' ∨ isPrintable c then
        let rest ← blockString mark escapes fuel
        pure (c :: rest)
      else failure

/-- Takes a string if one comes next. -/
def string? (blocks : Bool) : Reader (Option String) := do
  let chars ← get
  let fuel := chars.length + 1
  let block (mark : Char) : Reader (Option String) := do
    if ← skip? "\n" then pure ()
    else
      let _ ← skip? "\r\n"
      pure ()
    let text ← blockString mark (mark == '"') fuel
    pure (some (String.ofList text))
  if ← if blocks then skip? "\"\"\"" else pure false then block '"'
  else if ← if blocks then skip? "'''" else pure false then block '\''
  else if ← skip? "\"" then
    let text ← lineString '"' true fuel
    pure (some (String.ofList text))
  else if ← skip? "'" then
    let text ← lineString '\'' false fuel
    pure (some (String.ofList text))
  else pure none

/-! ## Keys -/

/-- Whether a character may stand in a key without quotes. -/
def isKeyChar (c : Char) : Bool :=
  c.isAlphanum || c == '_' || c == '-'

/-- Takes one part of a key. -/
def keyPart : Reader String := do
  match ← string? false with
  | some key => pure key
  | none =>
    match ← takeWhile isKeyChar with
    | [] => failure
    | key => pure (String.ofList key)

/-- Takes the further parts of a key, each behind a dot. -/
def moreKeyParts : Nat → Reader (List String)
  | 0 => pure []
  | fuel + 1 => do
    skipBlanks
    if ← skip? "." then
      skipBlanks
      let part ← keyPart
      let rest ← moreKeyParts fuel
      pure (part :: rest)
    else pure []

/-- Takes a key with dots between its parts, and blanks behind it. -/
def key : Reader (List String) := do
  let first ← keyPart
  let chars ← get
  let rest ← moreKeyParts chars.length
  pure (first :: rest)

/-! ## Numbers and times -/

/-- Digits without the underscores between them; an underscore has a digit on either side. -/
def plainDigits? (test : Char → Bool) : List Char → Option (List Char)
  | [] => none
  | [c] => if test c then some [c] else none
  | c :: '_' :: rest => if test c then (plainDigits? test rest).map (c :: ·) else none
  | c :: rest => if test c then (plainDigits? test rest).map (c :: ·) else none

/-- The value of digits in a base. -/
def baseValue (base : Nat) (digits : List Char) : Nat :=
  digits.foldl (fun value c =>
    base * value +
      if c.isDigit then c.toNat - '0'.toNat else (c.toLower.toNat - 'a'.toNat) + 10) 0

/-- A whole number, if it fits two words, signed or not. -/
def integer? (value : Int) : Option Value :=
  if -0x80000000000000000000000000000000 ≤ value ∧ value ≤ 0xFFFFFFFFFFFFFFFFFFFFFFFFFFFFFFFF then
    some (.integer value)
  else none

/-- Whole digits without a zero in front of others. -/
def wholeDigits? (chars : List Char) : Option (List Char) :=
  match plainDigits? Char.isDigit chars with
  | some ('0' :: _ :: _) => none
  | found => found

/-- The parts of a decimal: in front of the point, behind it, and the exponent. -/
def decimalParts (chars : List Char) : List Char × Option (List Char) × Option (List Char) :=
  let isMark (c : Char) : Bool := c == 'e' || c == 'E'
  let front := chars.takeWhile fun c => !isMark c
  let exponent :=
    match chars.dropWhile fun c => !isMark c with
    | _ :: rest => some rest
    | [] => none
  let whole := front.takeWhile (· != '.')
  let fraction :=
    match front.dropWhile (· != '.') with
    | _ :: rest => some rest
    | [] => none
  (whole, fraction, exponent)

/-- The digits of an exponent with its sign. -/
def exponentDigits? (chars : List Char) : Option (List Char) :=
  match chars with
  | '+' :: rest => plainDigits? Char.isDigit rest
  | '-' :: rest => (plainDigits? Char.isDigit rest).map ('-' :: ·)
  | rest => plainDigits? Char.isDigit rest

/-- An unsigned decimal as text without underscores. -/
def decimalText? (chars : List Char) : Option (List Char) := do
  let (whole, fraction, exponent) := decimalParts chars
  let whole ← wholeDigits? whole
  let fraction ←
    match fraction with
    | some digits => (plainDigits? Char.isDigit digits).map ('.' :: ·)
    | none => some []
  let exponent ←
    match exponent with
    | some digits => (exponentDigits? digits).map ('e' :: ·)
    | none => some []
  pure (whole ++ fraction ++ exponent)

/-- The sign in front of a number, and what follows it. -/
def signed (chars : List Char) : Bool × Bool × List Char :=
  match chars with
  | '+' :: rest => (true, false, rest)
  | '-' :: rest => (true, true, rest)
  | rest => (false, false, rest)

/-- A pattern that is no number, with a sign. -/
def notANumber (negative : Bool) : Number.Binary64 :=
  if negative then ⟨Number.Binary64.notANumber.bits ||| 0x8000000000000000⟩
  else .notANumber

/-- A number in whatever notation. -/
def number? (chars : List Char) : Option Value :=
  let (hasSign, negative, body) := signed chars
  match body with
  | ['i', 'n', 'f'] => some (.float (.infinite negative))
  | ['n', 'a', 'n'] => some (.float (notANumber negative))
  | '0' :: 'x' :: digits =>
    if hasSign then none
    else (plainDigits? (fun c => c.isDigit || ('a' ≤ c.toLower && c.toLower ≤ 'f')) digits).bind
      fun found => integer? (baseValue 16 found)
  | '0' :: 'o' :: digits =>
    if hasSign then none
    else (plainDigits? (fun c => '0' ≤ c && c ≤ '7') digits).bind fun found =>
      integer? (baseValue 8 found)
  | '0' :: 'b' :: digits =>
    if hasSign then none
    else (plainDigits? (fun c => c == '0' || c == '1') digits).bind fun found =>
      integer? (baseValue 2 found)
  | _ =>
    match decimalParts body with
    | (whole, none, none) =>
      (wholeDigits? whole).bind fun found =>
        let value : Int := Number.digitsValue found
        integer? (if negative then -value else value)
    | _ =>
      ((decimalText? body).bind fun text =>
        Number.Binary64.ofText? (if negative then '-' :: text else text)).bind fun value =>
          if value.isFinite then some (.float value) else none

/-- Whether a text starts like a date or a time: four digits and a hyphen, or two and a colon. -/
def startsMoment (chars : List Char) : Bool :=
  let digits := (chars.takeWhile Char.isDigit).length
  (digits == 4 && chars[4]? == some '-') || (digits == 2 && chars[2]? == some ':')

/-- Takes a date, a time or both. -/
def moment : Reader Value := do
  let test (c : Char) : Bool := c.isDigit || ['-', ':', '.', '+', 'T', 't', 'Z', 'z'].contains c
  let _ ← takeWhile test
  if ← ahead fun
      | ' ' :: c :: _ => c.isDigit
      | _ => false then
    let _ ← next
    let _ ← takeWhile test
  pure .moment

/-! ## Values -/

/-- Takes a value that holds no others. -/
def scalar : Reader Value := do
  match ← string? true with
  | some text => pure (.text text)
  | none =>
    if ← ahead startsMoment then moment
    else
      let chars ← takeWhile fun c => c.isAlphanum || ['_', '-', '+', '.'].contains c
      match String.ofList chars with
      | "true" => pure (.bool true)
      | "false" => pure (.bool false)
      | _ =>
        match number? chars with
        | some value => pure value
        | none => failure

/-- Takes the items of a list up to the closing bracket. -/
def items (value : Reader Value) : Nat → Reader (List Value)
  | 0 => failure
  | fuel + 1 => do
    skipSpace
    if ← skip? "]" then pure []
    else
      let first ← value
      skipSpace
      if ← skip? "," then
        let rest ← items value fuel
        pure (first :: rest)
      else
        expect "]"
        pure [first]

/-- A part of a document under construction: a value that is closed, a table, or a list of tables of
which the last is open. A table is implied if only parts of it are named, and dotted if keys with
dots made it. -/
inductive Part where
  | value (value : Value)
  | table (implied dotted : Bool) (fields : List (String × Part))
  | tables (items : List (List (String × Part)))

/-- The fields of a table under construction. -/
abbrev Parts := List (String × Part)

namespace Part

/-- The part under a name. -/
def get? (parts : Parts) (key : String) : Option Part :=
  (parts.find? fun part => part.1 == key).map Prod.snd

/-- The parts with one put under a name. -/
def put (parts : Parts) (key : String) (part : Part) : Parts :=
  if (get? parts key).isSome then
    parts.map fun found => if found.1 == key then (key, part) else found
  else parts ++ [(key, part)]

/-- Changes the table at a path, and makes those missing on the way. `dotted` tells that the path is
that of a key with dots, which opens no table that a header defines. -/
def changeAt (dotted : Bool) (change : Bool → Parts → Option Parts) :
    List String → Bool → Parts → Option Parts
  | [], reached, parts => change reached parts
  | key :: path, _, parts =>
    match get? parts key with
    | none => do
      let fields ← changeAt dotted change path dotted []
      pure (put parts key (.table true dotted fields))
    | some (.value _) => none
    | some (.tables items) => do
      let last ← items.getLast?
      let fields ← changeAt dotted change path false last
      pure (put parts key (.tables (items.dropLast ++ [fields])))
    | some (.table implied reached fields) =>
      if dotted && !implied then none
      else do
        let fields ← changeAt dotted change path reached fields
        pure (put parts key (.table implied reached fields))

/-- Gives a key of the table at hand its value. -/
def assign (path : List String) (key : String) (value : Value) (parts : Parts) : Option Parts :=
  changeAt true (fun reached fields =>
    if reached == path.isEmpty then none
    else if (get? fields key).isSome then none
    else some (put fields key (.value value))) path false parts

/-- Opens the table that a header names. -/
def openTable (path : List String) (key : String) (parts : Parts) : Option Parts :=
  changeAt false (fun _ fields =>
    match get? fields key with
    | none => some (put fields key (.table false false []))
    | some (.table true false inner) => some (put fields key (.table false false inner))
    | some _ => none) path false parts

/-- Opens one more table of the list that a header names. -/
def appendTable (path : List String) (key : String) (parts : Parts) : Option Parts :=
  changeAt false (fun _ fields =>
    match get? fields key with
    | none => some (put fields key (.tables [[]]))
    | some (.tables items) => some (put fields key (.tables (items ++ [[]])))
    | some _ => none) path false parts

mutual

/-- The value that a part makes. -/
def toValue : Part → Value
  | .value found => found
  | .table _ _ fields => .table (toFields fields)
  | .tables items => .list (toTables items)

/-- The fields that parts make. -/
def toFields : List (String × Part) → List (String × Value)
  | [] => []
  | (key, part) :: rest => (key, toValue part) :: toFields rest

/-- The tables that a list of parts makes. -/
def toTables : List (List (String × Part)) → List Value
  | [] => []
  | fields :: rest => .table (toFields fields) :: toTables rest

end

end Part

/-- Takes a key and its value. -/
def assignment (value : Reader Value) (parts : Parts) : Reader Parts := do
  let path ← key
  expect "="
  skipBlanks
  let found ← value
  match path.getLast?.bind fun last => Part.assign path.dropLast last found parts with
  | some changed => pure changed
  | none => failure

/-- Takes the entries of a table on one line up to the closing brace. -/
def entries (value : Reader Value) : Nat → Parts → Reader Parts
  | 0, _ => failure
  | fuel + 1, parts => do
    skipBlanks
    let parts ← assignment value parts
    skipBlanks
    if ← skip? "," then entries value fuel parts
    else
      expect "\x7d"
      pure parts

/-- Takes a value, where values hold one another so many deep at most. -/
def valueWithin : Nat → Reader Value
  | 0 => failure
  | depth + 1 => do
    let chars ← get
    let fuel := chars.length + 1
    if ← skip? "[" then
      let found ← items (valueWithin depth) fuel
      pure (.list found)
    else if ← skip? "\x7b" then
      skipBlanks
      if ← skip? "\x7d" then pure (.table [])
      else
        let parts ← entries (valueWithin depth) fuel []
        pure (.table (Part.toFields parts))
    else scalar

/-- How deep values may hold one another. -/
def depthLimit : Nat := 80

/-! ## Documents -/

/-- A document under construction: its root, and the header of the table at hand. -/
structure Draft where
  root : Parts := []
  header : List String := []

/-- Takes the header of a table, or of one more table of a list, up to its closing brackets. -/
def header (draft : Draft) : Reader Draft := do
  let isList ← skip? "[["
  if !isList then expect "["
  skipBlanks
  let path ← key
  expect (if isList then "]]" else "]")
  let opened := path.getLast?.bind fun last =>
    if isList then Part.appendTable path.dropLast last draft.root
    else Part.openTable path.dropLast last draft.root
  match opened with
  | some root => pure { root, header := path }
  | none => failure

/-- Takes a key and its value into the table at hand. -/
def entry (draft : Draft) : Reader Draft := do
  let path ← key
  expect "="
  skipBlanks
  let found ← valueWithin depthLimit
  let changed := path.getLast?.bind fun last =>
    Part.changeAt false (fun _ fields => Part.assign path.dropLast last found fields)
      draft.header false draft.root
  match changed with
  | some root => pure { draft with root }
  | none => failure

/-- Takes the lines of a document. -/
def lines : Nat → Draft → Reader Draft
  | 0, _ => failure
  | fuel + 1, draft => do
    skipSpace
    if ← ahead List.isEmpty then pure draft
    else
      let draft ← if ← ahead fun chars => chars.head? == some '[' then header draft else entry draft
      skipBlanks
      skipComment
      endOfLine
      lines fuel draft

/-- The table that a text writes. -/
def read? (text : String) : Option Value.Fields :=
  let chars :=
    match text.toList with
    | '\ufeff' :: rest => rest
    | rest => rest
  (lines (chars.length + 1) {} chars).map fun (draft, _) => Part.toFields draft.root

end SemanticLayer.Config.Toml
