import SemanticLayer.Text.CharClass

/-!
# Environment variables in texts

A text refers to a variable by `$name` or by `${name}`. It is cut into pieces once, from the left,
and every reference is replaced by the value of its variable, which is not looked into again.
-/

namespace SemanticLayer.Config

/-- A piece of a text: a character that stands for itself, or a reference to a variable. -/
inductive Piece where
  | plain (char : Char)
  | reference (name : String)
  deriving DecidableEq, Repr

/-- What a text that is cut into pieces was left in: plain text, right behind a dollar, or inside a
name, of which the characters so far are kept. -/
inductive Cut where
  | text
  | dollar
  | bareName (name : List Char)
  | bracedName (name : List Char)
  deriving DecidableEq, Repr

/-- Whether a character may stand in a name without braces. -/
def isVariableChar (c : Char) : Bool :=
  Text.isAlphanumeric c || c == '_'

namespace Piece

/-- The piece for the name of a variable. -/
def ofName (name : List Char) : Piece :=
  .reference (String.ofList name)

/-- Cuts a text into pieces. A name without braces goes as far as it can, one in braces to the first
closing brace or to the end; a dollar without a name stands for itself. -/
def ofChars : Cut → List Char → List Piece
  | .text, [] => []
  | .dollar, [] => [.plain '$']
  | .bareName name, [] => [ofName name]
  | .bracedName name, [] => [ofName name]
  | .text, c :: rest => if c = '$' then ofChars .dollar rest else .plain c :: ofChars .text rest
  | .dollar, c :: rest =>
    if c = '\x7b' then ofChars (.bracedName []) rest
    else if isVariableChar c then ofChars (.bareName [c]) rest
    else if c = '$' then .plain '$' :: ofChars .dollar rest
    else .plain '$' :: .plain c :: ofChars .text rest
  | .bareName name, c :: rest =>
    if isVariableChar c then ofChars (.bareName (name ++ [c])) rest
    else if c = '$' then ofName name :: ofChars .dollar rest
    else ofName name :: .plain c :: ofChars .text rest
  | .bracedName name, c :: rest =>
    if c = '\x7d' then ofName name :: ofChars .text rest
    else ofChars (.bracedName (name ++ [c])) rest

/-- The names that pieces refer to. -/
def references (pieces : List Piece) : List String :=
  pieces.filterMap fun
    | .plain _ => none
    | .reference name => some name

/-- The text that a piece becomes, or the name of a variable without a value. -/
def value (environment : String → Option String) : Piece → Except String String
  | .plain c => .ok (String.singleton c)
  | .reference name =>
    match environment name with
    | some value => .ok value
    | none => .error name

end Piece

/-- The pieces of a text. -/
def pieces (text : String) : List Piece :=
  Piece.ofChars .text text.toList

/-- A text with the values of its variables, or the first name without a value. -/
def expandVariables (environment : String → Option String) (text : String) :
    Except String String :=
  ((pieces text).mapM (Piece.value environment)).map String.join

end SemanticLayer.Config
