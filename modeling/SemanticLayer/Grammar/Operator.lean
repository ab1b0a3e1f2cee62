import SemanticLayer.Grammar.Reader

/-!
# Operators

How tightly what stands behind an operand binds to it. Every grammar orders the kinds of operators
alike but for one, and reads operators of one strength from the left.
-/

namespace SemanticLayer.Grammar

/-- The kinds of what may stand behind an operand. -/
inductive Binding where
  | or
  | and
  | xor
  | not
  | is
  | like
  | between
  | comparison
  | pipe
  | caret
  | ampersand
  | sum
  | product
  | timeZone
  | cast
  | subscript
  | collate
  | other
  deriving DecidableEq, Repr

namespace Binding

/-- How tightly a kind binds; the higher, the tighter. -/
def strength (rules : Rules) (binding : Binding) : Nat :=
  if rules = .of .postgres then
    match binding with
    | or => 10
    | and => 20
    | not => 30
    | is => 40
    | comparison => 50
    | between | like => 60
    | pipe | ampersand | other => 70
    | xor => 75
    | sum => 80
    | product => 90
    | caret => 100
    | timeZone => 110
    | collate => 120
    | subscript => 130
    | cast => 140
  else
    match binding with
    | or => 5
    | and => 10
    | not => 15
    | other => 16
    | is => 17
    | like => 19
    | comparison | between => 20
    | pipe => 21
    | caret => 22
    | ampersand => 23
    | xor => 24
    | sum => 30
    | product => 40
    | timeZone => 41
    | cast | subscript | collate => 50

/-- The marks of the operators of the dialect that has the most of them. -/
def otherMarks : List String :=
  ["->", "->>", "#>", "#>>", "@>", "<@", "#-", "@?", "@@"]

/-- What a mark binds as. -/
def ofMark? (rules : Rules) (mark : String) : Option Binding :=
  let postgres := rules = .of .postgres
  if ["=", "==", "<>", "!=", "<", "<=", ">", ">=", "<=>", "~", "~*", "!~", "!~*", "~~", "~~*",
      "!~~", "!~~*"].contains mark then some comparison
  else if ["+", "-"].contains mark then some sum
  else if ["*", "/", "%", "//"].contains mark then some product
  else if mark = "||" then some (if postgres then other else product)
  else if mark = "|" then some pipe
  else if mark = "&" then some ampersand
  else if mark = "^" then some caret
  else if ["#", "<<", ">>"].contains mark then some (if postgres then other else caret)
  else if mark = "::" then some cast
  else if mark = "[" then some subscript
  else if ["!", "&&", "^@"].contains mark then some (if postgres then other else cast)
  else if otherMarks.contains mark then some other
  else if ["<=>", "-", "%", "|", "<", ">", "~", "@", "#"].any fun start =>
      postgres && mark.startsWith start && mark.length > 1 then some other
  else none

/-- What a keyword binds as. -/
def ofKeyword? : String → Option Binding
  | "OR" => some or
  | "AND" => some and
  | "XOR" => some xor
  | "IS" => some is
  | "IN" | "BETWEEN" | "OPERATOR" => some between
  | "LIKE" | "ILIKE" | "RLIKE" | "REGEXP" | "SIMILAR" => some like
  | "DIV" => some product
  | _ => none

/-- What comes next binds as. NOT binds as the test that it negates. -/
def ahead? (rules : Rules) (lexemes : List Lexeme) : Option Binding :=
  match lexemes with
  | .mark text :: _ => ofMark? rules text
  | .word word :: rest =>
    if word.keyword = "NOT" then
      match ofKeyword? (frontKeyword rest) with
      | some between => if frontKeyword rest = "OPERATOR" then none else some between
      | some like => some like
      | _ => none
    else if word.keyword = "AT" then
      if startsWithKeywords ["TIME", "ZONE"] rest then some timeZone else none
    else if word.keyword = "COLLATE" then
      if rules = .of .postgres then some collate else none
    else ofKeyword? word.keyword
  | _ => none

end Binding

/-- The strength of what comes next; at 0 nothing binds. -/
def nextStrength (rules : Rules) (lexemes : List Lexeme) : Nat :=
  match Binding.ahead? rules lexemes with
  | some binding => binding.strength rules
  | none => 0

namespace Operator

/-- The operator that a mark writes. -/
def ofMark? (rules : Rules) (mark : String) : Option Operator :=
  let given (found : Bool) (kind : String) : Option Operator :=
    if found then some (other kind) else none
  let postgres := rules.isOneOf [.postgres]
  match mark with
  | "=" | "==" => some eq
  | "<>" | "!=" => some notEq
  | "<" => some lt
  | ">" => some gt
  | "<=" => some ltEq
  | ">=" => some gtEq
  | "<=>" => some (other "Spaceship")
  | "+" => some plus
  | "-" => some minus
  | "*" => some multiply
  | "/" => some divide
  | "%" => some modulo
  | "||" => some concat
  | "|" => some (other "BitwiseOr")
  | "&" => some (other "BitwiseAnd")
  | "^" => some (other (if postgres then "PGExp" else "BitwiseXor"))
  | "//" => given (rules.isGenericOr [.duckDb]) "DuckIntegerDivide"
  | "<<" => given (rules.isGenericOr [.postgres, .duckDb]) "PGBitwiseShiftLeft"
  | ">>" => given (rules.isGenericOr [.postgres, .duckDb]) "PGBitwiseShiftRight"
  | "#" => given postgres "PGBitwiseXor"
  | "&&" => given postgres "PGOverlap"
  | "^@" => given (rules.isGenericOr [.postgres]) "PGStartsWith"
  | "~" => some (other "PGRegexMatch")
  | "~*" => some (other "PGRegexIMatch")
  | "!~" => some (other "PGRegexNotMatch")
  | "!~*" => some (other "PGRegexNotIMatch")
  | "~~" => some (other "PGLikeMatch")
  | "~~*" => some (other "PGILikeMatch")
  | "!~~" => some (other "PGNotLikeMatch")
  | "!~~*" => some (other "PGNotILikeMatch")
  | "->" => some (other "Arrow")
  | "->>" => some (other "LongArrow")
  | "#>" => some (other "HashArrow")
  | "#>>" => some (other "HashLongArrow")
  | "@>" => some (other "AtArrow")
  | "<@" => some (other "ArrowAt")
  | "#-" => some (other "HashMinus")
  | "@?" => some (other "AtQuestion")
  | "@@" => some (other "AtAt")
  | "[" | "::" | "!" => none
  | _ => given postgres "Custom"

/-- The operator that a keyword writes. -/
def ofKeyword? (rules : Rules) : String → Option Operator
  | "AND" => some and
  | "OR" => some or
  | "XOR" => some (other "Xor")
  | "DIV" => if rules.isOneOf [.mySql] then some (other "MyIntegerDivide") else none
  | _ => none

/-- The operator that a lexeme writes. -/
def ofLexeme? (rules : Rules) : Lexeme → Option Operator
  | .mark text => ofMark? rules text
  | .word word => ofKeyword? rules word.keyword
  | _ => none

/-- Whether an operator compares, so that ANY and ALL may follow it. -/
def compares : Operator → Bool
  | eq | notEq | lt | gt | ltEq | gtEq => true
  | _ => false

end Operator
end SemanticLayer.Grammar
