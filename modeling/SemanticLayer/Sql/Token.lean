import SemanticLayer.Dialect
import SemanticLayer.Number.Decimal

/-!
# Written tokens

The pieces that SQL is written from. A token has the same meaning in every dialect; `Token.text`
spells it in one.
-/

namespace SemanticLayer.Sql

/-- Keywords that compiled SQL uses. -/
inductive Keyword where
  | select
  | fromWord
  | whereWord
  | and
  | or
  | not
  | as
  | on
  | join
  | inner
  | left
  | right
  | full
  | outer
  | cross
  | groupBy
  | having
  | orderBy
  | asc
  | desc
  | nullsFirst
  | nullsLast
  | limit
  | offset
  | fetch
  | next
  | rows
  | only
  | case
  | when
  | thenWord
  | elseWord
  | endWord
  | inWord
  | between
  | like
  | isNull
  | isNotNull
  | distinct
  | withWord
  deriving DecidableEq, Repr

/-- The keyword in upper case. -/
def Keyword.text : Keyword → String
  | select => "SELECT"
  | fromWord => "FROM"
  | whereWord => "WHERE"
  | and => "AND"
  | or => "OR"
  | not => "NOT"
  | as => "AS"
  | on => "ON"
  | join => "JOIN"
  | inner => "INNER"
  | left => "LEFT"
  | right => "RIGHT"
  | full => "FULL"
  | outer => "OUTER"
  | cross => "CROSS"
  | groupBy => "GROUP BY"
  | having => "HAVING"
  | orderBy => "ORDER BY"
  | asc => "ASC"
  | desc => "DESC"
  | nullsFirst => "NULLS FIRST"
  | nullsLast => "NULLS LAST"
  | limit => "LIMIT"
  | offset => "OFFSET"
  | fetch => "FETCH"
  | next => "NEXT"
  | rows => "ROWS"
  | only => "ONLY"
  | case => "CASE"
  | when => "WHEN"
  | thenWord => "THEN"
  | elseWord => "ELSE"
  | endWord => "END"
  | inWord => "IN"
  | between => "BETWEEN"
  | like => "LIKE"
  | isNull => "IS NULL"
  | isNotNull => "IS NOT NULL"
  | distinct => "DISTINCT"
  | withWord => "WITH"

/-- Every keyword. -/
def Keyword.all : List Keyword :=
  [select, fromWord, whereWord, and, or, not, as, on, join, inner, left, right, full, outer, cross,
    groupBy, having, orderBy, asc, desc, nullsFirst, nullsLast, limit, offset, fetch, next, rows,
    only, case, when, thenWord, elseWord, endWord, inWord, between, like, isNull, isNotNull,
    distinct, withWord]

/-- Punctuation and operators that are spelled alike in every dialect. -/
inductive Symbol where
  | comma
  | dot
  | star
  | leftParen
  | rightParen
  | eq
  | ne
  | lt
  | gt
  | lte
  | gte
  | plus
  | minus
  | times
  | divide
  | modulo
  | space
  | newline
  deriving DecidableEq, Repr

/-- The characters of the symbol. -/
def Symbol.text : Symbol → String
  | comma => ","
  | dot => "."
  | star | times => "*"
  | leftParen => "("
  | rightParen => ")"
  | eq => "="
  | ne => "<>"
  | lt => "<"
  | gt => ">"
  | lte => "<="
  | gte => ">="
  | plus => "+"
  | minus => "-"
  | divide => "/"
  | modulo => "%"
  | space => " "
  | newline => "\n"

/-- Every symbol but the star, whose spelling is that of multiplication. -/
def Symbol.all : List Symbol :=
  [comma, dot, leftParen, rightParen, eq, ne, lt, gt, lte, gte, plus, minus, times, divide, modulo,
    space, newline]

/-- A piece of written SQL. -/
inductive Token where
  | keyword (word : Keyword)
  | symbol (mark : Symbol)
  | concat
  | indent (depth : Nat)
  | name (value : String) (quoted : Bool)
  | int (value : Int64)
  | float (value : Number.Binary64)
  | string (value : String)
  | bool (value : Bool)
  | null
  | function (name : String)
  deriving DecidableEq, Repr

/-- Words that stand for themselves only in quotes. -/
def reservedWords : List String :=
  ["all", "and", "as", "asc", "between", "by", "case", "cross", "desc", "distinct", "else", "end",
    "from", "full", "group", "having", "in", "inner", "is", "join", "left", "like", "limit", "not",
    "null", "offset", "on", "or", "order", "outer", "right", "select", "table", "then", "union",
    "user", "when", "where", "with"]

/-- A letter of ASCII or an underscore, and then letters, digits and underscores of ASCII. -/
def isBareIdentifier : List Char → Bool
  | [] => false
  | c :: rest => (c.isAlpha || c == '_') && rest.all fun d => d.isAlphanum || d == '_'

/-- Whether an identifier has to be quoted. -/
def needsQuoting (identifier : String) : Bool :=
  !isBareIdentifier identifier.toList || reservedWords.contains (Text.asciiLower identifier)

/-- The token in a dialect. A float that is not finite has no literal and is written as a missing
value. -/
def Token.text (dialect : Dialect) : Token → String
  | .keyword word => word.text
  | .symbol mark => mark.text
  | .concat => dialect.concatOperator
  | .indent depth => String.ofList (List.replicate (2 * depth) ' ')
  | .name value quoted =>
    if quoted || needsQuoting value then dialect.quoteIdentifier value else value
  | .int value => Number.intText value.toInt
  | .float value => if value.isFinite then value.text else "NULL"
  | .string value => dialect.quoteString value
  | .bool value => dialect.booleanText value
  | .null => dialect.nullText
  | .function called => dialect.functionText called

/-- Tokens one after the other. -/
abbrev Tokens := List Token

/-- The text of tokens one after the other. -/
def Tokens.text (dialect : Dialect) (tokens : Tokens) : String :=
  String.join (tokens.map (Token.text dialect))

/-- A blank between two tokens. -/
def space : Token := .symbol .space

/-- Lists of tokens with a comma and a blank between them. -/
def commaSeparated : List Tokens → Tokens
  | [] => []
  | [item] => item
  | item :: rest => item ++ .symbol .comma :: space :: commaSeparated rest

/-- The clause that counts off rows. -/
def pagination (dialect : Dialect) (limit offset : Option UInt64) : Tokens :=
  let count (n : UInt64) : Token := .int n.toInt64
  if dialect.paginatesByFetch then
    [.keyword .offset, space, count (offset.getD 0), space, .keyword .rows] ++
      match limit with
      | none => []
      | some n =>
        [space, .keyword .fetch, space, .keyword .next, space, count n, space, .keyword .rows,
          space, .keyword .only]
  else
    let limitPart : Tokens :=
      match limit with
      | none => []
      | some n => [.keyword .limit, space, count n]
    let offsetPart : Tokens :=
      match offset with
      | none => []
      | some n => [.keyword .offset, space, count n]
    limitPart ++ (if limit.isSome && offset.isSome then [space] else []) ++ offsetPart

/-- The ordering of rows that have none: `ORDER BY (SELECT NULL)`. -/
def noOrder : Tokens :=
  [.keyword .orderBy, space, .symbol .leftParen, .keyword .select, space, .null,
    .symbol .rightParen]

end SemanticLayer.Sql
