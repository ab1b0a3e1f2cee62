import SemanticLayer.Grammar.Lexeme
import SemanticLayer.Sql.Name

/-!
# Parse trees

What a grammar makes of SQL text, clause by clause. A construct that nothing in the library
computes with is kept by the name of its kind and its operands, so that a tree still shows every
expression and every table that the text holds.
-/

namespace SemanticLayer.Grammar

open Sql (Name Path)

/-- A dotted name: the identifiers in front of the last one, and the last one. -/
structure ObjectName where
  scope : Path := []
  last : Name
  deriving DecidableEq, Repr

/-- The identifiers of a dotted name. -/
def ObjectName.parts (name : ObjectName) : Path :=
  name.scope ++ [name.last]

/-- A literal value. -/
inductive Value where
  | number (text : String)
  | string (text : String)
  | boolean (value : Bool)
  | null
  | marked (kind : LiteralKind) (text : String)
  deriving DecidableEq, Repr

/-- An operator between two operands. -/
inductive Operator where
  | eq
  | notEq
  | lt
  | gt
  | ltEq
  | gtEq
  | and
  | or
  | plus
  | minus
  | multiply
  | divide
  | modulo
  | concat
  | other (kind : String)
  deriving DecidableEq, Repr

/-- An operator with one operand. -/
inductive UnaryOperator where
  | not
  | minus
  | plus
  | other (kind : String)
  deriving DecidableEq, Repr

/-- The operators that match text against a pattern. -/
inductive PatternOperator where
  | like
  | iLike
  | similarTo
  | rLike
  deriving DecidableEq, Repr

/-- An alias of a table, with names for its columns. -/
structure TableAlias where
  name : Name
  columns : List Name := []
  deriving DecidableEq, Repr

/-- Which rows FETCH takes. -/
structure Fetch where
  quantity : Option Value := none
  percent : Bool := false
  withTies : Bool := false
  deriving DecidableEq, Repr

/-- What a star in a projection leaves out and renames. -/
structure WildcardOptions where
  ilike : Option String := none
  exclude : List Name := []
  except : List Name := []
  rename : List (Name × Name) := []
  deriving DecidableEq, Repr

/-- Whether duplicates count. -/
inductive Duplicates where
  | all
  | distinct
  deriving DecidableEq, Repr

/-- How missing values are treated. -/
inductive NullTreatment where
  | ignore
  | respect
  deriving DecidableEq, Repr

/-- How two row sets are combined. -/
inductive SetOperator where
  | union
  | except
  | intersect
  deriving DecidableEq, Repr

/-- How a table is joined. -/
inductive JoinOperator where
  | inner
  | left
  | right
  | full
  | cross
  | leftSemi
  | leftAnti
  | rightSemi
  | rightAnti
  | semi
  | anti
  | asOf
  | crossApply
  | outerApply
  deriving DecidableEq, Repr

/-- A test for a truth value. -/
inductive TruthTest where
  | isTrue
  | isNotTrue
  | isFalse
  | isNotFalse
  | isUnknown
  | isNotUnknown
  deriving DecidableEq, Repr

/-- A comparison in which missing values are equal. -/
inductive DistinctTest where
  | isDistinctFrom
  | isNotDistinctFrom
  deriving DecidableEq, Repr

/-- How a GROUP BY lists several groupings. -/
inductive GroupingKind where
  | groupingSets
  | cube
  | rollup
  deriving DecidableEq, Repr

/-- How tables are changed. -/
inductive ChangeKind where
  | insert
  | update
  | delete
  deriving DecidableEq, Repr

/-- A construct of which nothing but its operands is of interest. A mark tells of an operand that
may be missing whether it is there. -/
inductive Construct where
  | windowSpec
  | namedWindow
  | interval
  | typedString
  | introducedString
  | cast
  | convert (styled : Bool)
  | extract
  | ceil
  | floor
  | position
  | substring (counted started : Bool)
  | overlay (counted : Bool)
  | trim
  | trimWhat
  | trimCharacters
  | matchAgainst
  | array
  | named
  | struct
  | dictionary
  | map
  | compositeAccess
  | collate
  | atTimeZone
  | inUnnest
  | allOp
  | anyOp
  | subscript (bounded ended : Bool)
  deriving DecidableEq, Repr

mutual

/-- An expression. A construct of no interest is kept as `special`, with its operands in the order of
their names. A compound name has an identifier in front of it at least. -/
inductive Expr where
  | identifier (name : Name)
  | compound (owner : Name) (name : ObjectName)
  | value (value : Value)
  | binary (left : Expr) (op : Operator) (right : Expr)
  | unary (op : UnaryOperator) (operand : Expr)
  | nested (inner : Expr)
  | tuple (items : List Expr)
  | isNull (subject : Expr)
  | isNotNull (subject : Expr)
  | test (kind : TruthTest) (subject : Expr)
  | comparison (kind : DistinctTest) (left right : Expr)
  | pattern (op : PatternOperator) (negated any : Bool) (subject pattern : Expr)
      (escape : Option String)
  | inList (subject : Expr) (items : List Expr) (negated : Bool)
  | inSubquery (subject : Expr) (query : Query) (negated : Bool)
  | between (subject low high : Expr) (negated : Bool)
  | case (operand : Option Expr) (conditions results : List Expr) (otherwise : Option Expr)
  | call (call : Call)
  | exists (query : Query) (negated : Bool)
  | subquery (query : Query)
  | grouping (kind : GroupingKind) (sets : List Expr)
  | special (construct : Construct) (operands : List Expr)

/-- A call of a function. Without parentheses it has no arguments. -/
structure Call where
  name : ObjectName
  parameters : Option Arguments := none
  arguments : Option Arguments := none
  withinGroup : List Ordering := []
  filter : Option Expr := none
  nullTreatment : Option NullTreatment := none
  window : Option Expr := none

/-- What stands between the parentheses of a call: a query, or a list with clauses. -/
inductive Arguments where
  | query (query : Query)
  | list (duplicates : Option Duplicates) (items : List Argument) (orderBy : List Ordering)
      (limit bound : Option Expr) (clauses : List String)

/-- An argument of a call. -/
inductive Argument where
  | expr (expr : Expr)
  | wildcard
  | qualifiedWildcard (path : Path)
  | named (name : Name) (argument : Argument)

/-- One entry of ORDER BY. -/
structure Ordering where
  expr : Expr
  ascending : Option Bool := none
  nullsFirst : Option Bool := none

/-- A query with the clauses that apply to its rows. -/
structure Query where
  recursive : Bool := false
  ctes : List Cte := []
  body : Body
  orderBy : List Ordering := []
  limit : Option Expr := none
  limitBy : List Expr := []
  offset : Option Expr := none
  fetch : Option Fetch := none
  locks : List String := []
  format : Option Name := none

/-- A named query of a WITH clause. -/
structure Cte where
  label : TableAlias
  query : Query
  source : Option Name := none

/-- Where the rows of a query come from. -/
inductive Body where
  | select (select : Select)
  | query (query : Query)
  | combined (left : Body) (op : SetOperator) (quantifier : String) (right : Body)
  | values (rows : List Expr)
  | table (name : ObjectName)
  | change (kind : ChangeKind) (target : Option ObjectName) (tables : List TableWithJoins)
      (operands : List Expr) (returned : List SelectItem)

/-- Which rows a SELECT keeps apart. -/
inductive Distinct where
  | all
  | distinct
  | on (keys : List Expr)

/-- The clauses of a SELECT. One that is grouped by all its columns has no list of groupings. -/
structure Select where
  distinct : Distinct
  top : Option Expr := none
  topMarks : List String := []
  projection : List SelectItem
  into : Option ObjectName := none
  sources : List TableWithJoins := []
  prewhere : Option Expr := none
  filter : Option Expr := none
  groupBy : Option (List Expr) := some []
  groupModifiers : List String := []
  clusterBy : List Expr := []
  distributeBy : List Expr := []
  sortBy : List Expr := []
  having : Option Expr := none
  windows : List Expr := []
  qualify : Option Expr := none

/-- One entry of a projection. -/
inductive SelectItem where
  | unnamed (expr : Expr)
  | aliased (expr : Expr) (label : Name)
  | wildcard (options : WildcardOptions)
  | qualifiedWildcard (path : Path) (options : WildcardOptions)

/-- One entry of FROM: a table with the joins chained onto it. -/
structure TableWithJoins where
  relation : TableFactor
  joins : List Join := []

/-- What may stand for a table. -/
inductive TableFactor where
  | table (name : ObjectName) (label : Option TableAlias) (arguments : Option (List Argument))
      (hints : List Expr) (partitions : List Name)
  | derived (lateral : Bool) (query : Query) (label : Option TableAlias)
  | nestedJoin (inner : TableWithJoins) (label : Option TableAlias)
  | function (name : ObjectName) (arguments : List Argument) (label : Option TableAlias)
  | unnest (arrays : List Expr) (label : Option TableAlias)
  | tableFunction (expr : Expr) (label : Option TableAlias)

/-- Which rows of two tables a join matches. -/
inductive Matching where
  | on (condition : Expr)
  | using (columns : List Name)
  | natural

/-- A table joined to the ones before it. A join with the nearest row has a condition for it. -/
structure Join where
  operator : JoinOperator
  relation : TableFactor
  matching : Option Matching := none
  nearest : Option Expr := none

end

/-- A statement: a query, or another one known by the word it is written with; of a change of
tables what it says is kept, and of what holds a query the query. -/
inductive Statement where
  | query (query : Query)
  | other (keyword : String) (change : Option Body)

/-- The clauses behind the arguments of a call. -/
def Arguments.clauses : Arguments → List String
  | .query _ => []
  | .list _ _ _ _ _ clauses => clauses

/-- The statement as a query, if it is one. -/
def Statement.query? : Statement → Option Query
  | .query found => some found
  | .other _ _ => none

end SemanticLayer.Grammar
