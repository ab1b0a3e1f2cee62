import SemanticLayer.Grammar.Kind
import SemanticLayer.Document.Basic

/-!
# Parse trees as documents

The view of a parse tree in which permissions are checked: every construct is a field named for its
kind. Fields stand in the order of their names, so the order of the document is not that of the
text.
-/

namespace SemanticLayer.Grammar

open Sql (Name Path)

namespace View

/-- A node: a field named for a kind, with fields in it. -/
def node (kind : String) (fields : Document.Fields) : Document :=
  .single kind (.object fields)

/-- A text that may be missing. -/
def text? (text : Option String) : Document :=
  (text.map Document.string).getD .null

/-- An identifier. -/
def name (name : Name) : Document :=
  .object
    [("quote_style", text? (name.quote.map String.singleton)), ("value", .string name.value)]

/-- A list of identifiers. -/
def names (names : List Name) : Document :=
  .array (names.map name)

/-- The alias of a table. -/
def tableAlias : Option TableAlias → Document
  | some label =>
    .object
      [("columns", .array (label.columns.map fun column =>
          .object [("data_type", .null), ("name", name column)])),
        ("name", name label.name)]
  | none => .null

/-- A literal value. -/
def value : Value → Document
  | .number digits => .single "Number" (.array [.string digits, .bool false])
  | .string text => .single "SingleQuotedString" (.string text)
  | .boolean truth => .single "Boolean" (.bool truth)
  | .null => .string "Null"
  | .marked kind text => .single kind.kind (.string text)

/-- Whether a kind of join takes no condition. -/
def joinsFreely : JoinOperator → Bool
  | .cross | .crossApply | .outerApply => true
  | _ => false

/-- How a join is made: which rows it matches, and where `nearby` by what condition it finds the
nearest row. -/
def joinOperator (operator : JoinOperator) (stated nearby : Bool) (matching nearest : Document) :
    Document :=
  if nearby then node operator.kind [("constraint", matching), ("match_condition", nearest)]
  else if joinsFreely operator && !stated then .string operator.kind
  else .single operator.kind matching

/-- A list of names that a star leaves out, as it stands behind EXCEPT. -/
def exceptNames : List Name → Document
  | [] => .null
  | first :: rest =>
    .object [("additional_elements", names rest), ("first_element", name first)]

/-- A list of names that a star leaves out, as it stands behind EXCLUDE. -/
def excludeNames : List Name → Document
  | [] => .null
  | [single] => .single "Single" (name single)
  | several => .single "Multiple" (names several)

/-- What changes the meaning of a star. -/
def wildcardOptions (options : WildcardOptions) : Document :=
  .object
    [("opt_except", exceptNames options.except),
      ("opt_exclude", excludeNames options.exclude),
      ("opt_ilike", (options.ilike.map fun pattern =>
          Document.object [("pattern", .string pattern)]).getD .null),
      ("opt_rename",
        if options.rename.isEmpty then .null
        else .single "Multiple" (.array (options.rename.map fun (old, new) =>
            .object [("alias", name new), ("ident", name old)]))),
      ("opt_replace", .null)]

/-- How missing values are treated. -/
def nullTreatment : Option NullTreatment → Document
  | some .ignore => .string "IgnoreNulls"
  | some .respect => .string "RespectNulls"
  | none => .null

/-- Whether duplicates count. -/
def duplicates : Option Duplicates → Document
  | some .all => .string "All"
  | some .distinct => .string "Distinct"
  | none => .null

/-- A truth value that may be missing. -/
def bool? : Option Bool → Document
  | some truth => .bool truth
  | none => .null

/-- Which rows FETCH takes. -/
def fetch : Option Fetch → Document
  | some fetch =>
    .object
      [("percent", .bool fetch.percent),
        ("quantity", (fetch.quantity.map fun quantity =>
            Document.single "Value" (value quantity)).getD .null),
        ("with_ties", .bool fetch.withTies)]
  | none => .null

/-- Where the rows of a SELECT go. -/
def into : Option ObjectName → Document
  | some table => .object [("name", names table.parts)]
  | none => .null

/-- The table that rows are put into. -/
def tableName : Option ObjectName → Document
  | some table => names table.parts
  | none => .null

/-- Operands under the names they have, and in one list those that have none. -/
def operandFields : List String → List Document → Document.Fields
  | _, [] => []
  | [], operands => [("operands", .array operands)]
  | name :: names, operand :: operands => (name, operand) :: operandFields names operands

mutual

/-- An expression. -/
def expr : Expr → Document
  | .identifier column => .single "Identifier" (name column)
  | .compound owner column => .single "CompoundIdentifier" (names (owner :: column.parts))
  | .value literal => .single "Value" (value literal)
  | .binary left op right =>
    node "BinaryOp"
      [("left", expr left), ("op", .string op.kind), ("right", expr right)]
  | .unary op operand =>
    node "UnaryOp" [("expr", expr operand), ("op", .string op.kind)]
  | .nested inner => .single "Nested" (expr inner)
  | .tuple items => .single "Tuple" (.array (exprs items))
  | .isNull subject => .single "IsNull" (expr subject)
  | .isNotNull subject => .single "IsNotNull" (expr subject)
  | .test truth subject => .single truth.kind (expr subject)
  | .comparison distinct left right => .single distinct.kind (.array [expr left, expr right])
  | .pattern op negated any subject pattern escape =>
    node op.kind
      [("any", .bool any), ("escape_char", text? escape), ("expr", expr subject),
        ("negated", .bool negated), ("pattern", expr pattern)]
  | .inList subject items negated =>
    node "InList"
      [("expr", expr subject), ("list", .array (exprs items)), ("negated", .bool negated)]
  | .inSubquery subject inner negated =>
    node "InSubquery"
      [("expr", expr subject), ("negated", .bool negated), ("subquery", query inner)]
  | .between subject low high negated =>
    node "Between"
      [("expr", expr subject), ("high", expr high), ("low", expr low),
        ("negated", .bool negated)]
  | .case operand conditions results otherwise =>
    node "Case"
      [("conditions", .array (exprs conditions)), ("else_result", expr? otherwise),
        ("operand", expr? operand), ("results", .array (exprs results))]
  | .call inner => .single "Function" (call inner)
  | .exists inner negated =>
    node "Exists" [("negated", .bool negated), ("subquery", query inner)]
  | .subquery inner => .single "Subquery" (query inner)
  | .grouping sets items => .single sets.kind (.array (rows items))
  | .special construct operands =>
    node construct.kind (operandFields construct.operandNames (rows operands))

/-- Several expressions. -/
def exprs : List Expr → List Document
  | [] => []
  | first :: rest => expr first :: exprs rest

/-- An expression that may be missing. -/
def expr? : Option Expr → Document
  | some found => expr found
  | none => .null

/-- Several expressions, with the list of what stands in parentheses for one in parentheses. -/
def rows : List Expr → List Document
  | [] => []
  | .tuple items :: rest => .array (exprs items) :: rows rest
  | first :: rest => expr first :: rows rest

/-- A call of a function. -/
def call : Call → Document
  | ⟨called, parameters, given, withinGroup, filter, treatment, window⟩ =>
    .object
      [("args", callArguments given),
        ("filter", expr? filter),
        ("name", names called.parts),
        ("null_treatment", nullTreatment treatment),
        ("over", expr? window),
        ("parameters", callArguments parameters),
        ("uses_odbc_syntax", .bool false),
        ("within_group", .array (orderings withinGroup))]

/-- What stands between the parentheses of a call. -/
def callArguments : Option Arguments → Document
  | none => .string "None"
  | some (.query inner) => .single "Subquery" (query inner)
  | some (.list repeated items orderBy limit bound clauses) =>
    node "List"
      [("args", .array (arguments items)),
        ("clauses", .array
          ((if orderBy.isEmpty then [] else [.single "OrderBy" (.array (orderings orderBy))]) ++
            [.single "Limit" (expr? limit), .single "Having" (expr? bound)] ++
              clauses.map Document.string)),
        ("duplicate_treatment", duplicates repeated)]

/-- An argument of a call. -/
def argument : Argument → Document
  | .expr found => .single "Unnamed" (.single "Expr" (expr found))
  | .wildcard => .single "Unnamed" (.string "Wildcard")
  | .qualifiedWildcard path => .single "Unnamed" (.single "QualifiedWildcard" (names path))
  | .named label inner =>
    node "Named" [("arg", argument inner), ("name", name label)]

/-- Several arguments. -/
def arguments : List Argument → List Document
  | [] => []
  | first :: rest => argument first :: arguments rest

/-- An entry of ORDER BY. -/
def ordering : Ordering → Document
  | ⟨key, ascending, nullsFirst⟩ =>
    .object
      [("asc", bool? ascending), ("expr", expr key), ("nulls_first", bool? nullsFirst),
        ("with_fill", .null)]

/-- Several entries of ORDER BY. -/
def orderings : List Ordering → List Document
  | [] => []
  | first :: rest => ordering first :: orderings rest

/-- A query. -/
def query : Query → Document
  | ⟨recursive, named, source, orderBy, limit, limitBy, offset, fetched, locks, format⟩ =>
    .object
      [("body", body source),
        ("fetch", fetch fetched),
        ("for_clause", .null),
        ("format_clause", (format.map fun found =>
            Document.single "Identifier" (name found)).getD .null),
        ("limit", expr? limit),
        ("limit_by", .array (exprs limitBy)),
        ("locks", .array (locks.map Document.string)),
        ("offset", offsetClause offset),
        ("order_by",
          if orderBy.isEmpty then .null
          else .object [("exprs", .array (orderings orderBy)), ("interpolate", .null)]),
        ("settings", .null),
        ("with",
          if named.isEmpty then .null
          else .object [("cte_tables", .array (ctes named)), ("recursive", .bool recursive)])]

/-- An OFFSET clause. -/
def offsetClause : Option Expr → Document
  | some count => .object [("rows", .string "None"), ("value", expr count)]
  | none => .null

/-- A named query. -/
def cte : Cte → Document
  | ⟨label, inner, source⟩ =>
    .object
      [("alias", tableAlias (some label)),
        ("from", (source.map name).getD .null),
        ("materialized", .null),
        ("query", query inner)]

/-- Several named queries. -/
def ctes : List Cte → List Document
  | [] => []
  | first :: rest => cte first :: ctes rest

/-- Where the rows of a query come from. -/
def body : Body → Document
  | .select inner => .single "Select" (select inner)
  | .query inner => .single "Query" (query inner)
  | .combined left op quantifier right =>
    node "SetOperation"
      [("left", body left), ("op", .string op.kind), ("right", body right),
        ("set_quantifier", .string quantifier)]
  | .values items => node "Values" [("explicit_row", .bool false), ("rows", .array (rows items))]
  | .table table =>
    node "Table"
      [("schema_name", text? ((table.scope.map Name.value).getLast?)),
        ("table_name", .string table.last.value)]
  | .change found target tables operands returned =>
    node found.kind
      [("from", .array (sources tables)), ("operands", .array (rows operands)),
        ("returning", .array (items returned)), ("table_name", tableName target)]

/-- Which rows a SELECT keeps apart. -/
def distinct : Distinct → Document
  | .all => .null
  | .distinct => .string "Distinct"
  | .on keys => .single "On" (.array (exprs keys))

/-- The clauses of a SELECT. -/
def select : Select → Document
  | ⟨kept, top, _, projection, target, tables, prewhere, filter, groups, groupModifiers,
      clusterBy, distributeBy, sortBy, having, windows, qualify⟩ =>
    .object
      [("cluster_by", .array (exprs clusterBy)),
        ("connect_by", .null),
        ("distinct", distinct kept),
        ("distribute_by", .array (exprs distributeBy)),
        ("from", .array (sources tables)),
        ("group_by", groupBy groupModifiers groups),
        ("having", expr? having),
        ("into", into target),
        ("lateral_views", .array []),
        ("named_window", .array (exprs windows)),
        ("prewhere", expr? prewhere),
        ("projection", .array (items projection)),
        ("qualify", expr? qualify),
        ("selection", expr? filter),
        ("sort_by", .array (exprs sortBy)),
        ("top", expr? top),
        ("value_table_mode", .null)]

/-- How the rows of a SELECT are grouped. -/
def groupBy (modifiers : List String) : Option (List Expr) → Document
  | some keys =>
    .single "Expressions" (.array [.array (exprs keys), .array (modifiers.map Document.string)])
  | none => .single "All" (.array (modifiers.map Document.string))

/-- An entry of a projection. -/
def item : SelectItem → Document
  | .unnamed found => .single "UnnamedExpr" (expr found)
  | .aliased found label => node "ExprWithAlias" [("alias", name label), ("expr", expr found)]
  | .wildcard options => .single "Wildcard" (wildcardOptions options)
  | .qualifiedWildcard path options =>
    .single "QualifiedWildcard" (.array [names path, wildcardOptions options])

/-- Several entries of a projection. -/
def items : List SelectItem → List Document
  | [] => []
  | first :: rest => item first :: items rest

/-- An entry of FROM. -/
def source : TableWithJoins → Document
  | ⟨relation, joined⟩ =>
    .object [("joins", .array (joins joined)), ("relation", factor relation)]

/-- Several entries of FROM. -/
def sources : List TableWithJoins → List Document
  | [] => []
  | first :: rest => source first :: sources rest

/-- What may stand for a table. -/
def factor : TableFactor → Document
  | .table table label items hints partitions =>
    node "Table"
      [("alias", tableAlias label),
        ("args", tableArguments items),
        ("json_path", .null),
        ("name", names table.parts),
        ("partitions", names partitions),
        ("version", .null),
        ("with_hints", .array (exprs hints)),
        ("with_ordinality", .bool false)]
  | .derived lateral inner label =>
    node "Derived"
      [("alias", tableAlias label), ("lateral", .bool lateral), ("subquery", query inner)]
  | .nestedJoin inner label =>
    node "NestedJoin" [("alias", tableAlias label), ("table_with_joins", source inner)]
  | .function called items label =>
    node "Function"
      [("alias", tableAlias label), ("args", .array (arguments items)), ("lateral", .bool true),
        ("name", names called.parts)]
  | .unnest arrays label =>
    node "UNNEST" [("alias", tableAlias label), ("array_exprs", .array (exprs arrays))]
  | .tableFunction inner label =>
    node "TableFunction" [("alias", tableAlias label), ("expr", expr inner)]

/-- The arguments of a table that is a call. -/
def tableArguments : Option (List Argument) → Document
  | some items => .object [("args", .array (arguments items)), ("settings", .null)]
  | none => .null

/-- A join. Its condition stands in front of the table that is joined. -/
def join : Join → Document
  | ⟨operator, relation, agreed, nearest⟩ =>
    .object
      [("global", .bool false),
        ("join_operator",
          joinOperator operator agreed.isSome nearest.isSome (matching agreed) (expr? nearest)),
        ("relation", factor relation)]

/-- Which rows a join matches. -/
def matching : Option Matching → Document
  | some (.on condition) => .single "On" (expr condition)
  | some (.using columns) => .single "Using" (names columns)
  | some .natural => .string "Natural"
  | none => .string "None"

/-- Several joins. -/
def joins : List Join → List Document
  | [] => []
  | first :: rest => join first :: joins rest

end

/-- A statement. -/
def statement : Statement → Document
  | .query inner => .single "Query" (query inner)
  | .other _ (some change) => body change
  | .other keyword none => .single keyword .null

/-- The statements of a text. -/
def statements (all : List Statement) : Document :=
  .array (all.map statement)

end View
end SemanticLayer.Grammar
