import SemanticLayer.Grammar.Tree

/-!
# Kinds of constructs

Every construct of a parse tree has a kind, which documents use as the name of a field and messages
use to say what is not supported.
-/

namespace SemanticLayer.Grammar

/-- The kind of a literal that is no plain string. -/
def LiteralKind.kind : LiteralKind → String
  | .national => "NationalStringLiteral"
  | .hex => "HexStringLiteral"
  | .doubleQuoted => "DoubleQuotedString"
  | .escaped => "EscapedStringLiteral"
  | .unicode => "UnicodeStringLiteral"
  | .byte => "SingleQuotedByteStringLiteral"
  | .doubleQuotedByte => "DoubleQuotedByteStringLiteral"
  | .raw => "SingleQuotedRawStringLiteral"
  | .doubleQuotedRaw => "DoubleQuotedRawStringLiteral"
  | .dollarQuoted => "DollarQuotedString"
  | .placeholder => "Placeholder"

/-- The kind of a literal value. -/
def Value.kind : Value → String
  | .number _ => "Number"
  | .string _ => "SingleQuotedString"
  | .boolean _ => "Boolean"
  | .null => "Null"
  | .marked literal _ => literal.kind

/-- The kind of an operator. -/
def Operator.kind : Operator → String
  | .eq => "Eq"
  | .notEq => "NotEq"
  | .lt => "Lt"
  | .gt => "Gt"
  | .ltEq => "LtEq"
  | .gtEq => "GtEq"
  | .and => "And"
  | .or => "Or"
  | .plus => "Plus"
  | .minus => "Minus"
  | .multiply => "Multiply"
  | .divide => "Divide"
  | .modulo => "Modulo"
  | .concat => "StringConcat"
  | .other name => name

/-- The kind of an operator with one operand. -/
def UnaryOperator.kind : UnaryOperator → String
  | .not => "Not"
  | .minus => "Minus"
  | .plus => "Plus"
  | .other name => name

/-- The kind of an operator for patterns. -/
def PatternOperator.kind : PatternOperator → String
  | .like => "Like"
  | .iLike => "ILike"
  | .similarTo => "SimilarTo"
  | .rLike => "RLike"

/-- The kind of an operator on row sets. -/
def SetOperator.kind : SetOperator → String
  | .union => "Union"
  | .except => "Except"
  | .intersect => "Intersect"

/-- The kind of a join. -/
def JoinOperator.kind : JoinOperator → String
  | .inner => "Inner"
  | .left => "LeftOuter"
  | .right => "RightOuter"
  | .full => "FullOuter"
  | .cross => "CrossJoin"
  | .leftSemi => "LeftSemi"
  | .leftAnti => "LeftAnti"
  | .rightSemi => "RightSemi"
  | .rightAnti => "RightAnti"
  | .semi => "Semi"
  | .anti => "Anti"
  | .asOf => "AsOf"
  | .crossApply => "CrossApply"
  | .outerApply => "OuterApply"

/-- The kind of a test for a truth value. -/
def TruthTest.kind : TruthTest → String
  | .isTrue => "IsTrue"
  | .isNotTrue => "IsNotTrue"
  | .isFalse => "IsFalse"
  | .isNotFalse => "IsNotFalse"
  | .isUnknown => "IsUnknown"
  | .isNotUnknown => "IsNotUnknown"

/-- The kind of a comparison in which missing values are equal. -/
def DistinctTest.kind : DistinctTest → String
  | .isDistinctFrom => "IsDistinctFrom"
  | .isNotDistinctFrom => "IsNotDistinctFrom"

/-- The kind of a list of groupings. -/
def GroupingKind.kind : GroupingKind → String
  | .groupingSets => "GroupingSets"
  | .cube => "Cube"
  | .rollup => "Rollup"

/-- The kind of a change of tables. -/
def ChangeKind.kind : ChangeKind → String
  | .insert => "Insert"
  | .update => "Update"
  | .delete => "Delete"

/-- The kind of a construct. -/
def Construct.kind : Construct → String
  | .windowSpec => "WindowSpec"
  | .namedWindow => "NamedWindow"
  | .interval => "Interval"
  | .typedString => "TypedString"
  | .introducedString => "IntroducedString"
  | .cast => "Cast"
  | .convert _ => "Convert"
  | .extract => "Extract"
  | .ceil => "Ceil"
  | .floor => "Floor"
  | .position => "Position"
  | .substring _ _ => "Substring"
  | .overlay _ => "Overlay"
  | .trim | .trimWhat | .trimCharacters => "Trim"
  | .matchAgainst => "MatchAgainst"
  | .array => "Array"
  | .named => "Named"
  | .struct => "Struct"
  | .dictionary => "Dictionary"
  | .map => "Map"
  | .compositeAccess => "CompositeAccess"
  | .collate => "Collate"
  | .atTimeZone => "AtTimeZone"
  | .inUnnest => "InUnnest"
  | .allOp => "AllOp"
  | .anyOp => "AnyOp"
  | .subscript _ _ => "Subscript"

/-- The names of the operands of a construct. -/
def Construct.operandNames : Construct → List String
  | .windowSpec => ["order_by", "partition_by", "window_frame"]
  | .namedWindow | .typedString | .introducedString | .matchAgainst => []
  | .interval => ["value"]
  | .cast | .extract | .ceil | .floor | .named | .compositeAccess | .collate | .trim => ["expr"]
  | .convert styled => if styled then ["expr", "styles"] else ["expr"]
  | .position => ["expr", "in"]
  | .substring counted started =>
    "expr" :: (if counted then ["substring_for"] else []) ++
      if started then ["substring_from"] else []
  | .overlay counted =>
    "expr" :: (if counted then ["overlay_for"] else []) ++ ["overlay_from", "overlay_what"]
  | .trimWhat => ["expr", "trim_what"]
  | .trimCharacters => ["expr", "trim_characters"]
  | .array => ["elem"]
  | .struct => ["values"]
  | .dictionary | .map => ["entries"]
  | .atTimeZone => ["time_zone", "timestamp"]
  | .inUnnest => ["array_expr", "expr"]
  | .allOp | .anyOp => ["left", "right"]
  | .subscript bounded ended =>
    "expr" :: (if bounded then ["lower"] else []) ++ if ended then ["upper"] else []

/-- The kind of an expression. -/
def Expr.kind : Expr → String
  | .identifier _ => "Identifier"
  | .compound _ _ => "CompoundIdentifier"
  | .value _ => "Value"
  | .binary _ _ _ => "BinaryOp"
  | .unary _ _ => "UnaryOp"
  | .nested _ => "Nested"
  | .tuple _ => "Tuple"
  | .isNull _ => "IsNull"
  | .isNotNull _ => "IsNotNull"
  | .test truth _ => truth.kind
  | .comparison distinct _ _ => distinct.kind
  | .pattern op _ _ _ _ _ => op.kind
  | .inList _ _ _ => "InList"
  | .inSubquery _ _ _ => "InSubquery"
  | .between _ _ _ _ => "Between"
  | .case _ _ _ _ => "Case"
  | .call _ => "Function"
  | .exists _ _ => "Exists"
  | .subquery _ => "Subquery"
  | .grouping sets _ => sets.kind
  | .special construct _ => construct.kind

/-- The kind of a row set. -/
def Body.kind : Body → String
  | .select _ => "Select"
  | .query _ => "Query"
  | .combined _ _ _ _ => "SetOperation"
  | .values _ => "Values"
  | .table _ => "Table"
  | .change found _ _ _ _ => found.kind

/-- The kind of what stands for a table. -/
def TableFactor.kind : TableFactor → String
  | .table _ _ _ _ _ => "Table"
  | .derived _ _ _ => "Derived"
  | .nestedJoin _ _ => "NestedJoin"
  | .function _ _ _ => "Function"
  | .unnest _ _ => "UNNEST"
  | .tableFunction _ _ => "TableFunction"

end SemanticLayer.Grammar
