import SemanticLayer.Proofs.Magnitudes
import SemanticLayer.Proofs.Requests
import SemanticLayer.Proofs.RoundTrip

/-!
# Conditions read back

Filters are put behind the condition of a query, one AND after the other, with parentheses around a
condition that is an OR. The text that this makes is read as just that: no operator of the condition
takes a filter for a part of an operand, and no filter takes anything of the condition. A negative
number is read as a minus sign in front of a number.
-/

namespace SemanticLayer

namespace Sql

open Tokens (Opens Unhyphenated)

/-! ## What filters mean -/

/-- A literal as it is read: a negative number is a minus sign in front of a number. -/
def Literal.readBack : Literal → Expr
  | int value =>
    if value.toInt < 0 then .unary .minus (.literal (.int (-value))) else .literal (.int value)
  | float value =>
    if value.isNegative then .unary .minus (.literal (.float value.magnitude))
    else .literal (.float value)
  | other => .literal other

/-- Whether a literal is written as one that is read: a number of 64 bits is not the least one,
whose magnitude is none, and a decimal is read as the number it was written for. -/
def Literal.IsLegible : Literal → Prop
  | int value => value ≠ Int64.minValue
  | float value => ReadsAgain value.magnitude
  | _ => True

/-- Whether the operator on top of an expression is an OR. -/
def Expr.isDisjunction : Expr → Bool
  | .binary _ .or _ => true
  | _ => false

/-- An expression as the first part of a conjunction: an OR stands in parentheses. -/
def Expr.asConjunct (expr : Expr) : Expr :=
  if expr.isDisjunction then .nested expr else expr

/-- Expressions behind a condition with an AND in front of each, from the left. -/
def Expr.andAll (condition : Expr) (others : List Expr) : Expr :=
  others.foldl (fun all other => .binary all .and other) condition

/-- The conjunction of a condition, if there is one, and others. -/
def conjunction : Option Expr → List Expr → Option Expr
  | condition, [] => condition
  | none, first :: others => some (first.andAll others)
  | some condition, others => some (condition.asConjunct.andAll others)

/-- The query with another condition. -/
def Query.withFilter (query : Query) (filter : Option Expr) : Query :=
  { query with select := { query.select with filter } }

theorem Query.withFilter_self (query : Query) : query.withFilter query.select.filter = query := by
  obtain ⟨ctes, select⟩ := query
  cases select
  rfl

/-! ## Texts with other conditions -/

theorem Tokens.text_append (d : Dialect) (front back : Tokens) :
    Tokens.text d (front ++ back) = Tokens.text d front ++ Tokens.text d back := by
  induction front with
  | nil => simp [Tokens.text]
  | cons token front ih =>
      rw [List.cons_append, text_cons, text_cons, ih, String.append_assoc]

/-- A SELECT is written as its condition between what stands in front of it and behind it. -/
theorem Select.exists_tokens_filter (d : Dialect) (select : Select) :
    ∃ front back : Tokens, Opens back ∧ ∀ filter, { select with filter }.tokens d =
      front ++ (clause .whereWord (exprTokens? d filter).toList ++ back) := by
  refine ⟨.keyword .select :: (if select.distinct then [space, .keyword .distinct] else []) ++
      itemLines (exprsTokens d select.projection) ++
      clause .fromWord (sourcesTokens? d select.sources),
    clause .groupBy (exprsTokens d select.groupBy) ++
      clause .having (exprTokens? d select.having).toList ++
      ending d (orderingsTokens d select.orderBy) select.limit select.offset, ?_, fun filter => ?_⟩
  · exact .append (.append (opens_clause _ _) (opens_clause _ _)) (opens_ending _ _ _ _)
  · rw [Select.tokens]
    simp only [List.append_assoc]

/-- A query is written as its condition between what stands in front of it and behind it. -/
theorem Query.exists_tokens_withFilter (d : Dialect) (query : Query) :
    ∃ front back : Tokens, Opens back ∧ ∀ filter, (query.withFilter filter).tokens d =
      front ++ (clause .whereWord (exprTokens? d filter).toList ++ back) := by
  obtain ⟨front, back, opens, whole⟩ := Select.exists_tokens_filter d query.select
  cases named : ctesTokens d query.ctes with
  | nil =>
      refine ⟨front, back, opens, fun filter => ?_⟩
      rw [withFilter, Query.tokens, named, whole]
      rfl
  | cons token rest =>
      refine ⟨.keyword .withWord :: space :: (token :: rest) ++ [.symbol .newline] ++ front, back,
        opens, fun filter => ?_⟩
      rw [withFilter, Query.tokens, named, whole]
      simp only [List.append_assoc]

/-- Queries whose conditions are written alike are written alike. -/
theorem Query.text_withFilter {d : Dialect} {filter other : Option Expr}
    (same : filter.map (Expr.text d) = other.map (Expr.text d)) (query : Query) :
    (query.withFilter filter).text d = (query.withFilter other).text d := by
  obtain ⟨front, back, -, whole⟩ := query.exists_tokens_withFilter d
  have clauses : Tokens.text d (clause .whereWord (exprTokens? d filter).toList) =
      Tokens.text d (clause .whereWord (exprTokens? d other).toList) := by
    cases filter <;> cases other <;> simp only [Option.map_none, Option.map_some, reduceCtorEq,
      Option.some.injEq] at same
    · rfl
    · simp only [exprTokens?, Option.toList_some, clause, commaSeparated, Tokens.text_cons]
      rw [← Expr.text, ← Expr.text, same]
  rw [Query.text, Query.text, whole, whole]
  simp only [Tokens.text_append, clauses]

namespace Tokens.Unhyphenated

/-- Tokens in front of others that a symbol parts from them. -/
theorem append {front back : Tokens} (first : Unhyphenated front) (second : Unhyphenated back)
    (opens : Opens back) : Unhyphenated (front ++ back) := by
  refine List.isChain_append.mpr ⟨first, second, ?_⟩
  rintro _ - next found ⟨-, rfl⟩
  obtain rfl | ⟨mark, more, parts, rfl⟩ := opens
  · cases found
  · cases found
    cases parts

theorem of_append {front back : Tokens} (whole : Unhyphenated (front ++ back)) :
    Unhyphenated front ∧ Unhyphenated back := by
  obtain ⟨first, second, -⟩ := List.isChain_append.mp whole
  exact ⟨first, second⟩

/-- A token other than a minus sign in front of others. -/
theorem cons {token : Token} {rest : Tokens} (other : token ≠ .symbol .minus)
    (later : Unhyphenated rest) : Unhyphenated (token :: rest) := by
  refine List.isChain_cons.mpr ⟨?_, later⟩
  rintro _ - ⟨rfl, -⟩
  exact other rfl

theorem parenthesized {tokens : Tokens} (inner : Unhyphenated tokens) :
    Unhyphenated (parenthesized tokens) :=
  cons (by simp) (append inner (List.IsChain.singleton _) (.symbol .rightParen rfl []))

end Tokens.Unhyphenated

/-- No two minus signs meet in a query just if none meet in its condition and beside it. -/
theorem Query.unhyphenated_withFilter {d : Dialect} {query : Query} {filter : Expr}
    (unhyphenated : Unhyphenated (query.tokens d)) (inner : Unhyphenated (filter.tokens d)) :
    Unhyphenated ((query.withFilter (some filter)).tokens d) := by
  obtain ⟨front, back, opens, whole⟩ := query.exists_tokens_withFilter d
  rw [← query.withFilter_self, whole] at unhyphenated
  obtain ⟨first, later⟩ := unhyphenated.of_append
  obtain ⟨-, last⟩ := later.of_append
  rw [whole]
  refine first.append (.append ?_ last opens) (.append (opens_clause _ _) opens)
  exact .cons (by simp) (.cons (by simp) (.cons (by simp [space]) inner))

/-! ## Conditions that can be put together -/

namespace Expr

theorem isDisjunction_iff {op : BinaryOp} {left right : Expr} :
    (binary left op right).isDisjunction = true ↔ op = .or := by
  cases op <;> simp [isDisjunction]

theorem not_isDisjunction_of_loosest {expr : Expr} (tight : 5 < expr.loosest) :
    expr.isDisjunction = false := by
  cases expr with
  | binary left op right =>
      rw [Bool.eq_false_iff, ne_eq, isDisjunction_iff]
      rintro rfl
      exact absurd (lt_of_lt_of_le tight (Nat.min_le_right _ _)) (by decide)
  | _ => rfl

/-- What is no OR takes no AND behind it for a part of its last operand: whatever stands there binds
tighter than the operator in front of it. -/
theorem trailing_of_not_isDisjunction :
    (expr : Expr) → expr.Readable → expr.isDisjunction = false → 10 ≤ expr.trailing
  | .binary left op right, readable, other => by
      obtain ⟨⟨⟨-, -, tighter, -⟩, -⟩, -, inner⟩ := readable
      rw [Bool.eq_false_iff, ne_eq, isDisjunction_iff] at other
      have least : 10 ≤ op.grip := by cases op <;> first | exact absurd rfl other | decide
      have last := trailing_of_not_isDisjunction right inner
        (not_isDisjunction_of_loosest (by omega))
      exact Nat.le_min.2 ⟨least, last⟩
  | .unary op operand, readable, _ => by
      obtain ⟨⟨⟨-, tighter⟩, -⟩, inner⟩ := readable
      have least : 10 ≤ op.grip := by cases op <;> decide
      have last := trailing_of_not_isDisjunction operand inner
        (not_isDisjunction_of_loosest (by omega))
      exact Nat.le_min.2 ⟨least, last⟩
  | .between _ _ high _, readable, _ => by
      obtain ⟨⟨⟨-, -, -, tighter⟩, -⟩, -, -, inner⟩ := readable
      have last := trailing_of_not_isDisjunction high inner
        (not_isDisjunction_of_loosest (by omega))
      exact Nat.le_min.2 ⟨by decide, last⟩
  | .column _, _, _ | .literal _, _, _ | .wildcard _, _, _ | .call _ _ _ _, _, _
  | .case _ _ _ _, _, _ | .isNull _ _, _, _ | .inList _ _ _, _, _ | .aliased _ _, _, _
  | .nested _, _, _ | .subquery _, _, _ => by
      show 10 ≤ Grammar.Level.tightest
      decide

/-- Whether an expression can be read back in front of an AND: no part of it is taken for the left
side of the AND, and the levels in it are counted. -/
structure Leads (depth : Nat) (expr : Expr) : Prop where
  readable : expr.Readable
  operand : expr.isOperand = true
  trailing : 10 ≤ expr.trailing
  unhyphenated : Unhyphenated (expr.tokens .duckDb)
  deep : expr.depth ≤ depth

/-- Whether an expression can be read back behind an AND, as far as it does not start with a word
that starts something else there. -/
structure Closes (depth : Nat) (expr : Expr) : Prop extends Leads depth expr where
  loosest : 10 < expr.loosest

theorem Leads.mono {depth more : Nat} {expr : Expr} (leads : Leads depth expr)
    (higher : depth ≤ more) : Leads more expr :=
  { leads with deep := Nat.le_trans leads.deep higher }

/-- An AND of what leads and what closes leads. -/
theorem Leads.and {depth below : Nat} {left right : Expr} (leads : Leads depth left)
    (closes : Closes below right) (lower : below < depth)
    (free : right.nameKeyword ∉ ["ANY", "ALL", "SOME"]) :
    Leads depth (.binary left .and right) where
  readable := ⟨⟨⟨⟨leads.operand, closes.operand⟩, leads.trailing, closes.loosest,
    .inr (.inr free)⟩, by simp, by simp⟩, leads.readable, closes.readable⟩
  operand := rfl
  trailing := Nat.le_min.2 ⟨by decide, closes.trailing⟩
  unhyphenated := by
    have word : Unhyphenated (space :: [Token.keyword .and] ++ space :: right.tokens .duckDb) :=
      .cons (by simp [space]) (.cons (by simp) (.cons (by simp [space]) closes.unhyphenated))
    have whole := leads.unhyphenated.append word (.symbol .space rfl _)
    rw [Expr.tokens, if_neg (by simp)]
    rwa [← List.append_assoc] at whole
  deep := by
    have right := closes.deep
    exact Nat.max_le.2 ⟨leads.deep, by omega⟩

/-- What leads, leads with any closing expressions behind it. -/
theorem Leads.andAll {depth below : Nat} {others : List Expr} {condition : Expr}
    (leads : Leads depth condition) (lower : below < depth)
    (each : ∀ other ∈ others, Closes below other ∧ other.nameKeyword ∉ ["ANY", "ALL", "SOME"]) :
    Leads depth (condition.andAll others) := by
  induction others generalizing condition with
  | nil => exact leads
  | cons other others ih =>
      obtain ⟨closes, free⟩ := each other List.mem_cons_self
      exact ih (leads.and closes lower free) fun next found =>
        each next (List.mem_cons_of_mem other found)

/-- An expression in parentheses leads. -/
theorem leads_nested {depth : Nat} {inner : Expr} (readable : inner.Readable)
    (operand : inner.isOperand = true) (unhyphenated : Unhyphenated (inner.tokens .duckDb))
    (deep : inner.depth ≤ depth) : Leads (depth + 1) (.nested inner) where
  readable := ⟨⟨operand, trivial⟩, readable⟩
  operand := rfl
  trailing := by
    show 10 ≤ Grammar.Level.tightest
    decide
  unhyphenated := unhyphenated.parenthesized
  deep := Nat.succ_le_succ deep

/-- A condition leads, an OR in parentheses. -/
theorem leads_asConjunct {depth : Nat} {condition : Expr} (readable : condition.Readable)
    (operand : condition.isOperand = true)
    (unhyphenated : Unhyphenated (condition.tokens .duckDb)) (deep : condition.depth ≤ depth) :
    Leads (depth + 1) condition.asConjunct := by
  rw [asConjunct]
  split
  next => exact leads_nested readable operand unhyphenated deep
  next other =>
    have trailing := trailing_of_not_isDisjunction condition readable (by simpa using other)
    exact ⟨readable, operand, trailing, unhyphenated, Nat.le_succ_of_le deep⟩

/-- An operand of an AND stands in parentheses just if it is an OR. -/
theorem nestBelow_and (expr : Expr) : expr.nestBelow .and = expr.asConjunct := by
  cases expr with
  | binary left op right => cases op <;> rfl
  | _ => rfl

theorem asConjunct_of_not_isDisjunction {expr : Expr} (other : expr.isDisjunction = false) :
    expr.asConjunct = expr := by
  rw [asConjunct, other, if_neg (by simp)]

theorem combine_and_of_not_isDisjunction {right : Expr} (left : Expr)
    (other : right.isDisjunction = false) :
    combine left .and right = .binary left.asConjunct .and right := by
  rw [combine, nestBelow_and, nestBelow_and, asConjunct_of_not_isDisjunction other]

end Expr

/-- The first of several conditions can be put to the others before them. -/
theorem conjunction_cons {first : Expr} (simple : first.isDisjunction = false)
    (condition : Option Expr) (others : List Expr) :
    conjunction condition (first :: others) =
      conjunction (conjunction condition [first]) others := by
  cases others with
  | nil => rfl
  | cons other others =>
      cases condition with
      | none =>
          show some _ = some (first.asConjunct.andAll (other :: others))
          rw [Expr.asConjunct_of_not_isDisjunction simple]
      | some condition => rfl

/-- One more condition that is no OR is put behind the others with an AND. -/
theorem Select.addFilter_eq {other : Expr} (simple : other.isDisjunction = false)
    (select : Select) :
    select.addFilter other = { select with filter := conjunction select.filter [other] } := by
  rw [addFilter]
  cases select.filter with
  | none => rfl
  | some condition =>
      dsimp only
      rw [Expr.combine_and_of_not_isDisjunction condition simple]
      rfl

/-- A SELECT restricted by conditions one after the other, none of them an OR, is restricted by
their conjunction. -/
theorem Select.foldl_addFilter {others : List Expr}
    (each : ∀ other ∈ others, other.isDisjunction = false) (select : Select) :
    others.foldl Select.addFilter select =
      { select with filter := conjunction select.filter others } := by
  induction others generalizing select with
  | nil =>
      cases select
      rfl
  | cons first others ih =>
      have simple := each first List.mem_cons_self
      rw [List.foldl_cons, addFilter_eq simple,
        ih fun next found => each next (List.mem_cons_of_mem first found)]
      rw [← conjunction_cons simple]

/-! ## Conjunctions that are written alike -/

theorem Expr.text_binary_and (d : Dialect) (left right : Expr) :
    (binary left .and right).text d = left.text d ++ " AND " ++ right.text d := by
  have word : Tokens.text d (space :: BinaryOp.and.tokens ++ [space]) = " AND " := by
    simp [Tokens.text, Token.text, BinaryOp.tokens, space, Symbol.text, Keyword.text]
  have parted : (binary left .and right).tokens d =
      left.tokens d ++ ((space :: BinaryOp.and.tokens ++ [space]) ++ right.tokens d) := by
    rw [Expr.tokens, if_neg (by simp)]
    simp
  rw [Expr.text, parted, Tokens.text_append, Tokens.text_append, word, String.append_assoc]
  rfl

theorem Expr.text_andAll {d : Dialect} {others likewise : List Expr} {condition another : Expr}
    (first : condition.text d = another.text d)
    (same : others.map (Expr.text d) = likewise.map (Expr.text d)) :
    (condition.andAll others).text d = (another.andAll likewise).text d := by
  induction others generalizing likewise condition another with
  | nil =>
      cases likewise with
      | nil => exact first
      | cons other likewise => cases same
  | cons other others ih =>
      cases likewise with
      | nil => cases same
      | cons like likewise =>
          obtain ⟨here, later⟩ := List.cons.inj same
          have next : (binary condition .and other).text d = (binary another .and like).text d := by
            rw [text_binary_and, text_binary_and, first, here]
          exact @ih likewise (binary condition .and other) (binary another .and like) next later

/-- A conjunction is written with the texts of its parts. -/
theorem text_conjunction {d : Dialect} {others likewise : List Expr}
    (same : others.map (Expr.text d) = likewise.map (Expr.text d)) (condition : Option Expr) :
    (conjunction condition others).map (Expr.text d) =
      (conjunction condition likewise).map (Expr.text d) := by
  cases others with
  | nil =>
      cases likewise with
      | nil => rfl
      | cons other likewise => cases same
  | cons other others =>
      cases likewise with
      | nil => cases same
      | cons like likewise =>
          obtain ⟨here, later⟩ := List.cons.inj same
          cases condition with
          | none => exact congrArg some (Expr.text_andAll here later)
          | some condition => exact congrArg some (Expr.text_andAll rfl same)

end Sql

/-! ## Literals that are read back -/

namespace Sql.Literal

variable {value : Literal}

/-- Every number of 64 bits but the least one has an opposite. -/
theorem toInt_neg_of_ne_minValue {n : Int64} (greater : n ≠ Int64.minValue) :
    (-n).toInt = -n.toInt := by
  have above : n.toInt ≠ -2 ^ 63 := fun least =>
    greater (Int64.toInt_inj.1 (least.trans Int64.toInt_minValue.symm))
  have low := n.le_toInt
  have high := n.toInt_lt
  rw [Int64.toInt_neg]
  exact Int.bmod_eq_of_le (by omega) (by omega)

/-- A literal is written as what it is read as. -/
theorem text_readBack (d : Dialect) (legible : value.IsLegible) :
    value.readBack.text d = (Expr.literal value).text d := by
  cases value with
  | int value =>
      rw [readBack]
      split
      next negative =>
        have opposite := toInt_neg_of_ne_minValue legible
        simp [Expr.text, Expr.tokens, Tokens.text, token, Token.text, UnaryOp.tokens, Symbol.text,
          Number.intText_of_neg negative, opposite]
      next => rfl
  | float value =>
      rw [readBack]
      split
      next negative =>
        have finite : value.isFinite = true := by
          rw [← value.isFinite_magnitude]
          exact legible.finite
        simp [Expr.text, Expr.tokens, Tokens.text, token, Token.text, UnaryOp.tokens, Symbol.text,
          Number.Binary64.text_of_isNegative negative finite, finite]
      next => rfl
  | _ => rfl

/-- A literal without a sign can be read. -/
theorem closes_literal (shape : (Expr.literal value).HasShape)
    (legible : (Expr.literal value).IsLegible) : Expr.Closes 0 (.literal value) where
  readable := ⟨shape, legible⟩
  operand := rfl
  trailing := show 10 ≤ Grammar.Level.tightest by decide
  unhyphenated := .cons (by cases value <;> simp [token]) .nil
  deep := Nat.le_refl 0
  loosest := show 10 < Grammar.Level.tightest by decide

/-- A minus sign in front of a number can be read. -/
theorem closes_minus (shape : (Expr.literal value).HasShape)
    (legible : (Expr.literal value).IsLegible) :
    Expr.Closes 1 (.unary .minus (.literal value)) where
  readable := ⟨⟨⟨rfl, show 40 < Grammar.Level.tightest by decide⟩, trivial⟩, shape, legible⟩
  operand := rfl
  trailing := show 10 ≤ min 40 Grammar.Level.tightest by decide
  unhyphenated := List.isChain_cons.mpr
    ⟨by cases value <;> simp [Expr.tokens, token], (closes_literal shape legible).unhyphenated⟩
  deep := Nat.le_refl 1
  loosest := show 10 < Grammar.Level.tightest by decide

/-- What a legible literal is read as can be read. -/
theorem closes_readBack (legible : value.IsLegible) : Expr.Closes 1 value.readBack := by
  have once {expr : Expr} (closes : Expr.Closes 0 expr) : Expr.Closes 1 expr :=
    { closes with deep := Nat.le_succ_of_le closes.deep }
  cases value with
  | int value =>
      rw [readBack]
      split
      next negative =>
        refine closes_minus ?_ trivial
        show 0 ≤ (-value).toInt
        rw [toInt_neg_of_ne_minValue legible]
        omega
      next positive => exact once (closes_literal (Int.not_lt.1 positive) trivial)
  | float value =>
      rw [readBack]
      split
      next => exact closes_minus value.isNegative_magnitude legible
      next positive =>
        have unsigned : value.isNegative = false := by simpa using positive
        rw [IsLegible, value.magnitude_of_not_isNegative unsigned] at legible
        exact once (closes_literal unsigned legible)
  | _ => exact once (closes_literal trivial trivial)

/-- What a literal is read as binds tighter than every operator that it may stand behind, and it
starts with no name. -/
theorem loosest_readBack (value : Literal) :
    value.readBack.loosest = Grammar.Level.tightest ∧ value.readBack.nameKeyword = "" := by
  cases value <;> simp only [readBack] <;> first | exact ⟨rfl, rfl⟩ | (split <;> exact ⟨rfl, rfl⟩)

end Sql.Literal

namespace Planner

open Sql

/-! ## Filters on columns -/

namespace Filter

/-- A filter on a column as it is read. -/
def comparison (filter : Filter) (column : Column) : Expr :=
  .binary (.column column) filter.op.toBinaryOp filter.value.readBack

/-- Whether a filter on a column is written as a comparison that is read: its literal can be read,
the column does not start with a word that starts another operand, and no column ARRAY seems to
start a type. -/
structure IsLegibleOn (filter : Filter) (column : Column) : Prop where
  value : filter.value.IsLegible
  name : (Expr.column column).nameKeyword ∉ operandWords
  array : filter.op = .lt → (Expr.column column).endsInArray = false

variable {filter : Filter} {column : Column}

theorem toExpr_eq (filter : Filter) (column : Column) : filter.toExpr column =
    .binary (.column column) filter.op.toBinaryOp (.literal filter.value) :=
  rfl

theorem grip_toBinaryOp (op : FilterOp) : op.toBinaryOp.grip = 20 := by
  cases op <;> rfl

theorem isDisjunction_toExpr (filter : Filter) (column : Column) :
    (filter.toExpr column).isDisjunction = false := by
  rw [toExpr_eq, Bool.eq_false_iff, ne_eq, Expr.isDisjunction_iff]
  cases filter.op <;> simp [FilterOp.toBinaryOp]

theorem tokens_comparison (d : Dialect) (column : Column) (op : FilterOp) (right : Expr) :
    (Expr.binary (.column column) op.toBinaryOp right).tokens d =
      column.tokens ++ (space :: op.toBinaryOp.tokens ++ [space] ++ right.tokens d) := by
  rw [Expr.tokens, if_neg (by cases op <;> simp [FilterOp.toBinaryOp])]
  simp [Expr.tokens]

/-- A filter is written as the comparison that it is read as. -/
theorem text_comparison (d : Dialect) (legible : filter.value.IsLegible) :
    (filter.comparison column).text d = (filter.toExpr column).text d := by
  have value := Literal.text_readBack d legible
  rw [Expr.text, Expr.text] at value
  rw [comparison, toExpr_eq, Expr.text, Expr.text, tokens_comparison, tokens_comparison]
  simp only [Tokens.text_append, value]

/-- The names of a column hold no minus sign. -/
theorem unhyphenated_column (column : Column) : Tokens.Unhyphenated column.tokens := by
  have path (names : Path) (rest : Tokens) (later : Tokens.Unhyphenated rest) :
      Tokens.Unhyphenated (names.tokens ++ rest) := by
    induction names with
    | nil => exact later
    | cons name names ih => exact .cons (by simp [Name.token]) (.cons (by simp) ih)
  exact path _ _ (.cons (by simp [Name.token]) .nil)

/-- What a legible filter is read as can be read behind an AND. -/
theorem closes_comparison (legible : filter.IsLegibleOn column) :
    Expr.Closes 2 (filter.comparison column) where
  readable := by
    obtain ⟨loosest, nameless⟩ := Literal.loosest_readBack filter.value
    have right := Literal.closes_readBack legible.value
    refine ⟨⟨⟨⟨rfl, right.operand⟩, ?_, ?_, .inr (.inr ?_)⟩, ?_, ?_⟩, ⟨legible.name, trivial⟩,
      right.readable⟩
    · rw [grip_toBinaryOp]
      exact show 20 ≤ Grammar.Level.tightest by decide
    · rw [grip_toBinaryOp, loosest]
      decide
    · rw [nameless]
      decide
    · cases same : filter.op <;> simp only [FilterOp.toBinaryOp, reduceCtorEq, false_implies]
      exact fun _ => legible.array same
    · cases filter.op <;> simp [FilterOp.toBinaryOp]
  operand := rfl
  trailing := Nat.le_min.2 ⟨by rw [grip_toBinaryOp]; decide,
    (Literal.closes_readBack legible.value).trailing⟩
  unhyphenated := by
    rw [comparison, tokens_comparison]
    refine (unhyphenated_column column).append ?_ (.symbol .space rfl _)
    have right := (Literal.closes_readBack legible.value).unhyphenated
    have blank : Tokens.Unhyphenated (space :: filter.value.readBack.tokens .duckDb) :=
      .cons (by simp [space]) right
    cases filter.op <;> exact .cons (by simp [space]) (.cons (by simp) blank)
  deep := by
    have right := (Literal.closes_readBack legible.value).deep
    exact Nat.max_le.2 ⟨Nat.zero_le 2, by omega⟩
  loosest := by
    show 10 < min Grammar.Level.tightest filter.op.toBinaryOp.grip
    rw [grip_toBinaryOp]
    decide

end Filter

/-- A SELECT restricted by filters on columns, one after the other. -/
def restrict (select : Select) (filters : List (Filter × Column)) : Select :=
  filters.foldl (fun select pair => select.addFilter (pair.1.toExpr pair.2)) select

theorem restrict_eq (select : Select) (filters : List (Filter × Column)) :
    restrict select filters = { select with
      filter := conjunction select.filter (filters.map fun pair => pair.1.toExpr pair.2) } := by
  rw [restrict, ← List.foldl_map, Select.foldl_addFilter]
  intro other found
  obtain ⟨pair, -, rfl⟩ := List.mem_map.1 found
  exact pair.1.isDisjunction_toExpr pair.2

/-! ## Queries with filters -/

/-- A query with another condition can be read if the condition can. -/
theorem readable_withFilter {query : Query} {filter : Expr} (readable : query.Readable)
    (inner : filter.Readable) (operand : filter.isOperand = true) :
    (query.withFilter (some filter)).Readable := by
  obtain ⟨ctes, distinct, projection, sources, written, groupBy, having, orderBy, limit, offset⟩ :=
    query
  obtain ⟨⟨shape, legible⟩, named, items, from', -, rest⟩ := readable
  refine ⟨⟨{ shape with filter := ?_ }, legible.limit, legible.offset, legible.item, legible.cte⟩,
    named, items, from', inner, rest⟩
  rintro _ ⟨⟩
  exact operand

theorem depth_withFilter_le {query : Query} {filter : Expr} {depth : Nat}
    (shallow : query.depth ≤ depth) (inner : filter.depth < depth) :
    (query.withFilter (some filter)).depth ≤ depth := by
  obtain ⟨ctes, distinct, projection, sources, written, groupBy, having, orderBy, limit, offset⟩ :=
    query
  simp only [Query.withFilter, Query.depth, Select.depth, depthBelow?] at shallow ⊢
  omega

/-- The condition of a query takes up one level below the query. -/
theorem depth_lt_of_filter {query : Query} {filter : Expr}
    (written : query.select.filter = some filter) : filter.depth < query.depth := by
  obtain ⟨ctes, distinct, projection, sources, found, groupBy, having, orderBy, limit, offset⟩ :=
    query
  obtain rfl : found = some filter := written
  simp only [Query.depth, Select.depth, depthBelow?]
  omega

/-- The condition of a query that can be read can be read itself. -/
theorem readable_of_filter {query : Query} {filter : Expr} (readable : query.Readable)
    (written : query.select.filter = some filter) :
    filter.Readable ∧ filter.isOperand = true := by
  obtain ⟨ctes, distinct, projection, sources, found, groupBy, having, orderBy, limit, offset⟩ :=
    query
  obtain rfl : found = some filter := written
  obtain ⟨⟨shape, -⟩, -, -, -, inner, -⟩ := readable
  exact ⟨inner, shape.filter filter rfl⟩

theorem unhyphenated_of_filter {d : Dialect} {query : Query} {filter : Expr}
    (unhyphenated : Tokens.Unhyphenated (query.tokens d))
    (written : query.select.filter = some filter) : Tokens.Unhyphenated (filter.tokens d) := by
  obtain ⟨front, back, -, whole⟩ := query.exists_tokens_withFilter d
  rw [← query.withFilter_self, whole, written] at unhyphenated
  obtain ⟨-, later⟩ := unhyphenated.of_append
  obtain ⟨clause, -⟩ := later.of_append
  exact clause.tail.tail.tail

/-- The conjunction of the condition of a query and of filters, if there are any, leads. -/
theorem leads_conjunction {query : Query} (readable : query.Readable)
    (unhyphenated : Tokens.Unhyphenated (query.tokens .duckDb)) (shallow : query.depth ≤ 47)
    {first : Filter × Column} {others : List (Filter × Column)}
    (legible : ∀ pair ∈ first :: others, pair.1.IsLegibleOn pair.2)
    (free : ∀ pair ∈ (if query.select.filter.isSome then first :: others else others),
      (Expr.column pair.2).nameKeyword ∉ ["ANY", "ALL", "SOME"]) :
    ∃ filter, conjunction query.select.filter
        ((first :: others).map fun pair => pair.1.comparison pair.2) = some filter ∧
      Expr.Leads 47 filter := by
  have closes (pairs : List (Filter × Column))
      (among : ∀ pair ∈ pairs, pair ∈ first :: others)
      (free : ∀ pair ∈ pairs, (Expr.column pair.2).nameKeyword ∉ ["ANY", "ALL", "SOME"]) :
      ∀ other ∈ pairs.map fun pair => pair.1.comparison pair.2,
        Expr.Closes 2 other ∧ other.nameKeyword ∉ ["ANY", "ALL", "SOME"] := by
    intro other found
    obtain ⟨pair, member, rfl⟩ := List.mem_map.1 found
    exact ⟨Filter.closes_comparison (legible pair (among pair member)), free pair member⟩
  cases written : query.select.filter with
  | none =>
      rw [written] at free
      have leads := (Filter.closes_comparison (legible first List.mem_cons_self)).toLeads
      refine ⟨_, rfl, (leads.mono (by decide)).andAll (show 2 < 47 by decide) ?_⟩
      exact closes others (fun pair => List.mem_cons_of_mem first) free
  | some filter =>
      rw [written] at free
      obtain ⟨inner, operand⟩ := readable_of_filter readable written
      have deep := depth_lt_of_filter written
      have below : filter.depth ≤ 46 := by omega
      have leads := Expr.leads_asConjunct inner operand
        (unhyphenated_of_filter unhyphenated written) below
      exact ⟨_, rfl, leads.andAll (show 2 < 47 by decide)
        (closes (first :: others) (fun pair => id) free)⟩

/-- Filters restrict a query as a whole. The text of a query that can be read back, restricted by
filters on columns one after the other, is read as the query under the conjunction, from the left,
of its condition and one comparison for each filter: the condition stands in parentheses if the
operator on top of it is an OR, and a negative number is read as a minus sign in front of a number.
So no operator of the condition takes a filter for a part of an operand, and without a condition the
conjunction is that of the filters. Behind an AND no column may start with the bare word ANY, ALL or
SOME, which starts something else there. -/
theorem filters_are_read_as_conjuncts {query : Query} (readable : query.Readable)
    (unhyphenated : Tokens.Unhyphenated (query.tokens .duckDb)) (shallow : query.depth ≤ 47)
    {filters : List (Filter × Column)}
    (legible : ∀ pair ∈ filters, pair.1.IsLegibleOn pair.2)
    (free : ∀ pair ∈ (if query.select.filter.isSome then filters else filters.tail),
      (Expr.column pair.2).nameKeyword ∉ ["ANY", "ALL", "SOME"]) :
    ∃ read,
      Query.ofText
          (Query.text .duckDb { query with select := restrict query.select filters }) none =
        .ok read ∧
      read.equal (query.withFilter (conjunction query.select.filter
        (filters.map fun pair => pair.1.comparison pair.2))).upperFunctions = true := by
  have alike : Query.text .duckDb { query with select := restrict query.select filters } =
      (query.withFilter (conjunction query.select.filter
        (filters.map fun pair => pair.1.comparison pair.2))).text .duckDb := by
    rw [restrict_eq]
    refine Query.text_withFilter (text_conjunction ?_ query.select.filter) query
    simp only [List.map_map]
    exact List.map_congr_left fun pair member =>
      (Filter.text_comparison .duckDb (legible pair member).value).symm
  rw [alike]
  cases filters with
  | nil =>
      rw [List.map_nil, conjunction]
      show ∃ read, Query.ofText ((query.withFilter query.select.filter).text .duckDb) none =
        .ok read ∧ read.equal (query.withFilter query.select.filter).upperFunctions = true
      rw [query.withFilter_self]
      exact Query.ofText_text readable unhyphenated (by omega)
  | cons first others =>
      obtain ⟨filter, whole, leads⟩ :=
        leads_conjunction readable unhyphenated shallow legible free
      rw [whole]
      exact Query.ofText_text (readable_withFilter readable leads.readable leads.operand)
        (Query.unhyphenated_withFilter unhyphenated leads.unhyphenated)
        (depth_withFilter_le (by omega) (Nat.lt_succ_of_le leads.deep))

/-- The rows of which one of two columns holds. -/
def eitherRows : Query :=
  { select :=
      { projection := [.star], sources := some [{ primary := .table { name := { value := "t" } } }]
        filter := some (.binary (.col "a") .or (.col "b")) } }

/-- A bound below zero for `c`, and `d`. -/
def boundAndFlag : List (Filter × Column) :=
  [(⟨"n.c", .gte, .int (-5)⟩, columnOf { value := "n" } "c"),
   (⟨"n.d", .eq, .bool true⟩, columnOf { value := "n" } "d")]

/-- The rows of which one of two columns holds, from a bound on and with a flag, are read as just
that. -/
theorem filters_are_read_as_conjuncts_eitherRows :
    ∃ read,
      Query.ofText
          "SELECT\n  *\nFROM t\nWHERE (a OR b) AND n.c >= -5 AND n.d = true" none = .ok read ∧
      read.equal (eitherRows.withFilter (some
        (.binary
          (.binary (.nested (.binary (.col "a") .or (.col "b"))) .and
            (.binary (.tableCol "n" "c") .gte (.unary .minus (.literal (.int 5)))))
          .and (.binary (.tableCol "n" "d") .eq (.literal (.bool true)))))) = true := by
  have readable : eitherRows.Readable := by
    have source : ∀ source ∈ eitherRows.select.sources.getD [], source.HasShape := by
      rintro _ (_ | ⟨_, ⟨⟩⟩)
      exact ⟨⟨nofun, by decide +kernel⟩, by simp⟩
    have shape : eitherRows.select.HasShape :=
      ⟨by simp [eitherRows], by simp [eitherRows], source, by rintro _ ⟨⟩; rfl,
        by simp [eitherRows], nofun, by simp [eitherRows]⟩
    have legible : eitherRows.IsLegible := ⟨nofun, nofun, by rintro _ ⟨⟩; decide, nofun⟩
    have first : (Expr.col "a").nameKeyword ∉ operandWords := by decide +kernel
    have second : (Expr.col "b").nameKeyword ∉ operandWords := by decide +kernel
    have either : (Expr.binary (.col "a") .or (.col "b")).Readable :=
      ⟨⟨⟨⟨rfl, rfl⟩, by decide, by decide, by decide +kernel⟩, nofun, by simp⟩,
        ⟨first, trivial⟩, second, trivial⟩
    exact ⟨⟨shape, legible⟩, trivial, ⟨⟨nofun, trivial⟩, trivial⟩, ⟨⟨trivial, trivial⟩, trivial⟩,
      either, trivial, trivial, trivial⟩
  have unhyphenated : Tokens.Unhyphenated (eitherRows.tokens .duckDb) := by
    unfold Tokens.Unhyphenated
    decide +kernel
  have written : Query.text .duckDb
      { eitherRows with select := restrict eitherRows.select boundAndFlag } =
      "SELECT\n  *\nFROM t\nWHERE (a OR b) AND n.c >= -5 AND n.d = true" := by
    decide +kernel
  rw [← written]
  refine filters_are_read_as_conjuncts readable unhyphenated (by decide) ?_ ?_
  · rintro _ (_ | ⟨_, _ | ⟨_, ⟨⟩⟩⟩)
    · exact ⟨show (-5 : Int64) ≠ Int64.minValue by decide, by decide +kernel, nofun⟩
    · exact ⟨trivial, by decide +kernel, nofun⟩
  · decide +kernel

end Planner
end SemanticLayer
