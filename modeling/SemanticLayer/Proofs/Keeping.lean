import SemanticLayer.Proofs.Outcomes
import SemanticLayer.Sql.Reading

/-!
# What reading a tree keeps

A parse tree holds more than the query that is read from it. What `kept` leaves of a tree is all
that the query depends on: whatever is left out, and however numbers are spelled, the query is the
same.
-/

namespace SemanticLayer

open Sql (numberOf)

/-- Other spellings of numbers: of those that are literals, and of those that count rows. -/
structure Respelling where
  number : String → String
  count : String → String
  numbers : ∀ text value, numberOf text = .ok value → numberOf (number text) = .ok value
  counts : ∀ text value, Number.uint64? text.toList = some value →
    Number.uint64? (count text).toList = some value

/-! ## What is kept of a tree -/

namespace Grammar

/-- What is kept of the alias of a table: not the names of its columns. -/
def TableAlias.kept (label : TableAlias) : TableAlias :=
  { name := label.name }

section

variable (spelled : Respelling)

/-- What is kept of a literal. -/
def Value.kept : Value → Value
  | .number text => .number (spelled.number text)
  | other => other

/-- What is kept of a count of rows. -/
def keptCount : Option Expr → Option Expr
  | some (.value (.number text)) => some (.value (.number (spelled.count text)))
  | other => other

mutual

/-- What is kept of an expression: not whether a pattern is one of several. -/
def Expr.kept : Expr → Expr
  | .value literal => .value (literal.kept spelled)
  | .binary left op right => .binary left.kept op right.kept
  | .unary op operand => .unary op operand.kept
  | .nested inner => .nested inner.kept
  | .isNull subject => .isNull subject.kept
  | .isNotNull subject => .isNotNull subject.kept
  | .pattern op negated _ subject pattern escape =>
    .pattern op negated false subject.kept pattern.kept escape
  | .inList subject items negated => .inList subject.kept (keptExprs items) negated
  | .between subject low high negated => .between subject.kept low.kept high.kept negated
  | .case operand conditions results otherwise =>
    .case (keptExpr? operand) (keptExprs conditions) (keptExprs results) (keptExpr? otherwise)
  | .call call => .call call.kept
  | .subquery query => .subquery query.kept
  | other => other

/-- What is kept of several expressions. -/
def keptExprs : List Expr → List Expr
  | [] => []
  | first :: rest => first.kept :: keptExprs rest

/-- What is kept of an expression that may be missing. -/
def keptExpr? : Option Expr → Option Expr
  | some expr => some expr.kept
  | none => none

/-- What is kept of a call: its name and its arguments. -/
def Call.kept : Call → Call
  | ⟨name, _, arguments, _, _, _, _⟩ => { name, arguments := some (keptArguments arguments) }

/-- What is kept of the arguments of a call: whether duplicates are left out, but no clause. A call
without parentheses is one without arguments. -/
def keptArguments : Option Arguments → Arguments
  | none => .list none [] [] none none []
  | some (.query query) => .query query
  | some (.list duplicates items _ _ _ _) =>
    .list (if duplicates == some .distinct then some .distinct else none) (keptItems items) []
      none none []

/-- What is kept of an argument. -/
def Argument.kept : Argument → Argument
  | .expr expr => .expr expr.kept
  | other => other

/-- What is kept of several arguments. -/
def keptItems : List Argument → List Argument
  | [] => []
  | first :: rest => first.kept :: keptItems rest

/-- What is kept of an entry of ORDER BY. -/
def Ordering.kept : Ordering → Ordering
  | ⟨expr, ascending, nullsFirst⟩ => ⟨expr.kept, ascending, nullsFirst⟩

/-- What is kept of several entries of ORDER BY. -/
def keptOrderings : List Ordering → List Ordering
  | [] => []
  | first :: rest => first.kept :: keptOrderings rest

/-- What is kept of a query. Of one around a query in parentheses that is the inner one alone, of
any other one its WITH list, its SELECT, its order, its limit and its offset. -/
def Query.kept : Query → Query
  | ⟨_, _, .query inner, _, _, _, _, _, _, _⟩ => inner.kept
  | ⟨_, ctes, .select select, orderBy, limit, _, offset, _, _, _⟩ =>
    { ctes := keptCtes ctes, body := .select select.kept, orderBy := keptOrderings orderBy
      limit := keptCount spelled limit, offset := keptCount spelled offset }
  | other => other

/-- What is kept of a named query: not the names of its columns. -/
def Cte.kept : Cte → Cte
  | ⟨label, query, _⟩ => { label := label.kept, query := query.kept }

/-- What is kept of several named queries. -/
def keptCtes : List Cte → List Cte
  | [] => []
  | first :: rest => first.kept :: keptCtes rest

/-- What is kept of a SELECT. -/
def Select.kept : Select → Select
  | ⟨rows, _, _, projection, _, sources, _, filter, groupBy, _, _, _, _, having, _, _⟩ =>
    { distinct := rows, projection := keptProjection projection, sources := keptSources sources
      filter := keptExpr? filter, groupBy := keptGroups groupBy, having := keptExpr? having }

/-- What is kept of the entries of GROUP BY. -/
def keptGroups : Option (List Expr) → Option (List Expr)
  | some keys => some (keptExprs keys)
  | none => none

/-- What is kept of an entry of a projection: not what a star leaves out or renames. -/
def SelectItem.kept : SelectItem → SelectItem
  | .unnamed expr => .unnamed expr.kept
  | .aliased expr label => .aliased expr.kept label
  | .wildcard _ => .wildcard {}
  | .qualifiedWildcard path _ => .qualifiedWildcard path {}

/-- What is kept of several entries of a projection. -/
def keptProjection : List SelectItem → List SelectItem
  | [] => []
  | first :: rest => first.kept :: keptProjection rest

/-- What is kept of an entry of FROM. -/
def TableWithJoins.kept : TableWithJoins → TableWithJoins
  | ⟨relation, joins⟩ => ⟨relation.kept, keptJoins joins⟩

/-- What is kept of several entries of FROM. -/
def keptSources : List TableWithJoins → List TableWithJoins
  | [] => []
  | first :: rest => first.kept :: keptSources rest

/-- What is kept of a table: its name and its alias. -/
def TableFactor.kept : TableFactor → TableFactor
  | .table name label _ _ _ => .table name (label.map TableAlias.kept) none [] []
  | .derived _ query label => .derived false query.kept (label.map TableAlias.kept)
  | other => other

/-- What is kept of a join. -/
def Join.kept : Join → Join
  | ⟨operator, relation, matching, _⟩ =>
    { operator, relation := relation.kept, matching := keptMatching matching }

/-- What is kept of the rows that a join matches. -/
def keptMatching : Option Matching → Option Matching
  | some (.on condition) => some (.on condition.kept)
  | other => other

/-- What is kept of several joins. -/
def keptJoins : List Join → List Join
  | [] => []
  | first :: rest => first.kept :: keptJoins rest

end

end

end Grammar

/-! ## What is dropped does not count -/

namespace Sql

section

variable (spelled : Respelling)

theorem literalOf_kept {written : Grammar.Value} {made : Literal}
    (done : literalOf written = .ok made) : literalOf (written.kept spelled) = .ok made := by
  cases written with
  | number text => exact spelled.numbers text made done
  | _ => exact done

theorem countOf_kept {written : Option Grammar.Expr} {made : Option UInt64}
    (done : countOf? written = .ok made) :
    countOf? (Grammar.keptCount spelled written) = .ok made := by
  rw [Grammar.keptCount.eq_def]
  split
  next text =>
    obtain ⟨count, counted, rfl⟩ := Result.map_eq_ok.1 done
    rw [countOf] at counted
    split at counted
    next found =>
      cases counted
      rw [countOf?, countOf, spelled.counts text _ found]
      rfl
    next => cases counted
  next => exact done

mutual

theorem exprOf_kept : (written : Grammar.Expr) → {made : Expr} → exprOf written = .ok made →
    exprOf (written.kept spelled) = .ok made
  | .value literal, _, done => by
      rw [exprOf] at done
      obtain ⟨value, read, rfl⟩ := Result.map_eq_ok.1 done
      rw [Grammar.Expr.kept, exprOf]
      exact Result.map_eq_ok.2 ⟨value, literalOf_kept spelled read, rfl⟩
  | .binary left op right, _, done => by
      rw [exprOf] at done
      obtain ⟨_, first, rest⟩ := Result.bind_eq_ok.1 done
      obtain ⟨_, operator, rest⟩ := Result.bind_eq_ok.1 rest
      obtain ⟨_, second, last⟩ := Result.bind_eq_ok.1 rest
      rw [Grammar.Expr.kept, exprOf, Result.bind_of_ok (exprOf_kept left first),
        Result.bind_of_ok operator, Result.bind_of_ok (exprOf_kept right second)]
      exact last
  | .unary op operand, _, done => by
      rw [exprOf] at done
      obtain ⟨_, operator, rest⟩ := Result.bind_eq_ok.1 done
      obtain ⟨_, inner, last⟩ := Result.bind_eq_ok.1 rest
      rw [Grammar.Expr.kept, exprOf, Result.bind_of_ok operator,
        Result.bind_of_ok (exprOf_kept operand inner)]
      exact last
  | .pattern op negated any subject template escape, _, done => by
      rw [exprOf.eq_def] at done
      split at done
      any_goals contradiction
      next same =>
        cases same
        obtain ⟨_, first, rest⟩ := Result.bind_eq_ok.1 done
        obtain ⟨_, second, last⟩ := Result.bind_eq_ok.1 rest
        rw [Grammar.Expr.kept, exprOf, Result.bind_of_ok (exprOf_kept subject first),
          Result.bind_of_ok (exprOf_kept template second)]
        exact last
  | .call called, _, done => by
      rw [exprOf] at done
      rw [Grammar.Expr.kept, exprOf]
      exact callOf_kept called done
  | .case operand conditions results otherwise, _, done => by
      rw [exprOf] at done
      obtain ⟨_, first, rest⟩ := Result.bind_eq_ok.1 done
      obtain ⟨_, second, rest⟩ := Result.bind_eq_ok.1 rest
      obtain ⟨_, third, rest⟩ := Result.bind_eq_ok.1 rest
      obtain ⟨_, fourth, last⟩ := Result.bind_eq_ok.1 rest
      rw [Grammar.Expr.kept, exprOf, Result.bind_of_ok (exprOf?_kept operand first),
        Result.bind_of_ok (exprsOf_kept conditions second),
        Result.bind_of_ok (exprsOf_kept results third),
        Result.bind_of_ok (exprOf?_kept otherwise fourth)]
      exact last
  | .between subject low high negated, _, done => by
      rw [exprOf] at done
      obtain ⟨_, first, rest⟩ := Result.bind_eq_ok.1 done
      obtain ⟨_, second, rest⟩ := Result.bind_eq_ok.1 rest
      obtain ⟨_, third, last⟩ := Result.bind_eq_ok.1 rest
      rw [Grammar.Expr.kept, exprOf, Result.bind_of_ok (exprOf_kept subject first),
        Result.bind_of_ok (exprOf_kept low second), Result.bind_of_ok (exprOf_kept high third)]
      exact last
  | .isNull subject, _, done => by
      rw [exprOf] at done
      obtain ⟨_, inner, last⟩ := Result.bind_eq_ok.1 done
      rw [Grammar.Expr.kept, exprOf, Result.bind_of_ok (exprOf_kept subject inner)]
      exact last
  | .isNotNull subject, _, done => by
      rw [exprOf] at done
      obtain ⟨_, inner, last⟩ := Result.bind_eq_ok.1 done
      rw [Grammar.Expr.kept, exprOf, Result.bind_of_ok (exprOf_kept subject inner)]
      exact last
  | .inList subject items negated, _, done => by
      rw [exprOf] at done
      obtain ⟨_, first, rest⟩ := Result.bind_eq_ok.1 done
      obtain ⟨_, second, last⟩ := Result.bind_eq_ok.1 rest
      rw [Grammar.Expr.kept, exprOf, Result.bind_of_ok (exprOf_kept subject first),
        Result.bind_of_ok (exprsOf_kept items second)]
      exact last
  | .nested inner, _, done => by
      rw [exprOf] at done
      obtain ⟨_, inside, last⟩ := Result.map_eq_ok.1 done
      rw [Grammar.Expr.kept, exprOf]
      exact Result.map_eq_ok.2 ⟨_, exprOf_kept inner inside, last⟩
  | .subquery query, _, done => by
      rw [exprOf] at done
      obtain ⟨_, inside, last⟩ := Result.map_eq_ok.1 done
      rw [Grammar.Expr.kept, exprOf]
      exact Result.map_eq_ok.2 ⟨_, queryOf_kept query inside, last⟩
  | .identifier _, _, done | .compound _ _, _, done | .tuple _, _, done | .test _ _, _, done
  | .comparison _ _ _, _, done | .inSubquery _ _ _, _, done | .exists _ _, _, done
  | .grouping _ _, _, done | .special _ _, _, done => done

theorem exprsOf_kept : (written : List Grammar.Expr) → {made : List Expr} →
    exprsOf written = .ok made → exprsOf (Grammar.keptExprs spelled written) = .ok made
  | [], _, done => done
  | first :: others, _, done => by
      rw [exprsOf] at done
      obtain ⟨_, here, rest⟩ := Result.bind_eq_ok.1 done
      obtain ⟨_, there, last⟩ := Result.bind_eq_ok.1 rest
      rw [Grammar.keptExprs, exprsOf, Result.bind_of_ok (exprOf_kept first here),
        Result.bind_of_ok (exprsOf_kept others there)]
      exact last

theorem exprOf?_kept : (written : Option Grammar.Expr) → {made : Option Expr} →
    exprOf? written = .ok made → exprOf? (Grammar.keptExpr? spelled written) = .ok made
  | none, _, done => done
  | some found, _, done => by
      rw [exprOf?] at done
      obtain ⟨_, inside, last⟩ := Result.map_eq_ok.1 done
      rw [Grammar.keptExpr?, exprOf?]
      exact Result.map_eq_ok.2 ⟨_, exprOf_kept found inside, last⟩

theorem callOf_kept : (written : Grammar.Call) → {made : Expr} → callOf written = .ok made →
    callOf (written.kept spelled) = .ok made
  | ⟨called, _, given, _, filter, _, window⟩, _, done => by
      rw [callOf] at done
      split at done
      · cases done
      · obtain ⟨found, inside, last⟩ := Result.bind_eq_ok.1 done
        rw [Grammar.Call.kept, callOf, Option.isSome_none, Bool.or_self,
          if_neg Bool.false_ne_true, Result.bind_of_ok (argumentsOf_kept given inside)]
        exact last

theorem argumentsOf_kept : (written : Option Grammar.Arguments) → {made : List Expr × Bool} →
    argumentsOf written = .ok made →
      argumentsOf (some (Grammar.keptArguments spelled written)) = .ok made
  | none, _, done => by
      rw [argumentsOf] at done
      cases done
      rw [Grammar.keptArguments, argumentsOf, argumentListOf]
      rfl
  | some (.query _), _, done => by
      rw [argumentsOf] at done
      cases done
  | some (.list repeated items _ _ _ _), _, done => by
      rw [argumentsOf] at done
      obtain ⟨_, inside, last⟩ := Result.bind_eq_ok.1 done
      rw [Grammar.keptArguments, argumentsOf, Result.bind_of_ok (argumentListOf_kept items inside),
        ← last]
      rcases repeated with _ | all | distinct
      · rfl
      · rfl
      · rfl

theorem argumentOf_kept : (written : Grammar.Argument) → {made : Expr} →
    argumentOf written = .ok made → argumentOf (written.kept spelled) = .ok made
  | .expr found, _, done => by
      rw [argumentOf] at done
      rw [Grammar.Argument.kept, argumentOf]
      exact exprOf_kept found done
  | .wildcard, _, done | .qualifiedWildcard _, _, done | .named _ _, _, done => done

theorem argumentListOf_kept : (written : List Grammar.Argument) → {made : List Expr} →
    argumentListOf written = .ok made →
      argumentListOf (Grammar.keptItems spelled written) = .ok made
  | [], _, done => done
  | first :: others, _, done => by
      rw [argumentListOf] at done
      obtain ⟨_, here, rest⟩ := Result.bind_eq_ok.1 done
      obtain ⟨_, there, last⟩ := Result.bind_eq_ok.1 rest
      rw [Grammar.keptItems, argumentListOf, Result.bind_of_ok (argumentOf_kept first here),
        Result.bind_of_ok (argumentListOf_kept others there)]
      exact last

theorem orderingsOf_kept : (written : List Grammar.Ordering) → {made : List Ordering} →
    orderingsOf written = .ok made →
      orderingsOf (Grammar.keptOrderings spelled written) = .ok made
  | [], _, done => done
  | ⟨key, ascending, nullsFirst⟩ :: others, _, done => by
      rw [orderingsOf, orderingOf] at done
      obtain ⟨_, here, rest⟩ := Result.bind_eq_ok.1 done
      obtain ⟨_, inside, same⟩ := Result.bind_eq_ok.1 here
      obtain ⟨_, there, last⟩ := Result.bind_eq_ok.1 rest
      rw [Grammar.keptOrderings, Grammar.Ordering.kept, orderingsOf, orderingOf,
        Result.bind_of_ok (exprOf_kept key inside), Result.bind_of_ok same,
        Result.bind_of_ok (orderingsOf_kept others there)]
      exact last

theorem queryOf_kept : (written : Grammar.Query) → {made : Query} → queryOf written = .ok made →
    queryOf (written.kept spelled) = .ok made
  | ⟨_, named, .query inner, _, _, _, _, _, _, _⟩, _, done => by
      rw [queryOf, bodyOf] at done
      obtain ⟨_, _, rest⟩ := Result.bind_eq_ok.1 done
      obtain ⟨_, found, same⟩ := Result.bind_eq_ok.1 rest
      obtain ⟨_, inside, rfl⟩ := Result.map_eq_ok.1 found
      cases Result.pure_eq_ok.1 same
      rw [Grammar.Query.kept]
      exact queryOf_kept inner inside
  | ⟨_, named, .select inner, orderBy, limit, _, offset, _, _, _⟩, _, done => by
      rw [queryOf, bodyOf] at done
      obtain ⟨_, ctes, rest⟩ := Result.bind_eq_ok.1 done
      obtain ⟨_, found, rest⟩ := Result.bind_eq_ok.1 rest
      obtain ⟨_, selected, rfl⟩ := Result.map_eq_ok.1 found
      obtain ⟨_, ordered, rest⟩ := Result.bind_eq_ok.1 rest
      obtain ⟨_, limited, rest⟩ := Result.bind_eq_ok.1 rest
      obtain ⟨_, skipped, last⟩ := Result.bind_eq_ok.1 rest
      rw [Grammar.Query.kept, queryOf, bodyOf,
        Result.bind_of_ok (ctesOf_kept named ctes),
        Result.bind_of_ok (Result.map_eq_ok.2 ⟨_, selectOf_kept inner selected, rfl⟩)]
      dsimp only
      rw [Result.bind_of_ok (orderingsOf_kept orderBy ordered),
        Result.bind_of_ok (countOf_kept spelled limited),
        Result.bind_of_ok (countOf_kept spelled skipped)]
      exact last
  | ⟨_, _, .combined _ _ _ _, _, _, _, _, _, _, _⟩, _, done
  | ⟨_, _, .values _, _, _, _, _, _, _, _⟩, _, done
  | ⟨_, _, .table _, _, _, _, _, _, _, _⟩, _, done
  | ⟨_, _, .change _ _ _ _ _, _, _, _, _, _, _, _⟩, _, done => by
      rw [queryOf, bodyOf] at done
      obtain ⟨_, _, rest⟩ := Result.bind_eq_ok.1 done
      cases rest

theorem ctesOf_kept : (written : List Grammar.Cte) → {made : List Cte} →
    ctesOf written = .ok made → ctesOf (Grammar.keptCtes spelled written) = .ok made
  | [], _, done => done
  | ⟨label, query, _⟩ :: others, _, done => by
      rw [ctesOf, cteOf] at done
      obtain ⟨_, here, rest⟩ := Result.bind_eq_ok.1 done
      obtain ⟨_, inside, same⟩ := Result.bind_eq_ok.1 here
      obtain ⟨_, there, last⟩ := Result.bind_eq_ok.1 rest
      rw [Grammar.keptCtes, Grammar.Cte.kept, ctesOf, cteOf,
        Result.bind_of_ok (queryOf_kept query inside), Grammar.TableAlias.kept,
        Result.bind_of_ok same, Result.bind_of_ok (ctesOf_kept others there)]
      exact last

theorem selectOf_kept : (written : Grammar.Select) → {made : Select} → selectOf written = .ok made →
    selectOf (written.kept spelled) = .ok made
  | ⟨_, _, _, projection, _, sources, _, filter, groups, modifiers, _, _, _, having, _, _⟩, _,
      done => by
      rw [selectOf] at done
      obtain ⟨_, first, rest⟩ := Result.bind_eq_ok.1 done
      obtain ⟨_, second, rest⟩ := Result.bind_eq_ok.1 rest
      obtain ⟨_, third, rest⟩ := Result.bind_eq_ok.1 rest
      obtain ⟨_, fourth, rest⟩ := Result.bind_eq_ok.1 rest
      obtain ⟨_, fifth, rest⟩ := Result.bind_eq_ok.1 rest
      obtain ⟨_, sixth, last⟩ := Result.bind_eq_ok.1 rest
      rw [Grammar.Select.kept, selectOf, Result.bind_of_ok first,
        Result.bind_of_ok (itemsOf_kept projection second),
        Result.bind_of_ok (sourcesOf?_kept sources third),
        Result.bind_of_ok (groupByOf_kept modifiers groups fourth),
        Result.bind_of_ok (exprOf?_kept filter fifth),
        Result.bind_of_ok (exprOf?_kept having sixth)]
      exact last

theorem groupByOf_kept (modifiers : List String) : (written : Option (List Grammar.Expr)) →
    {made : List Expr} → groupByOf modifiers written = .ok made →
      groupByOf [] (Grammar.keptGroups spelled written) = .ok made
  | none, _, done => by
      rw [groupByOf] at done
      cases done
  | some keys, _, done => by
      rw [groupByOf] at done
      split at done
      · rw [Grammar.keptGroups, groupByOf, if_pos rfl]
        exact exprsOf_kept keys done
      · cases done

theorem itemsOf_kept : (written : List Grammar.SelectItem) → {made : List Expr} →
    itemsOf written = .ok made → itemsOf (Grammar.keptProjection spelled written) = .ok made
  | [], _, done => done
  | first :: others, _, done => by
      rw [itemsOf] at done
      obtain ⟨_, here, rest⟩ := Result.bind_eq_ok.1 done
      obtain ⟨_, there, last⟩ := Result.bind_eq_ok.1 rest
      rw [Grammar.keptProjection, itemsOf, Result.bind_of_ok (itemOf_kept first here),
        Result.bind_of_ok (itemsOf_kept others there)]
      exact last

theorem itemOf_kept : (written : Grammar.SelectItem) → {made : Expr} → itemOf written = .ok made →
    itemOf (written.kept spelled) = .ok made
  | .unnamed found, _, done => by
      rw [itemOf] at done
      rw [Grammar.SelectItem.kept, itemOf]
      exact exprOf_kept found done
  | .aliased found label, _, done => by
      rw [itemOf] at done
      obtain ⟨_, inside, last⟩ := Result.map_eq_ok.1 done
      rw [Grammar.SelectItem.kept, itemOf]
      exact Result.map_eq_ok.2 ⟨_, exprOf_kept found inside, last⟩
  | .wildcard _, _, done | .qualifiedWildcard _ _, _, done => done

theorem sourcesOf?_kept : (written : List Grammar.TableWithJoins) →
    {made : Option (List Source)} → sourcesOf? written = .ok made →
      sourcesOf? (Grammar.keptSources spelled written) = .ok made
  | [], _, done => done
  | ⟨relation, joins⟩ :: others, _, done => by
      rw [sourcesOf?, sourceOf] at done
      obtain ⟨_, here, rest⟩ := Result.bind_eq_ok.1 done
      obtain ⟨_, inside, same⟩ := Result.bind_eq_ok.1 here
      obtain ⟨_, joined, same⟩ := Result.bind_eq_ok.1 same
      obtain ⟨_, there, last⟩ := Result.bind_eq_ok.1 rest
      rw [Grammar.keptSources, Grammar.TableWithJoins.kept, sourcesOf?, sourceOf,
        Result.bind_of_ok (relationOf_kept relation inside),
        Result.bind_of_ok (joinsOf_kept joins joined), Result.bind_of_ok same,
        Result.bind_of_ok (sourcesOf?_kept others there)]
      exact last

theorem relationOf_kept : (written : Grammar.TableFactor) → {made : Relation} →
    relationOf written = .ok made → relationOf (written.kept spelled) = .ok made
  | .table name label _ _ _, _, done => by
      rw [relationOf] at done
      rw [Grammar.TableFactor.kept, relationOf, Option.map_map]
      exact done
  | .derived _ query label, _, done => by
      rw [relationOf] at done
      obtain ⟨_, inside, last⟩ := Result.bind_eq_ok.1 done
      rw [Grammar.TableFactor.kept, relationOf, Result.bind_of_ok (queryOf_kept query inside),
        Option.map_map]
      exact last
  | .nestedJoin _ _, _, done | .function _ _ _, _, done | .unnest _ _, _, done
  | .tableFunction _ _, _, done => done

theorem joinsOf_kept : (written : List Grammar.Join) → {made : List Join} →
    joinsOf written = .ok made → joinsOf (Grammar.keptJoins spelled written) = .ok made
  | [], _, done => done
  | ⟨operator, relation, matching, _⟩ :: others, _, done => by
      rw [joinsOf, joinOf] at done
      obtain ⟨_, here, rest⟩ := Result.bind_eq_ok.1 done
      obtain ⟨_, kind, same⟩ := Result.bind_eq_ok.1 here
      obtain ⟨_, condition, same⟩ := Result.bind_eq_ok.1 same
      obtain ⟨_, inside, same⟩ := Result.bind_eq_ok.1 same
      obtain ⟨_, there, last⟩ := Result.bind_eq_ok.1 rest
      rw [Grammar.keptJoins, Grammar.Join.kept, joinsOf, joinOf, Result.bind_of_ok kind,
        Result.bind_of_ok (conditionOf_kept matching condition),
        Result.bind_of_ok (relationOf_kept relation inside), Result.bind_of_ok same,
        Result.bind_of_ok (joinsOf_kept others there)]
      exact last

theorem conditionOf_kept : (written : Option Grammar.Matching) → {made : Option Expr} →
    conditionOf written = .ok made →
      conditionOf (Grammar.keptMatching spelled written) = .ok made
  | some (.on condition), _, done => by
      rw [conditionOf] at done
      obtain ⟨_, inside, last⟩ := Result.map_eq_ok.1 done
      rw [Grammar.keptMatching, conditionOf]
      exact Result.map_eq_ok.2 ⟨_, exprOf_kept condition inside, last⟩
  | none, _, done | some (.using _), _, done | some .natural, _, done => done

end

end

end Sql
end SemanticLayer
