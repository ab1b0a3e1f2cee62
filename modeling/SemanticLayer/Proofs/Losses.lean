import SemanticLayer.Proofs.Keeping

/-!
# What reading a tree loses

Clauses that a query has no place for are not refused but dropped. A query has a tree of its own,
which is what is kept of every tree that it is read from, once each number is spelled in one way. So
two trees are read alike just if they are the same in all that is kept.
-/

namespace SemanticLayer
namespace Sql

/-! ## What is kept can be told -/

/-- One way to write each number that can be written. -/
structure Spelling where
  literal : Literal → String
  count : UInt64 → String
  literals : ∀ (text : String) (value : Literal), numberOf text = .ok value →
    numberOf (literal value) = .ok value
  counts : ∀ (text : String) (value : UInt64), Number.uint64? text.toList = some value →
    Number.uint64? (count value).toList = some value

/-- Each value that is read from some text can be given a text that it is read from. -/
theorem exists_text {α : Type} (reads : String → α → Prop) :
    ∃ write : α → String, ∀ text value, reads text value → reads (write value) value := by
  have each : ∀ value, ∃ other, ∀ text, reads text value → reads other value := by
    intro value
    by_cases written : ∃ text, reads text value
    · obtain ⟨text, read⟩ := written
      exact ⟨text, fun _ _ => read⟩
    · exact ⟨"", fun text read => absurd ⟨text, read⟩ written⟩
  choose write reads using each
  exact ⟨write, fun text value => reads value text⟩

theorem nonempty_spelling : Nonempty Spelling := by
  obtain ⟨literal, literals⟩ := exists_text fun text value => numberOf text = .ok value
  obtain ⟨count, counts⟩ := exists_text fun text value => Number.uint64? text.toList = some value
  exact ⟨{ literal, count, literals, counts }⟩

/-- Every number written in the one way. -/
def Spelling.respelling (spelling : Spelling) : Respelling where
  number text :=
    match numberOf text with
    | .ok value => spelling.literal value
    | .error _ => text
  count text :=
    match Number.uint64? text.toList with
    | some value => spelling.count value
    | none => text
  numbers text value read := by
    rw [read]
    exact spelling.literals text value read
  counts text value read := by
    rw [read]
    exact spelling.counts text value read

theorem Spelling.respelling_number (spelling : Spelling) {text : String} {value : Literal}
    (read : numberOf text = .ok value) :
    spelling.respelling.number text = spelling.literal value := by
  unfold respelling
  dsimp only
  rw [read]

theorem Spelling.respelling_count (spelling : Spelling) {text : String} {value : UInt64}
    (read : Number.uint64? text.toList = some value) :
    spelling.respelling.count text = spelling.count value := by
  unfold respelling
  dsimp only
  rw [read]

/-- The tree of an operator, apart from those that match patterns. -/
def BinaryOp.tree : BinaryOp → Grammar.Operator
  | .eq => .eq
  | .ne => .notEq
  | .lt => .lt
  | .gt => .gt
  | .lte => .ltEq
  | .gte => .gtEq
  | .and => .and
  | .or => .or
  | .plus => .plus
  | .minus => .minus
  | .times => .multiply
  | .divide => .divide
  | .modulo => .modulo
  | .concat => .concat
  | .like | .notLike => .other "Like"

def UnaryOp.tree : UnaryOp → Grammar.UnaryOperator
  | .not => .not
  | .minus => .minus
  | .plus => .plus

def JoinKind.tree : JoinKind → Grammar.JoinOperator
  | .inner => .inner
  | .left => .left
  | .right => .right
  | .full => .full
  | .cross => .cross

/-- The tree of a column that is written with its qualifier, if it has one. -/
def Column.tree (column : Column) : Grammar.Expr :=
  match column.path with
  | some (owner :: scope) => .compound owner ⟨scope, column.name⟩
  | _ => .identifier column.name

/-- The tree of an entry of a projection, given that of its expression. -/
def asItem : Expr → Grammar.Expr → Grammar.SelectItem
  | .aliased label _, tree => .aliased tree label
  | .wildcard none, _ => .wildcard {}
  | .wildcard (some path), _ => .qualifiedWildcard path {}
  | _, tree => .unnamed tree

/-- The tree of an argument, given that of its expression. -/
def asArgument : Expr → Grammar.Expr → Grammar.Argument
  | .wildcard none, _ => .wildcard
  | .wildcard (some path), _ => .qualifiedWildcard path
  | _, tree => .expr tree

section

variable (spelling : Spelling)

def Literal.tree : Literal → Grammar.Value
  | .string text => .string text
  | .bool value => .boolean value
  | .null => .null
  | number => .number (spelling.literal number)

def countTree (count? : Option UInt64) : Option Grammar.Expr :=
  count?.map fun count => .value (.number (spelling.count count))

mutual

/-- The tree of an expression, that of what it is an alias for if it has one. -/
def Expr.tree : Expr → Grammar.Expr
  | .column column => column.tree
  | .literal value => .value (value.tree spelling)
  | .wildcard _ => .value .null
  | .binary left .like right => .pattern .like false false left.tree right.tree none
  | .binary left .notLike right => .pattern .like true false left.tree right.tree none
  | .binary left op right => .binary left.tree op.tree right.tree
  | .unary op operand => .unary op.tree operand.tree
  | .call name path args distinct =>
    .call
      { name := ⟨path.getD [], name⟩
        arguments := some <|
          .list (if distinct then some .distinct else none) (argumentTrees args) [] none none [] }
  | .case operand conditions results otherwise =>
    .case (exprTree? operand) (exprTrees conditions) (exprTrees results) (exprTree? otherwise)
  | .between subject low high negated => .between subject.tree low.tree high.tree negated
  | .isNull subject false => .isNull subject.tree
  | .isNull subject true => .isNotNull subject.tree
  | .inList subject items negated => .inList subject.tree (exprTrees items) negated
  | .aliased _ child => child.tree
  | .nested inner => .nested inner.tree
  | .subquery query => .subquery query.tree

def exprTrees : List Expr → List Grammar.Expr
  | [] => []
  | first :: rest => first.tree :: exprTrees rest

def exprTree? : Option Expr → Option Grammar.Expr
  | some expr => some expr.tree
  | none => none

def argumentTrees : List Expr → List Grammar.Argument
  | [] => []
  | first :: rest => asArgument first first.tree :: argumentTrees rest

def itemTrees : List Expr → List Grammar.SelectItem
  | [] => []
  | first :: rest => asItem first first.tree :: itemTrees rest

def orderingTrees : List Ordering → List Grammar.Ordering
  | [] => []
  | ⟨expr, ascending, nullsFirst⟩ :: rest =>
    ⟨expr.tree, ascending, nullsFirst⟩ :: orderingTrees rest

def Relation.tree : Relation → Grammar.TableFactor
  | .table table =>
    .table ⟨table.path.getD [], table.name⟩ (table.aliasName.map fun name => { name }) none [] []
  | .derived query aliasName => .derived false query.tree (aliasName.map fun name => { name })

def matchingTree : Option Expr → Option Grammar.Matching
  | some condition => some (.on condition.tree)
  | none => none

def joinTrees : List Join → List Grammar.Join
  | [] => []
  | ⟨kind, relation, on⟩ :: rest =>
    { operator := kind.tree, relation := relation.tree, matching := matchingTree on } ::
      joinTrees rest

def sourceTrees : List Source → List Grammar.TableWithJoins
  | [] => []
  | ⟨primary, joins⟩ :: rest => ⟨primary.tree, joinTrees joins⟩ :: sourceTrees rest

def fromTrees : Option (List Source) → List Grammar.TableWithJoins
  | some sources => sourceTrees sources
  | none => []

def cteTrees : List Cte → List Grammar.Cte
  | [] => []
  | ⟨name, query⟩ :: rest => { label := { name }, query := query.tree } :: cteTrees rest

/-- The tree of a query. -/
def Query.tree : Query → Grammar.Query
  | ⟨ctes, ⟨distinct, projection, sources, filter, groupBy, having, orderBy, limit, offset⟩⟩ =>
    { ctes := cteTrees ctes
      body := .select
        { distinct := if distinct then .distinct else .all, projection := itemTrees projection
          sources := fromTrees sources, filter := exprTree? filter
          groupBy := some (exprTrees groupBy), having := exprTree? having }
      orderBy := orderingTrees orderBy, limit := countTree spelling limit
      offset := countTree spelling offset }

end

/-! ### What is kept is the tree of what is read -/

theorem tree_of_numberOf {text : String} {made : Literal} (done : numberOf text = .ok made) :
    made.tree spelling = .number (spelling.literal made) := by
  unfold numberOf at done
  split at done
  · cases done
    rfl
  · split at done
    · cases done
      rfl
    · cases done

theorem kept_of_literalOf {written : Grammar.Value} {made : Literal}
    (done : literalOf written = .ok made) :
    written.kept spelling.respelling = made.tree spelling := by
  cases written with
  | number text =>
      rw [literalOf] at done
      rw [Grammar.Value.kept, tree_of_numberOf spelling done, spelling.respelling_number done]
  | marked literal text => cases done
  | _ =>
      cases done
      rfl

theorem kept_of_countOf {written : Option Grammar.Expr} {made : Option UInt64}
    (done : countOf? written = .ok made) :
    Grammar.keptCount spelling.respelling written = countTree spelling made := by
  cases written with
  | none =>
      cases done
      rfl
  | some found =>
      obtain ⟨count, counted, rfl⟩ := Result.map_eq_ok.1 done
      unfold countOf at counted
      split at counted
      next text =>
        split at counted
        next read =>
          cases counted
          rw [Grammar.keptCount, spelling.respelling_count read]
          rfl
        next => cases counted
      next => cases counted

theorem tree_of_binaryOpOf {op : Grammar.Operator} {made : BinaryOp}
    (done : binaryOpOf op = .ok made) (left right : Expr) :
    (Expr.binary left made right).tree spelling =
      .binary (left.tree spelling) op (right.tree spelling) := by
  cases op
  all_goals
    cases done
    try rw [Expr.tree, BinaryOp.tree]
  all_goals exact fun same => nomatch same

theorem tree_of_unaryOpOf {op : Grammar.UnaryOperator} {made : UnaryOp}
    (done : unaryOpOf op = .ok made) : made.tree = op := by
  cases op
  all_goals
    cases done
    try rfl

theorem tree_of_joinKindOf {operator : Grammar.JoinOperator} {made : JoinKind}
    (done : joinKindOf operator = .ok made) : made.tree = operator := by
  cases operator
  all_goals
    cases done
    try rfl

theorem eq_of_distinctOf {rows : Grammar.Distinct} {made : Bool}
    (done : distinctOf rows = .ok made) : rows = if made then .distinct else .all := by
  cases rows
  all_goals
    cases done
    try rfl

/-- An expression that is read is neither a star nor aliased. -/
theorem plain_of_exprOf {written : Grammar.Expr} {made : Expr} (done : exprOf written = .ok made)
    (tree : Grammar.Expr) :
    asItem made tree = .unnamed tree ∧ asArgument made tree = .expr tree := by
  cases written with
  | identifier | compound =>
      cases done
      exact ⟨rfl, rfl⟩
  | value | nested | subquery =>
      rw [exprOf] at done
      obtain ⟨_, _, rfl⟩ := Result.map_eq_ok.1 done
      exact ⟨rfl, rfl⟩
  | isNull | isNotNull =>
      rw [exprOf] at done
      obtain ⟨_, _, last⟩ := Result.bind_eq_ok.1 done
      cases Result.pure_eq_ok.1 last
      exact ⟨rfl, rfl⟩
  | unary | inList =>
      rw [exprOf] at done
      obtain ⟨_, _, rest⟩ := Result.bind_eq_ok.1 done
      obtain ⟨_, _, last⟩ := Result.bind_eq_ok.1 rest
      cases Result.pure_eq_ok.1 last
      exact ⟨rfl, rfl⟩
  | binary | between =>
      rw [exprOf] at done
      obtain ⟨_, _, rest⟩ := Result.bind_eq_ok.1 done
      obtain ⟨_, _, rest⟩ := Result.bind_eq_ok.1 rest
      obtain ⟨_, _, last⟩ := Result.bind_eq_ok.1 rest
      cases Result.pure_eq_ok.1 last
      exact ⟨rfl, rfl⟩
  | case =>
      rw [exprOf] at done
      obtain ⟨_, _, rest⟩ := Result.bind_eq_ok.1 done
      obtain ⟨_, _, rest⟩ := Result.bind_eq_ok.1 rest
      obtain ⟨_, _, rest⟩ := Result.bind_eq_ok.1 rest
      obtain ⟨_, _, last⟩ := Result.bind_eq_ok.1 rest
      cases Result.pure_eq_ok.1 last
      exact ⟨rfl, rfl⟩
  | pattern =>
      rw [exprOf.eq_def] at done
      split at done
      any_goals contradiction
      next =>
        obtain ⟨_, _, rest⟩ := Result.bind_eq_ok.1 done
        obtain ⟨_, _, last⟩ := Result.bind_eq_ok.1 rest
        cases Result.pure_eq_ok.1 last
        exact ⟨rfl, rfl⟩
  | call called =>
      obtain ⟨_, _, _, _, _, _, _⟩ := called
      rw [exprOf, callOf] at done
      split at done
      · cases done
      · obtain ⟨_, _, last⟩ := Result.bind_eq_ok.1 done
        cases Result.pure_eq_ok.1 last
        exact ⟨rfl, rfl⟩
  | tuple | test | comparison | inSubquery | «exists» | grouping | special => cases done

mutual

theorem kept_of_exprOf : (written : Grammar.Expr) → {made : Expr} → exprOf written = .ok made →
    written.kept spelling.respelling = made.tree spelling
  | .identifier _, _, done | .compound _ _, _, done => by
      cases done
      rfl
  | .value literal, _, done => by
      rw [exprOf] at done
      obtain ⟨value, read, rfl⟩ := Result.map_eq_ok.1 done
      rw [Grammar.Expr.kept, Expr.tree, kept_of_literalOf spelling read]
  | .binary left op right, _, done => by
      rw [exprOf] at done
      obtain ⟨_, first, rest⟩ := Result.bind_eq_ok.1 done
      obtain ⟨_, operator, rest⟩ := Result.bind_eq_ok.1 rest
      obtain ⟨_, second, last⟩ := Result.bind_eq_ok.1 rest
      cases Result.pure_eq_ok.1 last
      rw [Grammar.Expr.kept, tree_of_binaryOpOf spelling operator, kept_of_exprOf left first,
        kept_of_exprOf right second]
  | .unary op operand, _, done => by
      rw [exprOf] at done
      obtain ⟨_, operator, rest⟩ := Result.bind_eq_ok.1 done
      obtain ⟨_, inner, last⟩ := Result.bind_eq_ok.1 rest
      cases Result.pure_eq_ok.1 last
      rw [Grammar.Expr.kept, Expr.tree, tree_of_unaryOpOf operator, kept_of_exprOf operand inner]
  | .pattern op negated any subject template escape, _, done => by
      rw [exprOf.eq_def] at done
      split at done
      any_goals contradiction
      next same =>
        cases same
        obtain ⟨_, first, rest⟩ := Result.bind_eq_ok.1 done
        obtain ⟨_, second, last⟩ := Result.bind_eq_ok.1 rest
        cases Result.pure_eq_ok.1 last
        rw [Grammar.Expr.kept, kept_of_exprOf subject first, kept_of_exprOf template second]
        cases negated with
        | false => rfl
        | true => rfl
  | .call called, _, done => by
      rw [exprOf] at done
      rw [Grammar.Expr.kept]
      exact kept_of_callOf called done
  | .case operand conditions results otherwise, _, done => by
      rw [exprOf] at done
      obtain ⟨_, first, rest⟩ := Result.bind_eq_ok.1 done
      obtain ⟨_, second, rest⟩ := Result.bind_eq_ok.1 rest
      obtain ⟨_, third, rest⟩ := Result.bind_eq_ok.1 rest
      obtain ⟨_, fourth, last⟩ := Result.bind_eq_ok.1 rest
      cases Result.pure_eq_ok.1 last
      rw [Grammar.Expr.kept, Expr.tree, kept_of_exprOf? operand first,
        kept_of_exprsOf conditions second, kept_of_exprsOf results third,
        kept_of_exprOf? otherwise fourth]
  | .between subject low high negated, _, done => by
      rw [exprOf] at done
      obtain ⟨_, first, rest⟩ := Result.bind_eq_ok.1 done
      obtain ⟨_, second, rest⟩ := Result.bind_eq_ok.1 rest
      obtain ⟨_, third, last⟩ := Result.bind_eq_ok.1 rest
      cases Result.pure_eq_ok.1 last
      rw [Grammar.Expr.kept, Expr.tree, kept_of_exprOf subject first, kept_of_exprOf low second,
        kept_of_exprOf high third]
  | .isNull subject, _, done => by
      rw [exprOf] at done
      obtain ⟨_, inner, last⟩ := Result.bind_eq_ok.1 done
      cases Result.pure_eq_ok.1 last
      rw [Grammar.Expr.kept, Expr.tree, kept_of_exprOf subject inner]
  | .isNotNull subject, _, done => by
      rw [exprOf] at done
      obtain ⟨_, inner, last⟩ := Result.bind_eq_ok.1 done
      cases Result.pure_eq_ok.1 last
      rw [Grammar.Expr.kept, Expr.tree, kept_of_exprOf subject inner]
  | .inList subject items negated, _, done => by
      rw [exprOf] at done
      obtain ⟨_, first, rest⟩ := Result.bind_eq_ok.1 done
      obtain ⟨_, second, last⟩ := Result.bind_eq_ok.1 rest
      cases Result.pure_eq_ok.1 last
      rw [Grammar.Expr.kept, Expr.tree, kept_of_exprOf subject first, kept_of_exprsOf items second]
  | .nested inner, _, done => by
      rw [exprOf] at done
      obtain ⟨_, inside, rfl⟩ := Result.map_eq_ok.1 done
      rw [Grammar.Expr.kept, Expr.tree, kept_of_exprOf inner inside]
  | .subquery query, _, done => by
      rw [exprOf] at done
      obtain ⟨_, inside, rfl⟩ := Result.map_eq_ok.1 done
      rw [Grammar.Expr.kept, Expr.tree, kept_of_queryOf query inside]
  | .tuple _, _, done | .test _ _, _, done | .comparison _ _ _, _, done
  | .inSubquery _ _ _, _, done | .exists _ _, _, done | .grouping _ _, _, done
  | .special _ _, _, done => nomatch done

theorem kept_of_exprsOf : (written : List Grammar.Expr) → {made : List Expr} →
    exprsOf written = .ok made →
      Grammar.keptExprs spelling.respelling written = exprTrees spelling made
  | [], _, done => by
      cases done
      rfl
  | first :: others, _, done => by
      rw [exprsOf] at done
      obtain ⟨_, here, rest⟩ := Result.bind_eq_ok.1 done
      obtain ⟨_, there, last⟩ := Result.bind_eq_ok.1 rest
      cases Result.pure_eq_ok.1 last
      rw [Grammar.keptExprs, exprTrees, kept_of_exprOf first here, kept_of_exprsOf others there]

theorem kept_of_exprOf? : (written : Option Grammar.Expr) → {made : Option Expr} →
    exprOf? written = .ok made →
      Grammar.keptExpr? spelling.respelling written = exprTree? spelling made
  | none, _, done => by
      cases done
      rfl
  | some found, _, done => by
      rw [exprOf?] at done
      obtain ⟨_, inside, rfl⟩ := Result.map_eq_ok.1 done
      rw [Grammar.keptExpr?, exprTree?, kept_of_exprOf found inside]

theorem kept_of_callOf : (written : Grammar.Call) → {made : Expr} → callOf written = .ok made →
    .call (written.kept spelling.respelling) = made.tree spelling
  | ⟨⟨scope, last⟩, _, given, _, filter, _, window⟩, _, done => by
      rw [callOf] at done
      split at done
      · cases done
      · obtain ⟨⟨found, distinct⟩, inside, last⟩ := Result.bind_eq_ok.1 done
        cases Result.pure_eq_ok.1 last
        rw [Grammar.Call.kept, Expr.tree, kept_of_argumentsOf given inside]
        cases scope with
        | nil => rfl
        | cons => rfl

theorem kept_of_argumentsOf : (written : Option Grammar.Arguments) → {made : List Expr} →
    {distinct : Bool} → argumentsOf written = .ok (made, distinct) →
      Grammar.keptArguments spelling.respelling written =
        .list (if distinct then some .distinct else none) (argumentTrees spelling made) [] none
          none []
  | none, _, _, done => by
      rw [argumentsOf] at done
      cases done
      rfl
  | some (.query _), _, _, done => by
      rw [argumentsOf] at done
      cases done
  | some (.list repeated items _ _ _ _), _, _, done => by
      rw [argumentsOf] at done
      obtain ⟨_, inside, last⟩ := Result.bind_eq_ok.1 done
      cases Result.pure_eq_ok.1 last
      rw [Grammar.keptArguments, kept_of_argumentListOf items inside]

theorem kept_of_argumentOf : (written : Grammar.Argument) → {made : Expr} →
    argumentOf written = .ok made →
      written.kept spelling.respelling = asArgument made (made.tree spelling)
  | .expr found, _, done => by
      rw [argumentOf] at done
      rw [Grammar.Argument.kept, kept_of_exprOf found done, (plain_of_exprOf done _).2]
  | .wildcard, _, done | .qualifiedWildcard _, _, done => by
      cases done
      rfl
  | .named _ _, _, done => nomatch done

theorem kept_of_argumentListOf : (written : List Grammar.Argument) → {made : List Expr} →
    argumentListOf written = .ok made →
      Grammar.keptItems spelling.respelling written = argumentTrees spelling made
  | [], _, done => by
      cases done
      rfl
  | first :: others, _, done => by
      rw [argumentListOf] at done
      obtain ⟨_, here, rest⟩ := Result.bind_eq_ok.1 done
      obtain ⟨_, there, last⟩ := Result.bind_eq_ok.1 rest
      cases Result.pure_eq_ok.1 last
      rw [Grammar.keptItems, argumentTrees, kept_of_argumentOf first here,
        kept_of_argumentListOf others there]

theorem kept_of_orderingsOf : (written : List Grammar.Ordering) → {made : List Ordering} →
    orderingsOf written = .ok made →
      Grammar.keptOrderings spelling.respelling written = orderingTrees spelling made
  | [], _, done => by
      cases done
      rfl
  | ⟨key, ascending, nullsFirst⟩ :: others, _, done => by
      rw [orderingsOf, orderingOf] at done
      obtain ⟨_, here, rest⟩ := Result.bind_eq_ok.1 done
      obtain ⟨_, inside, same⟩ := Result.bind_eq_ok.1 here
      obtain ⟨_, there, last⟩ := Result.bind_eq_ok.1 rest
      cases Result.pure_eq_ok.1 same
      cases Result.pure_eq_ok.1 last
      rw [Grammar.keptOrderings, Grammar.Ordering.kept, orderingTrees, kept_of_exprOf key inside,
        kept_of_orderingsOf others there]

theorem kept_of_queryOf : (written : Grammar.Query) → {made : Query} →
    queryOf written = .ok made → written.kept spelling.respelling = made.tree spelling
  | ⟨_, named, .query inner, _, _, _, _, _, _, _⟩, _, done => by
      rw [queryOf, bodyOf] at done
      obtain ⟨_, _, rest⟩ := Result.bind_eq_ok.1 done
      obtain ⟨_, found, same⟩ := Result.bind_eq_ok.1 rest
      obtain ⟨_, inside, rfl⟩ := Result.map_eq_ok.1 found
      cases Result.pure_eq_ok.1 same
      rw [Grammar.Query.kept]
      exact kept_of_queryOf inner inside
  | ⟨_, named, .select inner, orderBy, limit, _, offset, _, _, _⟩, _, done => by
      rw [queryOf, bodyOf] at done
      obtain ⟨_, ctes, rest⟩ := Result.bind_eq_ok.1 done
      obtain ⟨_, found, rest⟩ := Result.bind_eq_ok.1 rest
      obtain ⟨select, selected, rfl⟩ := Result.map_eq_ok.1 found
      obtain ⟨_, ordered, rest⟩ := Result.bind_eq_ok.1 rest
      obtain ⟨_, limited, rest⟩ := Result.bind_eq_ok.1 rest
      obtain ⟨_, skipped, last⟩ := Result.bind_eq_ok.1 rest
      cases Result.pure_eq_ok.1 last
      rw [Grammar.Query.kept, Query.tree, kept_of_ctesOf named ctes,
        kept_of_selectOf inner selected, kept_of_orderingsOf orderBy ordered,
        kept_of_countOf spelling limited, kept_of_countOf spelling skipped]
  | ⟨_, _, .combined _ _ _ _, _, _, _, _, _, _, _⟩, _, done
  | ⟨_, _, .values _, _, _, _, _, _, _, _⟩, _, done
  | ⟨_, _, .table _, _, _, _, _, _, _, _⟩, _, done
  | ⟨_, _, .change _ _ _ _ _, _, _, _, _, _, _, _⟩, _, done => by
      rw [queryOf, bodyOf] at done
      obtain ⟨_, _, rest⟩ := Result.bind_eq_ok.1 done
      cases rest

theorem kept_of_ctesOf : (written : List Grammar.Cte) → {made : List Cte} →
    ctesOf written = .ok made →
      Grammar.keptCtes spelling.respelling written = cteTrees spelling made
  | [], _, done => by
      cases done
      rfl
  | ⟨label, query, _⟩ :: others, _, done => by
      rw [ctesOf, cteOf] at done
      obtain ⟨_, here, rest⟩ := Result.bind_eq_ok.1 done
      obtain ⟨_, inside, same⟩ := Result.bind_eq_ok.1 here
      obtain ⟨_, there, last⟩ := Result.bind_eq_ok.1 rest
      cases Result.pure_eq_ok.1 same
      cases Result.pure_eq_ok.1 last
      rw [Grammar.keptCtes, Grammar.Cte.kept, cteTrees, kept_of_queryOf query inside,
        kept_of_ctesOf others there]
      rfl

theorem kept_of_selectOf : (written : Grammar.Select) → {made : Select} →
    selectOf written = .ok made →
      written.kept spelling.respelling =
        { distinct := if made.distinct then .distinct else .all
          projection := itemTrees spelling made.projection
          sources := fromTrees spelling made.sources
          filter := exprTree? spelling made.filter
          groupBy := some (exprTrees spelling made.groupBy)
          having := exprTree? spelling made.having }
  | ⟨_, _, _, projection, _, sources, _, filter, groups, modifiers, _, _, _, having, _, _⟩, _,
      done => by
      rw [selectOf] at done
      obtain ⟨_, first, rest⟩ := Result.bind_eq_ok.1 done
      obtain ⟨_, second, rest⟩ := Result.bind_eq_ok.1 rest
      obtain ⟨_, third, rest⟩ := Result.bind_eq_ok.1 rest
      obtain ⟨_, fourth, rest⟩ := Result.bind_eq_ok.1 rest
      obtain ⟨_, fifth, rest⟩ := Result.bind_eq_ok.1 rest
      obtain ⟨_, sixth, last⟩ := Result.bind_eq_ok.1 rest
      cases Result.pure_eq_ok.1 last
      rw [Grammar.Select.kept, eq_of_distinctOf first, kept_of_itemsOf projection second,
        kept_of_sourcesOf? sources third, kept_of_groupByOf modifiers groups fourth,
        kept_of_exprOf? filter fifth, kept_of_exprOf? having sixth]

theorem kept_of_groupByOf (modifiers : List String) : (written : Option (List Grammar.Expr)) →
    {made : List Expr} → groupByOf modifiers written = .ok made →
      Grammar.keptGroups spelling.respelling written = some (exprTrees spelling made)
  | none, _, done => by
      rw [groupByOf] at done
      cases done
  | some keys, _, done => by
      rw [groupByOf] at done
      split at done
      · rw [Grammar.keptGroups, kept_of_exprsOf keys done]
      · cases done

theorem kept_of_itemsOf : (written : List Grammar.SelectItem) → {made : List Expr} →
    itemsOf written = .ok made →
      Grammar.keptProjection spelling.respelling written = itemTrees spelling made
  | [], _, done => by
      cases done
      rfl
  | first :: others, _, done => by
      rw [itemsOf] at done
      obtain ⟨_, here, rest⟩ := Result.bind_eq_ok.1 done
      obtain ⟨_, there, last⟩ := Result.bind_eq_ok.1 rest
      cases Result.pure_eq_ok.1 last
      rw [Grammar.keptProjection, itemTrees, kept_of_itemOf first here,
        kept_of_itemsOf others there]

theorem kept_of_itemOf : (written : Grammar.SelectItem) → {made : Expr} →
    itemOf written = .ok made →
      written.kept spelling.respelling = asItem made (made.tree spelling)
  | .unnamed found, _, done => by
      rw [itemOf] at done
      rw [Grammar.SelectItem.kept, kept_of_exprOf found done, (plain_of_exprOf done _).1]
  | .aliased found label, _, done => by
      rw [itemOf] at done
      obtain ⟨_, inside, rfl⟩ := Result.map_eq_ok.1 done
      rw [Grammar.SelectItem.kept, kept_of_exprOf found inside, Expr.tree, asItem]
  | .wildcard _, _, done | .qualifiedWildcard _ _, _, done => by
      cases done
      rfl

theorem kept_of_sourcesOf? : (written : List Grammar.TableWithJoins) →
    {made : Option (List Source)} → sourcesOf? written = .ok made →
      Grammar.keptSources spelling.respelling written = fromTrees spelling made
  | [], _, done => by
      cases done
      rfl
  | ⟨relation, joins⟩ :: others, _, done => by
      rw [sourcesOf?, sourceOf] at done
      obtain ⟨_, here, rest⟩ := Result.bind_eq_ok.1 done
      obtain ⟨_, inside, same⟩ := Result.bind_eq_ok.1 here
      obtain ⟨_, joined, same⟩ := Result.bind_eq_ok.1 same
      obtain ⟨later, there, last⟩ := Result.bind_eq_ok.1 rest
      cases Result.pure_eq_ok.1 same
      cases Result.pure_eq_ok.1 last
      rw [Grammar.keptSources, Grammar.TableWithJoins.kept, fromTrees, sourceTrees,
        kept_of_relationOf relation inside, kept_of_joinsOf joins joined,
        kept_of_sourcesOf? others there]
      cases later with
      | none => rfl
      | some => rfl

theorem kept_of_relationOf : (written : Grammar.TableFactor) → {made : Relation} →
    relationOf written = .ok made → written.kept spelling.respelling = made.tree spelling
  | .table ⟨scope, name⟩ label _ _ _, _, done => by
      rw [relationOf] at done
      cases done
      rw [Grammar.TableFactor.kept, Relation.tree, Option.map_map]
      cases scope with
      | nil => rfl
      | cons => rfl
  | .derived _ query label, _, done => by
      rw [relationOf] at done
      obtain ⟨_, inside, last⟩ := Result.bind_eq_ok.1 done
      cases Result.pure_eq_ok.1 last
      rw [Grammar.TableFactor.kept, Relation.tree, kept_of_queryOf query inside, Option.map_map]
      rfl
  | .nestedJoin _ _, _, done | .function _ _ _, _, done | .unnest _ _, _, done
  | .tableFunction _ _, _, done => nomatch done

theorem kept_of_joinsOf : (written : List Grammar.Join) → {made : List Join} →
    joinsOf written = .ok made →
      Grammar.keptJoins spelling.respelling written = joinTrees spelling made
  | [], _, done => by
      cases done
      rfl
  | ⟨operator, relation, matching, _⟩ :: others, _, done => by
      rw [joinsOf, joinOf] at done
      obtain ⟨_, here, rest⟩ := Result.bind_eq_ok.1 done
      obtain ⟨_, kind, same⟩ := Result.bind_eq_ok.1 here
      obtain ⟨_, condition, same⟩ := Result.bind_eq_ok.1 same
      obtain ⟨_, inside, same⟩ := Result.bind_eq_ok.1 same
      obtain ⟨_, there, last⟩ := Result.bind_eq_ok.1 rest
      cases Result.pure_eq_ok.1 same
      cases Result.pure_eq_ok.1 last
      rw [Grammar.keptJoins, Grammar.Join.kept, joinTrees, tree_of_joinKindOf kind,
        kept_of_conditionOf matching condition, kept_of_relationOf relation inside,
        kept_of_joinsOf others there]

theorem kept_of_conditionOf : (written : Option Grammar.Matching) → {made : Option Expr} →
    conditionOf written = .ok made →
      Grammar.keptMatching spelling.respelling written = matchingTree spelling made
  | some (.on condition), _, done => by
      rw [conditionOf] at done
      obtain ⟨_, inside, rfl⟩ := Result.map_eq_ok.1 done
      rw [Grammar.keptMatching, matchingTree, kept_of_exprOf condition inside]
  | none, _, done => by
      cases done
      rfl
  | some (.using _), _, done | some .natural, _, done => nomatch done

end

end

/-! ## What is lost -/

/-- Two trees give the same query just if what is kept of them is the same, apart from how numbers
are spelled: whatever else they differ in is dropped. -/
theorem queries_read_alike_iff {first second : Grammar.Query} {one other : Query}
    (read : queryOf first = .ok one) (reads : queryOf second = .ok other) :
    one = other ↔ ∃ spelled : Respelling, first.kept spelled = second.kept spelled := by
  constructor
  · rintro rfl
    obtain ⟨spelling⟩ := nonempty_spelling
    exact ⟨spelling.respelling,
      (kept_of_queryOf spelling first read).trans (kept_of_queryOf spelling second reads).symm⟩
  · rintro ⟨spelled, same⟩
    have again := queryOf_kept spelled first read
    rw [same, queryOf_kept spelled second reads] at again
    exact (Except.ok.inj again).symm

/-- The amounts of orders, of all of them or of those that FETCH takes. -/
def amounts (fetch : Option Grammar.Fetch) : Grammar.Query :=
  { body := .select
      { distinct := .all, projection := [.unnamed (.identifier { value := "amount" })]
        sources := [{ relation := .table { last := { value := "orders" } } none none [] [] }] }
    fetch }

/-- How many rows are fetched is dropped. -/
theorem queries_read_alike_iff_amounts :
    amounts (some { quantity := some (.number "3") }) ≠ amounts none ∧
      ∃ taken all, queryOf (amounts (some { quantity := some (.number "3") })) = .ok taken ∧
        queryOf (amounts none) = .ok all ∧ taken = all := by
  constructor
  · intro same
    cases congrArg Grammar.Query.fetch same
  · have unchanged : Respelling :=
      { number := id, count := id, numbers := fun _ _ => id, counts := fun _ _ => id }
    have readable (fetch : Option Grammar.Fetch) : ∃ query, queryOf (amounts fetch) = .ok query :=
      ⟨_, rfl⟩
    obtain ⟨taken, read⟩ := readable (some { quantity := some (.number "3") })
    obtain ⟨all, reads⟩ := readable none
    exact ⟨taken, all, read, reads, (queries_read_alike_iff read reads).2 ⟨unchanged, rfl⟩⟩

end Sql
end SemanticLayer
