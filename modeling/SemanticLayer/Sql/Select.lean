import SemanticLayer.Sql.Render

/-!
# Clauses of a SELECT

Views of and changes to a SELECT: its relations, its join conditions and the expressions of its
other clauses.
-/

namespace SemanticLayer.Sql

/-- The alias or the bare name by which a relation is referred to. -/
def Relation.referenceName? : Relation → Option Name
  | .table t => some (t.aliasName.getD t.name)
  | .derived _ aliasName => aliasName

/-- The relations of an entry of FROM, the first one in front. -/
def Source.relations (source : Source) : List Relation :=
  source.primary :: source.joins.map Join.relation

/-- Changes every relation of an entry of FROM. -/
def Source.mapRelationsM {m : Type → Type} [Monad m] (change : Relation → m Relation)
    (source : Source) : m Source := do
  let primary ← change source.primary
  let joins ← source.joins.mapM fun join => do
    pure { join with relation := ← change join.relation }
  pure { primary, joins }

/-- Changes every join condition of an entry of FROM. -/
def Source.mapConditionsM {m : Type → Type} [Monad m] (change : Expr → m Expr)
    (source : Source) : m Source := do
  let joins ← source.joins.mapM fun join => do
    match join.on with
    | some on => pure { join with on := some (← change on) }
    | none => pure join
  pure { source with joins }

namespace Select

/-- The relations of FROM, joined ones included. -/
def relations (select : Select) : List Relation :=
  (select.sources.getD []).flatMap Source.relations

/-- Changes every relation of FROM. -/
def mapRelationsM {m : Type → Type} [Monad m] (change : Relation → m Relation)
    (select : Select) : m Select := do
  match select.sources with
  | none => pure select
  | some sources => do
    pure { select with sources := some (← sources.mapM (Source.mapRelationsM change)) }

/-- Changes every join condition. -/
def mapConditionsM {m : Type → Type} [Monad m] (change : Expr → m Expr)
    (select : Select) : m Select := do
  match select.sources with
  | none => pure select
  | some sources => do
    pure { select with sources := some (← sources.mapM (Source.mapConditionsM change)) }

/-- Changes every expression outside of FROM, in the order projection, filter, grouping, filter of
groups, ordering. -/
def mapExprsM {m : Type → Type} [Monad m] (change : Expr → m Expr) (select : Select) :
    m Select := do
  let projection ← select.projection.mapM change
  let filter ← select.filter.mapM change
  let groupBy ← select.groupBy.mapM change
  let having ← select.having.mapM change
  let orderBy ← select.orderBy.mapM fun ordering => do
    pure { ordering with expr := ← change ordering.expr }
  pure { select with projection, filter, groupBy, having, orderBy }

/-- The expressions outside of FROM. -/
def exprs (select : Select) : List Expr :=
  select.projection ++ select.filter.toList ++ select.groupBy ++ select.having.toList ++
    select.orderBy.map Ordering.expr

/-- The SELECT restricted by one more condition. -/
def addFilter (select : Select) (predicate : Expr) : Select :=
  { select with
    filter := some <|
      match select.filter with
      | some filter => Expr.combine filter .and predicate
      | none => predicate }

/-- The SELECT with a join added to the first entry of FROM, which is made of `primary` if there is
none. -/
def joinFirst (select : Select) (primary : Relation) (join : Join) : Select :=
  let sources :=
    match select.sources.getD [] with
    | [] => [{ primary, joins := [join] }]
    | first :: rest => { first with joins := first.joins ++ [join] } :: rest
  { select with sources := some sources }

end Select
end SemanticLayer.Sql
