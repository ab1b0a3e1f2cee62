import SemanticLayer.Proofs.Numerals
import SemanticLayer.Proofs.Telling

/-!
# What trees of queries tell

The tree of a query tells the query if the trees of its clauses tell the clauses, each part by its
own tree.
-/

namespace SemanticLayer.Sql

/-- Whether an entry of a projection is read from a tree. -/
def Expr.ToldByItem (expr : Expr) (tree : Grammar.SelectItem) : Prop :=
  ∃ read, itemOf tree = .ok read ∧ read.equal expr.upperFunctions = true

/-- Whether a relation is read from a tree. -/
def Relation.ToldBy (relation : Relation) (tree : Grammar.TableFactor) : Prop :=
  ∃ read, relationOf tree = .ok read ∧ read.equal relation.upperFunctions = true

/-- Whether a join is read from a tree. -/
def Join.ToldBy (join : Join) (tree : Grammar.Join) : Prop :=
  ∃ read, joinOf tree = .ok read ∧ read.equal join.upperFunctions = true

/-- Whether an entry of FROM is read from a tree. -/
def Source.ToldBy (source : Source) (tree : Grammar.TableWithJoins) : Prop :=
  ∃ read, sourceOf tree = .ok read ∧ read.equal source.upperFunctions = true

/-- Whether an entry of ORDER BY is read from a tree. -/
def Ordering.ToldBy (ordering : Ordering) (tree : Grammar.Ordering) : Prop :=
  ∃ read, orderingOf tree = .ok read ∧ read.equal ordering.upperFunctions = true

/-- Whether a named query is read from a tree. -/
def Cte.ToldBy (cte : Cte) (tree : Grammar.Cte) : Prop :=
  ∃ read, cteOf tree = .ok read ∧ read.equal cte.upperFunctions = true

/-! ## Projections -/

theorem toldByItem_unnamed {expr : Expr} {tree : Grammar.Expr} (told : expr.ToldBy tree) :
    expr.ToldByItem (.unnamed tree) := by
  obtain ⟨read, given, same, -⟩ := told
  exact ⟨read, by rw [itemOf, given], same⟩

theorem toldByItem_aliased {name : Name} {child : Expr} {tree : Grammar.Expr}
    (told : child.ToldBy tree) :
    (Expr.aliased name child).ToldByItem (.aliased tree name.reread) := by
  obtain ⟨read, given, same, -⟩ := told
  refine ⟨.aliased name.reread read, ?_, ?_⟩
  · rw [itemOf, given]
    rfl
  · simp [Expr.upperFunctions, Expr.equal, name.reread_equal, same]

theorem toldByItem_wildcard (options : Grammar.WildcardOptions) :
    (Expr.wildcard none).ToldByItem (.wildcard options) :=
  ⟨_, rfl, rfl⟩

theorem toldByItem_path (path : Path) (options : Grammar.WildcardOptions) :
    (Expr.wildcard (some path)).ToldByItem
      (.qualifiedWildcard (path.map Name.reread) options) :=
  ⟨_, rfl, Path.reread_equal path⟩

theorem itemsOf_toldBy {items : List Expr} {trees : List Grammar.SelectItem}
    (each : List.Forall₂ Expr.ToldByItem items trees) :
    ∃ read, itemsOf trees = .ok read ∧ equalExprs read (upperFunctionsOfList items) = true := by
  induction each with
  | nil => exact ⟨[], rfl, rfl⟩
  | cons told _ ih =>
      obtain ⟨first, given, same⟩ := told
      obtain ⟨rest, givenRest, sameRest⟩ := ih
      refine ⟨first :: rest, ?_, ?_⟩
      · rw [itemsOf, given, givenRest]
        rfl
      · rw [upperFunctionsOfList, equalExprs, same, sameRest]
        rfl

/-! ## Relations -/

/-- The alias of a table as it is read back. -/
def aliasTree (name : Option Name) : Option Grammar.TableAlias :=
  name.map fun name => { name := name.reread }

theorem aliasTree_equal (name : Option Name) :
    ((aliasTree name).map Grammar.TableAlias.name == name) = true := by
  cases name with
  | none => rfl
  | some name => exact name.reread_equal

theorem Relation.toldBy_table {table : Table} (some : table.path ≠ some [])
    (items : Option (List Grammar.Argument)) (hints : List Grammar.Expr) (partitions : List Name) :
    (Relation.table table).ToldBy
      (.table ⟨(table.path.getD []).map Name.reread, table.name.reread⟩
        (aliasTree table.aliasName) items hints partitions) := by
  obtain ⟨name, path, aliasName⟩ := table
  refine ⟨_, rfl, ?_⟩
  have samePath : ((if (path.getD []).map Name.reread = [] then none
      else Option.some ((path.getD []).map Name.reread)) == path) = true := by
    rcases path with - | - | ⟨first, rest⟩
    · rfl
    · exact absurd rfl some
    · exact Path.reread_equal (first :: rest)
  show (name.reread == name && (_ == path) && (_ == aliasName)) = true
  rw [name.reread_equal, aliasTree_equal, Bool.true_and, Bool.and_true]
  exact samePath

theorem Relation.toldBy_derived {query : Query} {tree : Grammar.Query} {name : Option Name}
    (told : query.ToldBy tree) :
    (Relation.derived query name).ToldBy (.derived false tree (aliasTree name)) := by
  obtain ⟨read, given, same⟩ := told
  refine ⟨.derived read ((aliasTree name).map Grammar.TableAlias.name), ?_, ?_⟩
  · rw [relationOf, given]
    rfl
  · simp [Relation.upperFunctions, Relation.equal, aliasTree_equal, same]

theorem Join.toldBy {kind : JoinKind} {relation : Relation} {on : Option Expr}
    {operator : Grammar.JoinOperator} {tree : Grammar.TableFactor} {condition : Option Grammar.Expr}
    (given : joinKindOf operator = .ok kind) (told : relation.ToldBy tree)
    (toldOn : ToldBy? on condition) :
    (Join.mk kind relation on).ToldBy
      { operator, relation := tree, matching := condition.map .on } := by
  obtain ⟨read, givenRelation, same⟩ := told
  obtain ⟨readOn, givenOn, sameOn⟩ := toldOn
  have conditionOf_eq : conditionOf (condition.map .on) = .ok readOn := by
    cases condition with
    | none => exact givenOn
    | some condition => exact givenOn
  refine ⟨⟨kind, read, readOn⟩, ?_, ?_⟩
  · rw [joinOf, given, conditionOf_eq, givenRelation]
    rfl
  · simp [Join.upperFunctions, Join.equal, same, sameOn]

theorem joinsOf_toldBy {joins : List Join} {trees : List Grammar.Join}
    (each : List.Forall₂ Join.ToldBy joins trees) :
    ∃ read, joinsOf trees = .ok read ∧ equalJoins read (upperFunctionsOfJoins joins) = true := by
  induction each with
  | nil => exact ⟨[], rfl, rfl⟩
  | cons told _ ih =>
      obtain ⟨first, given, same⟩ := told
      obtain ⟨rest, givenRest, sameRest⟩ := ih
      refine ⟨first :: rest, ?_, ?_⟩
      · rw [joinsOf, given, givenRest]
        rfl
      · rw [upperFunctionsOfJoins, equalJoins, same, sameRest]
        rfl

theorem Source.toldBy {primary : Relation} {joins : List Join} {tree : Grammar.TableFactor}
    {trees : List Grammar.Join} (told : primary.ToldBy tree)
    (each : List.Forall₂ Join.ToldBy joins trees) :
    (Source.mk primary joins).ToldBy { relation := tree, joins := trees } := by
  obtain ⟨read, given, same⟩ := told
  obtain ⟨reads, givenJoins, sameJoins⟩ := joinsOf_toldBy each
  refine ⟨⟨read, reads⟩, ?_, ?_⟩
  · rw [sourceOf, given, givenJoins]
    rfl
  · simp [Source.upperFunctions, Source.equal, same, sameJoins]

theorem sourcesOf_toldBy {sources : List Source} {trees : List Grammar.TableWithJoins}
    (each : List.Forall₂ Source.ToldBy sources trees) :
    ∃ read, sourcesOf? trees = .ok read ∧
      equalSources (read.getD []) (upperFunctionsOfSources sources) = true ∧
      (sources ≠ [] → read.isSome = true) := by
  induction each with
  | nil => exact ⟨none, rfl, rfl, fun some => absurd rfl some⟩
  | cons told _ ih =>
      obtain ⟨first, given, same⟩ := told
      obtain ⟨rest, givenRest, sameRest, -⟩ := ih
      refine ⟨some (first :: rest.getD []), ?_, ?_, fun _ => rfl⟩
      · rw [sourcesOf?, given, givenRest]
        rfl
      · rw [upperFunctionsOfSources, Option.getD_some, equalSources, same, sameRest]
        rfl

theorem sourcesOf?_toldBy {sources : Option (List Source)} {trees : List Grammar.TableWithJoins}
    (some : sources ≠ some []) (each : List.Forall₂ Source.ToldBy (sources.getD []) trees) :
    ∃ read, sourcesOf? trees = .ok read ∧
      equalSources? read (upperFunctionsOfSources? sources) = true := by
  obtain ⟨read, given, same, there⟩ := sourcesOf_toldBy each
  refine ⟨read, given, ?_⟩
  cases sources with
  | none =>
      cases each
      cases given
      rfl
  | some sources =>
      have filled : sources ≠ [] := by
        rintro rfl
        exact some rfl
      cases read with
      | none => cases there filled
      | some read => exact same

/-! ## Orderings and counts -/

theorem Ordering.toldBy {expr : Expr} {tree : Grammar.Expr} (told : expr.ToldBy tree)
    (ascending nullsFirst : Option Bool) :
    (Ordering.mk expr ascending nullsFirst).ToldBy { expr := tree, ascending, nullsFirst } := by
  obtain ⟨read, given, same, -⟩ := told
  refine ⟨⟨read, ascending, nullsFirst⟩, ?_, ?_⟩
  · rw [orderingOf, given]
    rfl
  · simp [Ordering.upperFunctions, Ordering.equal, same]

theorem orderingsOf_toldBy {orderings : List Ordering} {trees : List Grammar.Ordering}
    (each : List.Forall₂ Ordering.ToldBy orderings trees) :
    ∃ read, orderingsOf trees = .ok read ∧
      equalOrderings read (upperFunctionsOfOrderings orderings) = true := by
  induction each with
  | nil => exact ⟨[], rfl, rfl⟩
  | cons told _ ih =>
      obtain ⟨first, given, same⟩ := told
      obtain ⟨rest, givenRest, sameRest⟩ := ih
      refine ⟨first :: rest, ?_, ?_⟩
      · rw [orderingsOf, given, givenRest]
        rfl
      · rw [upperFunctionsOfOrderings, equalOrderings, same, sameRest]
        rfl

/-- The tree of a count of rows. -/
def countExpr (count : Option UInt64) : Option Grammar.Expr :=
  count.map fun n => .value (.number (Number.intText n.toInt64.toInt))

/-- A count that a signed word holds is read back from its digits. -/
theorem countOf?_countExpr {count : Option UInt64} (small : ∀ n ∈ count, n.toNat < 2 ^ 63) :
    countOf? (countExpr count) = .ok count := by
  cases count with
  | none => rfl
  | some n =>
      have signed := Number.toInt_toInt64 (small n rfl)
      have text : Number.intText (Int.ofNat n.toNat) = String.ofList (Number.natText n.toNat) := rfl
      have bounded : n.toNat ≤ Number.maxUnsigned := Nat.le_of_lt_succ n.toNat_lt
      have read : countOf (.value (.number (Number.intText n.toInt64.toInt))) = .ok n := by
        rw [signed, text, countOf, String.toList_ofList, Number.uint64?_natText bounded,
          UInt64.ofNat_toNat]
      rw [countExpr, Option.map_some, countOf?, read]
      rfl

/-! ## Queries -/

theorem Cte.toldBy {name : Name} {query : Query} {tree : Grammar.Query} (told : query.ToldBy tree) :
    (Cte.mk name query).ToldBy { label := { name := name.reread }, query := tree } := by
  obtain ⟨read, given, same⟩ := told
  refine ⟨⟨name.reread, read⟩, ?_, ?_⟩
  · rw [cteOf, given]
    rfl
  · simp [Cte.upperFunctions, Cte.equal, name.reread_equal, same]

theorem ctesOf_toldBy {ctes : List Cte} {trees : List Grammar.Cte}
    (each : List.Forall₂ Cte.ToldBy ctes trees) :
    ∃ read, ctesOf trees = .ok read ∧ equalCtes read (upperFunctionsOfCtes ctes) = true := by
  induction each with
  | nil => exact ⟨[], rfl, rfl⟩
  | cons told _ ih =>
      obtain ⟨first, given, same⟩ := told
      obtain ⟨rest, givenRest, sameRest⟩ := ih
      refine ⟨first :: rest, ?_, ?_⟩
      · rw [ctesOf, given, givenRest]
        rfl
      · rw [upperFunctionsOfCtes, equalCtes, same, sameRest]
        rfl

/-- A query is told by the tree of which each part tells the part of the query. -/
theorem Query.toldBy {ctes : List Cte} {select : Select} {cteTrees : List Grammar.Cte}
    {items : List Grammar.SelectItem} {tables : List Grammar.TableWithJoins}
    {filterTree havingTree : Option Grammar.Expr} {keys : List Grammar.Expr}
    {orderings : List Grammar.Ordering} (toldCtes : List.Forall₂ Cte.ToldBy ctes cteTrees)
    (toldItems : List.Forall₂ Expr.ToldByItem select.projection items)
    (some : select.sources ≠ some [])
    (toldSources : List.Forall₂ Source.ToldBy (select.sources.getD []) tables)
    (toldFilter : ToldBy? select.filter filterTree)
    (toldKeys : List.Forall₂ Expr.ToldBy select.groupBy keys)
    (toldHaving : ToldBy? select.having havingTree)
    (toldOrderings : List.Forall₂ Ordering.ToldBy select.orderBy orderings)
    (smallLimit : ∀ n ∈ select.limit, n.toNat < 2 ^ 63)
    (smallOffset : ∀ n ∈ select.offset, n.toNat < 2 ^ 63) :
    (Query.mk ctes select).ToldBy
      { ctes := cteTrees
        body := .select
          { distinct := if select.distinct then .distinct else .all, projection := items
            sources := tables, filter := filterTree, groupBy := Option.some keys
            having := havingTree }
        orderBy := orderings, limit := countExpr select.limit
        offset := countExpr select.offset } := by
  obtain ⟨distinct, projection, sources, filter, groupBy, having, orderBy, limit, offset⟩ := select
  obtain ⟨readCtes, givenCtes, sameCtes⟩ := ctesOf_toldBy toldCtes
  obtain ⟨readItems, givenItems, sameItems⟩ := itemsOf_toldBy toldItems
  obtain ⟨readSources, givenSources, sameSources⟩ := sourcesOf?_toldBy some toldSources
  obtain ⟨readFilter, givenFilter, sameFilter⟩ := toldFilter
  obtain ⟨readKeys, givenKeys, sameKeys⟩ := toldByAll toldKeys
  obtain ⟨readHaving, givenHaving, sameHaving⟩ := toldHaving
  obtain ⟨readOrderings, givenOrderings, sameOrderings⟩ := orderingsOf_toldBy toldOrderings
  have kept : distinctOf (if distinct then .distinct else .all) = .ok distinct := by
    cases distinct <;> rfl
  have keys_eq : groupByOf [] (Option.some keys) = .ok readKeys := givenKeys
  refine ⟨⟨readCtes, ⟨distinct, readItems, readSources, readFilter, readKeys, readHaving,
    readOrderings, limit, offset⟩⟩, ?_, ?_⟩
  · rw [queryOf, givenCtes, bodyOf, selectOf, kept, givenItems, givenSources, keys_eq, givenFilter,
      givenHaving, givenOrderings, countOf?_countExpr smallLimit, countOf?_countExpr smallOffset]
    rfl
  · simp [Query.upperFunctions, Query.equal, Select.upperFunctions, Select.equal, sameCtes,
      sameItems, sameSources, sameFilter, sameKeys, sameHaving, sameOrderings]

end SemanticLayer.Sql
