import SemanticLayer.Proofs.Descent
import SemanticLayer.Proofs.Likeness
import SemanticLayer.Proofs.Origins
import SemanticLayer.Proofs.Repeats

/-!
# Queries where parents are declared again

A query is compiled from the parents of a node in the order that they are declared. Names, joins and
databases do not tell whether a parent is declared again. Where every parent is counted once for the
columns without a qualifier, queries are the same.
-/

namespace SemanticLayer.Planner

open SemanticLayer.Sql
open Result (Alongside)
open Catalog (Node Database Hop References Thinned CountedOnce thinned_parents thinned_roots
  node_unrepeated_of_ok node_unrepeated_of_error node?_unrepeated contains_unrepeated)

variable {catalog : Catalog} {name : String} {node : Node} {nodes others : List Node}
  {database : Database}

/-! ## Names and owners -/

/-- The nodes that stand in FROM go by the same names. -/
theorem NodeNames.ofSelect_eq_of_thinned (thinned : Thinned name nodes others) (select : Select) :
    NodeNames.ofSelect select others = NodeNames.ofSelect select nodes := by
  have same : addRelation others = addRelation nodes := by
    funext names relation
    cases relation with
    | derived query aliasName => rfl
    | table table =>
        rw [addRelation, addRelation, thinned.find?_eq]
        cases nodes.find? fun node => node.name == table.fullName <;> rfl
  rw [ofSelect, ofSelect, same]

/-- Columns get the same owners if each of them has the same one. -/
theorem qualifyColumns_congr {select : Select}
    (same : ∀ column ∈ select.columns,
      qualifyColumn (NodeNames.ofSelect select others) others column =
        qualifyColumn (NodeNames.ofSelect select nodes) nodes column) :
    qualifyColumns select others = qualifyColumns select nodes :=
  Select.walk_congr same

theorem owners_eq {column : String}
    (same : (others.filter fun parent => parent.hasColumn column) =
      (nodes.filter fun parent => parent.hasColumn column).map (Node.unrepeated name))
    (names : NodeNames) : owners names others column = owners names nodes column := by
  rw [owners, owners, ← List.filterMap_filter, ← List.filterMap_filter, same, List.filterMap_map]
  rfl

/-- The columns of an expression get the same owners among the parents. -/
theorem qualifyColumns_unrepeated (once : catalog.CountedOnce name) (member : node ∈ catalog.nodes)
    {text : String} (written : node.expression = some text) {query : Query}
    (read : Query.ofText text none = .ok query) :
    qualifyColumns query.select ((catalog.unrepeated name).parents (node.unrepeated name)) =
      qualifyColumns query.select (catalog.parents node) := by
  refine qualifyColumns_congr fun column shown => ?_
  rw [NodeNames.ofSelect_eq_of_thinned (thinned_parents catalog node), qualifyColumn, qualifyColumn]
  split
  · rfl
  next unqualified =>
    have bare := writesBare_of_ofText read shown (by simpa using unqualified)
    rw [owners_eq (once.filter_parents member ⟨text, written, bare⟩)]

/-! ## Relations -/

/-- The same relations take the place of nodes if each node has the same one. -/
theorem bindRelations_unrepeated {bind other : Node → Option Name → Result Relation}
    (thinned : Thinned name nodes others)
    (same : ∀ node ∈ nodes, other (node.unrepeated name) = bind node) (select : Select) :
    bindRelations other select others = bindRelations bind select nodes := by
  have relation : bindRelation other others = bindRelation bind nodes := by
    funext relation
    cases relation with
    | derived query aliasName => rfl
    | table table =>
        rw [bindRelation, bindRelation, thinned.find?_eq]
        cases found : nodes.find? fun node => node.name == table.fullName with
        | none => rfl
        | some node => exact congrFun (same node (List.mem_of_find?_eq_some found)) table.aliasName
  rw [bindRelations, bindRelations, relation]

theorem expressionQuery_unrepeated (once : catalog.CountedOnce name) (member : node ∈ catalog.nodes)
    {bind other : Node → Option Name → Result Relation}
    (same : ∀ parent ∈ catalog.parents node, other (parent.unrepeated name) = bind parent) :
    expressionQuery (catalog.unrepeated name) other (node.unrepeated name) =
      expressionQuery catalog bind node := by
  rw [expressionQuery, expressionQuery, Node.expression_unrepeated]
  cases written : node.expression with
  | none => rfl
  | some text =>
      dsimp only
      cases read : Query.ofText text none with
      | error failure => rfl
      | ok query =>
          rw [Result.bind_of_ok rfl, Result.bind_of_ok rfl]
          rw [qualifyColumns_unrepeated once member written read]
          refine bind_congr fun qualified => ?_
          rw [bindRelations_unrepeated (thinned_parents catalog node) same]

theorem relationWithin_unrepeated (once : catalog.CountedOnce name) (depth : Nat)
    (member : node ∈ catalog.nodes) :
    relationWithin (catalog.unrepeated name) database depth (node.unrepeated name) =
      relationWithin catalog database depth node := by
  induction depth generalizing node with
  | zero => rfl
  | succ depth ih =>
      funext aliasName
      rw [relationWithin, relationWithin, expressionQuery_unrepeated once member fun parent isParent =>
        ih (Catalog.mem_of_mem_parents isParent).1]
      rfl

/-- A node is the same relation of a database. -/
theorem relationOf_unrepeated (once : catalog.CountedOnce name) (member : node ∈ catalog.nodes) :
    relationOf (catalog.unrepeated name) database (node.unrepeated name) =
      relationOf catalog database node := by
  funext aliasName
  rw [relationOf, relationOf, Catalog.unrepeated, List.length_map]
  exact congrFun (relationWithin_unrepeated once _ member) aliasName

theorem queryOf_unrepeated (once : catalog.CountedOnce name) (member : node ∈ catalog.nodes)
    (stored : Bool) :
    queryOf (catalog.unrepeated name) database (node.unrepeated name) stored =
      queryOf catalog database node stored := by
  rw [queryOf, queryOf, expressionQuery_unrepeated once member fun parent isParent =>
    relationOf_unrepeated once (Catalog.mem_of_mem_parents isParent).1]
  rfl

/-! ## Joins -/

theorem mem_of_node {other : String} (known : catalog.node other = .ok node) :
    node ∈ catalog.nodes :=
  (Catalog.mem_of_node? (Demand.node?_of_node known)).1

namespace Joins

theorem addHop_unrepeated (once : catalog.CountedOnce name) (joins : Joins) (hop : Hop) :
    joins.addHop (catalog.unrepeated name) database hop = joins.addHop catalog database hop := by
  cases known : catalog.node hop.dimension with
  | error failure =>
      rw [addHop, addHop, Result.bind_of_error (node_unrepeated_of_error known),
        Result.bind_of_error known]
  | ok dimension =>
      have relation : relationOf (catalog.unrepeated name) database (dimension.unrepeated name) =
          relationOf catalog database dimension := relationOf_unrepeated once (mem_of_node known)
      rw [addHop, addHop, Result.bind_of_ok (node_unrepeated_of_ok known), Result.bind_of_ok known,
        relation]

/-- Paths are joined in the same way. -/
theorem addPath_unrepeated (once : catalog.CountedOnce name) :
    addPath (catalog.unrepeated name) database = addPath catalog database := by
  have along (path : List Hop) (joins : Joins) :
      joins.along (catalog.unrepeated name) database path = joins.along catalog database path := by
    induction path generalizing joins with
    | nil => rfl
    | cons hop path ih =>
        rw [Joins.along, Joins.along, addHop_unrepeated once]
        cases joins.addHop catalog database hop with
        | error failure => rfl
        | ok next => exact ih next
  funext joins path
  rw [addPath, addPath, along]

end Joins

/-! ## Demands -/

/-- A demand of nodes of a catalog, and the same one where the node of a name declares each parent
once. -/
structure Demand.Unrepeated (catalog : Catalog) (name : String) (demand other : Demand) : Prop where
  thinned : Thinned name demand.nodes other.nodes
  inside : demand.nodes ⊆ catalog.nodes
  references : other.references = demand.references

namespace Demand

variable {demand other : Demand} {path : List Hop}

theorem Unrepeated.addColumn (unrepeated : demand.Unrepeated catalog name other)
    (node column : String) :
    (demand.addColumn node column).Unrepeated catalog name (other.addColumn node column) :=
  ⟨unrepeated.thinned, unrepeated.inside,
    congrArg (References.add node column) unrepeated.references⟩

theorem Unrepeated.addNode (unrepeated : demand.Unrepeated catalog name other)
    (member : node ∈ catalog.nodes) :
    (demand.addNode node).Unrepeated catalog name (other.addNode (node.unrepeated name)) := by
  rw [Demand.addNode, Demand.addNode, Node.name_unrepeated, unrepeated.thinned.any_eq]
  split
  · exact unrepeated
  · refine ⟨unrepeated.thinned.concat node, fun other there => ?_, unrepeated.references⟩
    rcases List.mem_append.1 there with before | last
    · exact unrepeated.inside before
    · exact List.mem_singleton.1 last ▸ member

/-- A path is demanded in the same way. -/
theorem Unrepeated.addPath (unrepeated : demand.Unrepeated catalog name other) (path : List Hop) :
    Alongside (Demand.Unrepeated catalog name) (demand.addPath catalog path)
      (other.addPath (catalog.unrepeated name) path) := by
  refine Alongside.foldlM_same (fun demand other hop unrepeated => ?_) path unrepeated
  cases known : catalog.node hop.dimension with
  | error failure =>
      rw [addHop, addHop, Result.bind_of_error (node_unrepeated_of_error known),
        Result.bind_of_error known]
      exact .error failure
  | ok dimension =>
      rw [addHop, addHop, Result.bind_of_ok (node_unrepeated_of_ok known), Result.bind_of_ok known]
      exact .ok (((unrepeated.addColumn _ _).addColumn _ _).addNode (mem_of_node known))

theorem Unrepeated.database_eq (once : catalog.CountedOnce name)
    (unrepeated : demand.Unrepeated catalog name other) (requested : Option Int) :
    other.database (catalog.unrepeated name) requested = demand.database catalog requested := by
  rw [Demand.database, Demand.database, unrepeated.references]
  exact once.databaseFor_eq unrepeated.thinned unrepeated.inside _ requested

end Demand

/-- Two demands with paths to join, the same but for parents that are declared again. -/
abbrev SameDemand (catalog : Catalog) (name : String) (found other : Demand × List (List Hop)) :
    Prop :=
  found.1.Unrepeated catalog name other.1 ∧ other.2 = found.2

variable {found other : Demand × List (List Hop)}

/-- The demand of a path, if there is one. -/
theorem SameDemand.addPath (accepted : catalog.Accepted) (thinned : Thinned name nodes others)
    (inside : nodes ⊆ catalog.nodes) (same : SameDemand catalog name found other)
    (dimension : String) (missing : Error) :
    Alongside (SameDemand catalog name)
      (match catalog.dimensionPath nodes dimension with
        | none => .error missing
        | some path => do
          let demand ← found.1.addPath catalog path
          pure (demand, found.2 ++ [path]))
      (match (catalog.unrepeated name).dimensionPath others dimension with
        | none => .error missing
        | some path => do
          let demand ← other.1.addPath (catalog.unrepeated name) path
          pure (demand, other.2 ++ [path])) := by
  rw [accepted.dimensionPath_eq thinned inside]
  cases catalog.dimensionPath nodes dimension with
  | none => exact .error missing
  | some path =>
      refine (same.1.addPath path).bind fun demand demandToo unrepeated => ?_
      exact .ok ⟨unrepeated, congrArg (· ++ [path]) same.2⟩

/-! ## Queries for nodes -/

theorem checkDimensions_unrepeated (accepted : catalog.Accepted) (member : node ∈ catalog.nodes)
    (names : List String) :
    checkDimensions (catalog.unrepeated name) (node.unrepeated name) names =
      checkDimensions catalog node names := by
  rw [checkDimensions, checkDimensions, accepted.dimensions_eq member]

/-- Dimensions are demanded in the same way. -/
theorem demandDimensions_alongside (accepted : catalog.Accepted)
    (thinned : Thinned name nodes others) (inside : nodes ⊆ catalog.nodes) (node : Node)
    (same : SameDemand catalog name found other) (dimensions : List String) :
    Alongside (SameDemand catalog name)
      (dimensions.foldlM (demandDimension catalog node nodes) found)
      (dimensions.foldlM (demandDimension (catalog.unrepeated name) (node.unrepeated name) others)
        other) := by
  refine Alongside.foldlM_same (fun found other dimension same => ?_) dimensions same
  rw [demandDimension, demandDimension]
  refine (Alongside.of_eq rfl).bind fun parts _ agree => ?_
  subst agree
  have columns := same.1.addColumn parts.1 parts.2
  dsimp only
  rw [thinned.any_eq]
  split
  · exact .ok ⟨columns, same.2⟩
  · have begun : SameDemand catalog name (found.1.addColumn parts.1 parts.2, found.2)
        (other.1.addColumn parts.1 parts.2, other.2) := ⟨columns, same.2⟩
    exact begun.addPath accepted thinned inside parts.1 _

theorem namesInQuery_unrepeated (node : Node) (query : Query) :
    namesInQuery (catalog.unrepeated name) (node.unrepeated name) query =
      namesInQuery catalog node query := by
  simp only [namesInQuery, Node.expression_unrepeated,
    NodeNames.ofSelect_eq_of_thinned (thinned_parents catalog node)]

/-- A node is queried in the same way. -/
theorem nodeQuery_unrepeated (accepted : catalog.Accepted) (once : catalog.CountedOnce name)
    (member : node ∈ catalog.nodes) (groupBys filters : List String) (requested : Option Int) :
    nodeQuery (catalog.unrepeated name) (node.unrepeated name) groupBys filters requested =
      nodeQuery catalog node groupBys filters requested := by
  have roots : Thinned name (catalog.roots node)
      ((catalog.unrepeated name).roots (node.unrepeated name)) := thinned_roots catalog node
  have inside := Catalog.roots_subset member
  rw [nodeQuery, nodeQuery]
  refine bind_congr fun filters => ?_
  dsimp only
  rw [checkDimensions_unrepeated accepted member, once.nodeReferences_eq member]
  refine bind_congr fun _ => bind_congr fun references => ?_
  have begun : SameDemand catalog name ({ nodes := catalog.roots node, references }, [])
      ({ nodes := (catalog.unrepeated name).roots (node.unrepeated name), references }, []) :=
    ⟨⟨roots, inside, rfl⟩, rfl⟩
  refine Eq.symm ((demandDimensions_alongside accepted roots inside node begun _).bind_eq ?_)
  rintro ⟨demand, paths⟩ ⟨other, _⟩ ⟨unrepeated, rfl⟩
  have demanded (stored : Bool) :
      (if stored then { demand with nodes := [node] } else demand).Unrepeated catalog name
        (if stored then { other with nodes := [node.unrepeated name] } else other) := by
    cases stored with
    | true =>
        exact ⟨Catalog.thinned_map [node], List.cons_subset.2 ⟨member, List.nil_subset _⟩,
          unrepeated.references⟩
    | false => exact unrepeated
  dsimp only
  rw [(demanded _).database_eq once requested]
  refine bind_congr fun database => ?_
  rw [queryOf_unrepeated once member, Joins.addPath_unrepeated once]
  refine bind_congr fun query => ?_
  rw [namesInQuery_unrepeated]

/-! ## SQL over metrics -/

/-- The metric of the same node, with each parent declared once if it is the one of a name. -/
def Metric.unrepeated (name : String) (metric : Metric) : Metric :=
  { metric with node := metric.node.unrepeated name }

theorem Metric.ofNode_unrepeated (once : catalog.CountedOnce name) (member : node ∈ catalog.nodes) :
    Metric.ofNode (catalog.unrepeated name) (node.unrepeated name) =
      (Metric.ofNode catalog node).map (Metric.unrepeated name) := by
  rw [ofNode, ofNode, Node.expression_unrepeated]
  cases written : node.expression with
  | none => rfl
  | some text =>
      dsimp only
      cases read : Query.ofText text none with
      | error failure => rfl
      | ok query =>
          rw [Result.bind_of_ok rfl, Result.bind_of_ok rfl,
            qualifyColumns_unrepeated once member written read,
            NodeNames.ofSelect_eq_of_thinned (thinned_parents catalog node)]
          cases qualifyColumns query.select (catalog.parents node) with
          | error failure => rfl
          | ok select =>
              rw [Result.bind_of_ok rfl, Result.bind_of_ok rfl]
              cases select.projection <;> rfl

/-- Metrics are over the same set of parents. -/
theorem Metric.parentSet_unrepeated (metric : Metric) :
    (metric.unrepeated name).parentSet = metric.parentSet :=
  Catalog.sortedSet_congr fun _ => (Catalog.trimmed_parents name metric.node).mem_iff.symm

theorem checkParents_unrepeated (metrics : List Metric) :
    checkParents (metrics.map (Metric.unrepeated name)) = checkParents metrics := by
  cases metrics with
  | nil => rfl
  | cons first rest =>
      simp only [List.map_cons, checkParents, List.all_map, Function.comp_def,
        Metric.parentSet_unrepeated]

/-- Items that are read of a projection, the metrics among them those of a catalog, and the same
items where the node of a name declares each parent once. -/
structure Items.Unrepeated (catalog : Catalog) (name : String) (items others : Items) : Prop where
  projection : others.projection = items.projection
  metrics : others.metrics = items.metrics.map (Metric.unrepeated name)
  inside : ∀ metric ∈ items.metrics, metric.node ∈ catalog.nodes

namespace Items

variable {items others : Items}

theorem nodeOf?_unrepeated (expr : Expr) :
    nodeOf? (catalog.unrepeated name) expr =
      (nodeOf? catalog expr).map (Node.unrepeated name) := by
  cases expr with
  | column column =>
      rw [nodeOf?, nodeOf?, node?_unrepeated]
      split <;> rfl
  | _ => rfl

/-- An item is read in the same way. -/
theorem Unrepeated.add (once : catalog.CountedOnce name)
    (same : items.Unrepeated catalog name others) (item : Expr) :
    Alongside (Items.Unrepeated catalog name) (items.add catalog item)
      (others.add (catalog.unrepeated name) item) := by
  cases named : nodeOf? catalog (splitAlias item).2 with
  | none =>
      have namedToo : nodeOf? (catalog.unrepeated name) (splitAlias item).2 = none := by
        rw [nodeOf?_unrepeated, named, Option.map_none]
      by_cases all : ∃ path, (splitAlias item).2 = .wildcard path
      · obtain ⟨path, all⟩ := all
        rw [add_of_wildcard all, add_of_wildcard all]
        exact .error _
      · have single : ∀ path, (splitAlias item).2 ≠ .wildcard path :=
          fun path is => all ⟨path, is⟩
        rw [add_of_unnamed named single, add_of_unnamed namedToo single]
        exact .ok ⟨congrArg (· ++ [item]) same.projection, same.metrics, same.inside⟩
  | some node =>
      have namedToo : nodeOf? (catalog.unrepeated name) (splitAlias item).2 =
          some (node.unrepeated name) := by
        rw [nodeOf?_unrepeated, named, Option.map_some]
      have member := (Catalog.mem_of_node? (node?_of_nodeOf? named)).1
      rw [add_of_named named, add_of_named namedToo, Node.isMetric_unrepeated]
      split
      · rw [Metric.ofNode_unrepeated once member]
        cases known : Metric.ofNode catalog node with
        | error failure => exact .error failure
        | ok metric =>
            obtain ⟨made⟩ := Metric.nonempty_of known
            have names : others.names (metric.unrepeated name) = items.names metric := by
              rw [Items.names, Items.names, same.metrics]
              cases items.metrics <;> rfl
            refine .ok ⟨?_, ?_, ?_⟩
            · show others.projection ++ _ = items.projection ++ _
              rw [names, same.projection]
              rfl
            · show others.metrics ++ _ = (items.metrics ++ _).map _
              rw [names, same.metrics, List.map_append]
              rfl
            · intro other there
              rcases List.mem_append.1 there with before | last
              · exact same.inside other before
              · cases List.mem_singleton.1 last
                exact made.isOf.symm ▸ member
      · exact .error _

/-- A projection is read in the same way. -/
theorem unrepeated_read (once : catalog.CountedOnce name) (exprs : List Expr) :
    Alongside (Items.Unrepeated catalog name) (exprs.foldlM (Items.add catalog) {})
      (exprs.foldlM (Items.add (catalog.unrepeated name)) {}) :=
  Alongside.foldlM_same (fun _ _ item same => same.add once item) exprs ⟨rfl, rfl, nofun⟩

theorem Unrepeated.withItems_eq (same : items.Unrepeated catalog name others) (select : Select) :
    withItems select others = withItems select items := by
  have meaning : metricExpr others.metrics = metricExpr items.metrics := by
    funext expr
    rw [metricExpr.eq_def, metricExpr.eq_def]
    cases expr with
    | column column =>
        dsimp only
        rw [same.metrics, ← List.map_reverse, List.find?_map]
        split
        · simp only [Option.map_map]
          rfl
        · rfl
    | _ => rfl
  have replaced : replaceMetrics others.metrics = replaceMetrics items.metrics := by
    funext expr
    rw [replaceMetrics, replaceMetrics, meaning]
  rw [withItems, withItems, replaceInSelect, replaceInSelect, replaced, same.projection]

end Items

/-! ## What columns can refer to -/

/-- What columns can refer to, and the same where the node of a name declares each parent once. -/
structure Scope.Unrepeated (catalog : Catalog) (name : String) (scope other : Scope) : Prop where
  thinned : Thinned name scope.parents other.parents
  inside : scope.parents ⊆ catalog.nodes
  names : other.names = scope.names
  dimensions : other.dimensions = scope.dimensions
  aliases : other.aliases = scope.aliases

variable {scope other : Scope}

/-- A column belongs to the same relation. -/
theorem Scope.Unrepeated.owner_eq (same : scope.Unrepeated catalog name other)
    (node column : String) :
    owner (catalog.unrepeated name) other node column = owner catalog scope node column := by
  rw [owner, owner, same.thinned.find?_eq, same.names, same.dimensions, contains_unrepeated]
  cases scope.parents.find? fun parent => parent.name == node <;> rfl

theorem Scope.Unrepeated.resolveColumn_eq (same : scope.Unrepeated catalog name other) :
    resolveColumn (catalog.unrepeated name) other = resolveColumn catalog scope := by
  funext column
  simp only [resolveColumn, same.owner_eq, same.aliases]

theorem subject?_unrepeated (select : Select) :
    subject? (catalog.unrepeated name) select =
      (subject? catalog select).map (Option.map (Node.unrepeated name)) := by
  have identified : (namedNodes select).mapM (identifiedNode (catalog.unrepeated name)) =
      ((namedNodes select).mapM (identifiedNode catalog)).map (List.map (Node.unrepeated name)) := by
    induction namedNodes select with
    | nil => rfl
    | cons first rest ih =>
        rw [List.mapM_cons, List.mapM_cons, ih, identifiedNode, identifiedNode, node?_unrepeated]
        cases catalog.node? first with
        | none => rfl
        | some node => cases rest.mapM (identifiedNode catalog) <;> rfl
  rw [subject?, subject?, identified]
  cases (namedNodes select).mapM (identifiedNode catalog) with
  | error failure => rfl
  | ok found => rcases found with _ | ⟨node, _ | ⟨second, rest⟩⟩ <;> rfl

/-- Columns can refer to the same. -/
theorem scopeOf_unrepeated (accepted : catalog.Accepted) {items others : Items}
    (same : items.Unrepeated catalog name others) (select : Select) :
    Alongside (fun found other : Option (List Source) × Scope =>
        other.1 = found.1 ∧ found.2.Unrepeated catalog name other.2)
      (scopeOf catalog items.metrics select)
      (scopeOf (catalog.unrepeated name) others.metrics select) := by
  rw [same.metrics]
  cases listed : items.metrics with
  | nil =>
      rw [List.map_nil, scopeOf, scopeOf, subject?_unrepeated]
      cases known : subject? catalog select with
      | error failure => exact .error failure
      | ok subject =>
          cases subject with
          | none => exact .ok ⟨rfl, Catalog.thinned_map [], List.nil_subset _, rfl, rfl, rfl⟩
          | some node =>
              have thinned : Thinned name [node] [node.unrepeated name] := Catalog.thinned_map [node]
              refine .ok ⟨rfl, thinned,
                List.cons_subset.2 ⟨(Catalog.mem_of_node? (node?_of_subject known)).1, List.nil_subset _⟩, ?_, rfl, rfl⟩
              exact NodeNames.ofSelect_eq_of_thinned thinned _
  | cons metric rest =>
      have member : metric.node ∈ catalog.nodes :=
        same.inside metric (listed ▸ List.mem_cons_self)
      rw [List.map_cons, scopeOf, scopeOf]
      dsimp only [Metric.unrepeated]
      rw [accepted.dimensions_eq member]
      refine (Alongside.of_eq rfl).bind fun dimensions _ agree => ?_
      subst agree
      have thinned : Thinned name (catalog.parents metric.node)
          ((catalog.unrepeated name).parents (metric.node.unrepeated name)) :=
        thinned_parents catalog metric.node
      exact .ok ⟨rfl, thinned, fun parent isParent => (Catalog.mem_of_mem_parents isParent).1,
        NodeNames.ofSelect_eq_of_thinned thinned _, rfl, rfl⟩

theorem metricReferences_unrepeated (once : catalog.CountedOnce name) {items others : Items}
    (same : items.Unrepeated catalog name others) :
    metricReferences (catalog.unrepeated name) others.metrics =
      metricReferences catalog items.metrics := by
  rw [metricReferences, metricReferences, same.metrics, List.foldlM_map]
  refine Result.foldlM_congr (fun metric listed references => ?_) []
  rw [← once.nodeReferences_eq (same.inside metric listed)]
  rfl

/-! ## Queries over metrics -/

/-- What SQL over metrics says, and what it says where the node of a name declares each parent
once. -/
structure Logical.Unrepeated (catalog : Catalog) (name : String) (logical other : Logical) :
    Prop where
  query : other.query = logical.query
  items : logical.items.Unrepeated catalog name other.items
  select : other.select = logical.select
  scope : logical.scope.Unrepeated catalog name other.scope
  references : other.references = logical.references

theorem logicalOf_unrepeated (accepted : catalog.Accepted) (once : catalog.CountedOnce name)
    (sql : String) :
    Alongside (Logical.Unrepeated catalog name) (logicalOf catalog sql)
      (logicalOf (catalog.unrepeated name) sql) := by
  rw [logicalOf, logicalOf]
  refine (Alongside.of_eq rfl).bind fun query _ same => ?_
  subst same
  split
  next => exact .error _
  next =>
    refine (Alongside.of_eq rfl).bind fun _ _ _ => ?_
    refine (Items.unrepeated_read once query.select.projection).bind fun items others read => ?_
    have parents : checkParents others.metrics = checkParents items.metrics := by
      rw [read.metrics, checkParents_unrepeated]
    rw [parents]
    refine (Alongside.of_eq rfl).bind fun _ _ _ => ?_
    dsimp only
    rw [read.withItems_eq]
    refine (scopeOf_unrepeated accepted read _).bind ?_
    rintro ⟨sources, scope⟩ ⟨_, other⟩ ⟨rfl, scopes⟩
    dsimp only
    rw [metricReferences_unrepeated once read]
    refine (Alongside.of_eq rfl).bind fun references _ same => ?_
    subst same
    exact .ok ⟨rfl, read, rfl, scopes, rfl⟩

/-- A joined dimension is demanded in the same way. -/
theorem demandJoins_alongside (accepted : catalog.Accepted)
    (thinned : Thinned name nodes others) (inside : nodes ⊆ catalog.nodes) (subject : String)
    {found other : Demand × List (List Hop)} (same : SameDemand catalog name found other)
    (dimensions : List String) :
    Alongside (SameDemand catalog name)
      (dimensions.foldlM (demandJoin catalog subject nodes) found)
      (dimensions.foldlM (demandJoin (catalog.unrepeated name) subject others) other) :=
  Alongside.foldlM_same
    (fun _ _ dimension same => same.addPath accepted thinned inside dimension _) dimensions same

/-- SQL over metrics is compiled in the same way. -/
theorem metricQuery_unrepeated (accepted : catalog.Accepted) (once : catalog.CountedOnce name)
    (sql : String) (requested : Option Int) :
    metricQuery (catalog.unrepeated name) sql requested = metricQuery catalog sql requested := by
  rw [metricQuery_eq, metricQuery_eq]
  refine Eq.symm ((logicalOf_unrepeated accepted once sql).bind_eq fun logical other same => ?_)
  have resolves : other.resolve (catalog.unrepeated name) = logical.resolve catalog := by
    rw [Logical.resolve, Logical.resolve, same.select, same.references, same.scope.resolveColumn_eq]
  rw [resolves]
  refine bind_congr fun resolved => ?_
  obtain ⟨select, found⟩ := resolved
  have subject : subjectName other.items = subjectName logical.items := by
    rw [subjectName, subjectName, same.items.metrics]
    cases logical.items.metrics <;> rfl
  have begun : SameDemand catalog name
      ({ nodes := logical.scope.parents, references := found.references }, [])
      ({ nodes := other.scope.parents, references := found.references }, []) :=
    ⟨⟨same.scope.thinned, same.scope.inside, rfl⟩, rfl⟩
  dsimp only
  rw [Logical.finish, Logical.finish, subject]
  refine (demandJoins_alongside accepted same.scope.thinned same.scope.inside _ begun _).bind_eq ?_
  rintro ⟨demand, paths⟩ ⟨otherDemand, _⟩ ⟨unrepeated, rfl⟩
  dsimp only
  rw [unrepeated.database_eq once requested, same.scope.names, same.query]
  refine bind_congr fun database => ?_
  rw [Joins.addPath_unrepeated once]
  refine bind_congr fun joins => ?_
  rw [bindRelations_unrepeated same.scope.thinned fun node isParent =>
    relationOf_unrepeated once (same.scope.inside isParent)]

/-! ## Declaring a parent again -/

/-- What a catalog answers it also answers where the node of a name declares each parent once: which
columns nodes take from their parents, where nodes can be computed, and what queries stand for. -/
structure AnswersAlike (catalog : Catalog) (name : String) : Prop where
  references : ∀ node ∈ catalog.nodes,
    (catalog.unrepeated name).nodeReferences (node.unrepeated name) = catalog.nodeReferences node
  databases : ∀ nodes ⊆ catalog.nodes, ∀ references requested,
    (catalog.unrepeated name).databaseFor (nodes.map (Node.unrepeated name)) references requested =
      catalog.databaseFor nodes references requested
  nodeQueries : ∀ node ∈ catalog.nodes, ∀ groupBys filters requested,
    nodeQuery (catalog.unrepeated name) (node.unrepeated name) groupBys filters requested =
      nodeQuery catalog node groupBys filters requested
  metricQueries : ∀ sql requested,
    metricQuery (catalog.unrepeated name) sql requested = metricQuery catalog sql requested

theorem answersAlike_of_countedOnce (accepted : catalog.Accepted)
    (once : catalog.CountedOnce name) : AnswersAlike catalog name :=
  ⟨fun _ member => once.nodeReferences_eq member,
    fun nodes inside => once.databaseFor_eq (Catalog.thinned_map nodes) inside,
    fun _ member => nodeQuery_unrepeated accepted once member,
    metricQuery_unrepeated accepted once⟩

/-- Where a node declares each of its parents once the catalog is accepted as well, and no node has
other dimensions. All answers are alike if the expression of the node writes no column without a
qualifier that a parent has which is declared again. If it writes one, the columns that the node
takes from its parents are not found. They are told apart from those where each parent is declared
once by such a column alone, which is ambiguous. -/
theorem bare_columns_tell_repeated_parents {databases : List Database} {declared : List Node}
    (built : Catalog.build databases declared = .ok catalog) (member : node ∈ catalog.nodes) :
    Catalog.build databases (declared.map (Node.unrepeated node.name)) =
        .ok (catalog.unrepeated node.name) ∧
      (∀ other ∈ catalog.nodes,
        (catalog.unrepeated node.name).dimensions (other.unrepeated node.name) =
          catalog.dimensions other) ∧
      ((∀ column, ¬ catalog.CountedAgain node column) → AnswersAlike catalog node.name) ∧
      (∀ column, catalog.CountedAgain node column → ∀ references,
        catalog.nodeReferences node ≠ .ok references) ∧
      ((catalog.unrepeated node.name).nodeReferences (node.unrepeated node.name) =
          catalog.nodeReferences node ∨
        ∃ column, catalog.CountedAgain node column ∧
          catalog.nodeReferences node = .error (.ambiguousColumn column)) := by
  have accepted := Catalog.accepted_of_build built
  obtain ⟨-, rfl⟩ := Catalog.build_eq_ok_iff.1 built
  refine ⟨Catalog.build_eq_ok_iff.2 ⟨accepted.unrepeated node.name, rfl⟩,
    fun other known => accepted.dimensions_eq known node.name, fun never => ?_,
    fun column again => accepted.nodeReferences_ne_ok again,
    accepted.nodeReferences_cases node.name node⟩
  refine answersAlike_of_countedOnce accepted fun other known same => ?_
  rw [accepted.eq_of_name known member same]
  exact never

/-- Sales, and two nodes that declare them twice and show their amounts. -/
def amountsOfSales : List Node :=
  [{ name := "sales", kind := .source, columns := [{ name := "amount" }] },
    { name := "amounts", kind := .transform, parents := ["sales", "sales"]
      expression := some "SELECT amount FROM sales" },
    { name := "own_amounts", kind := .transform, parents := ["sales", "sales"]
      expression := some "SELECT sales.amount FROM sales" }]

def salesTwice : Catalog where
  databases := [{ id := 1, name := "main", uri := "duckdb://main" }]
  nodes := amountsOfSales

/-- Amounts without a qualifier are ambiguous, and found where sales are declared once. With a
qualifier they are found all the same. -/
theorem bare_columns_tell_repeated_parents_salesTwice :
    (salesTwice.nodeReferences amountsOfSales[1] = .error (.ambiguousColumn "amount") ∧
        (salesTwice.unrepeated "amounts").nodeReferences (amountsOfSales[1].unrepeated "amounts") =
          .ok [("sales", ["amount"])]) ∧
      AnswersAlike salesTwice "own_amounts" := by
  have built : Catalog.build salesTwice.databases amountsOfSales = .ok salesTwice := by
    decide +kernel
  have bare : amountsOfSales[1] ∈ salesTwice.nodes := List.getElem_mem _
  have qualified : amountsOfSales[2] ∈ salesTwice.nodes := List.getElem_mem _
  obtain ⟨_, _, _, refused, outcome⟩ := bare_columns_tell_repeated_parents built bare
  obtain ⟨_, _, alike, _, _⟩ := bare_columns_tell_repeated_parents built qualified
  refine ⟨?_, alike fun column again => ?_⟩
  · have once : (salesTwice.unrepeated "amounts").nodeReferences
        (amountsOfSales[1].unrepeated "amounts") = .ok [("sales", ["amount"])] := by
      decide +kernel
    have names : ∀ column, Catalog.WritesBare "SELECT amount FROM sales" column ↔
        column ∈ ["amount"] := fun column => Catalog.writesBare_iff (by decide +kernel)
    refine ⟨?_, once⟩
    rcases outcome with same | ⟨column, again, ambiguous⟩
    · have twice : salesTwice.CountedAgain amountsOfSales[1] "amount" :=
        ⟨⟨_, rfl, (names _).2 (List.mem_singleton_self _)⟩,
          amountsOfSales[0], List.getElem_mem _, by decide, by decide⟩
      exact absurd (same.symm.trans once) (refused _ twice _)
    · obtain ⟨text, written, shown⟩ := again.bare
      cases written
      cases List.mem_singleton.1 ((names column).1 shown)
      exact ambiguous
  · obtain ⟨text, written, shown⟩ := again.bare
    cases written
    have names : Catalog.WritesBare "SELECT sales.amount FROM sales" column ↔ column ∈ [] :=
      Catalog.writesBare_iff (by decide +kernel)
    cases names.1 shown

end SemanticLayer.Planner
