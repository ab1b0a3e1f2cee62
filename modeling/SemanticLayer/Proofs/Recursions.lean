import SemanticLayer.Proofs.Calling
import SemanticLayer.Proofs.Descent
import SemanticLayer.Proofs.Reachability

/-!
# Recursions over parents

Two recursions have no bound of their own: where columns of a node can be computed, and how a node is
read, which is as a relation, by a query, and with the relations of its parents bound. Written as
calls, each of them goes from a node to its parents and never along a link to a dimension. In an
accepted catalog no node is its own ancestor, so every call returns, and returns what the planner
computes within its bound.
-/

namespace SemanticLayer

open Calling

namespace Catalog

variable {catalog : Catalog} {node : Node}

/-! ## Chains of parents -/

/-- A chain of parents passes each node once at most. -/
theorem Accepted.length_le_of_isChain (accepted : catalog.Accepted) {nodes : List Node}
    (chain : nodes.IsChain fun node parent => parent ∈ catalog.parents node)
    (start : ∀ node ∈ nodes.head?, node ∈ catalog.nodes) : nodes.length ≤ catalog.nodes.length := by
  have below : ∀ (nodes : List Node) (node : Node), node ∈ catalog.nodes →
      (node :: nodes).IsChain (fun node parent => parent ∈ catalog.parents node) →
        nodes.length ≤ catalog.rank node := by
    intro nodes
    induction nodes with
    | nil => exact fun _ _ _ => Nat.zero_le _
    | cons parent nodes ih =>
        intro node member chain
        obtain ⟨isParent, rest⟩ := List.isChain_cons_cons.1 chain
        have less := accepted.rank_parent_lt member isParent
        exact Nat.lt_of_le_of_lt (ih parent (mem_of_mem_parents isParent).1 rest) less
  cases nodes with
  | nil => exact Nat.zero_le _
  | cons node nodes =>
      have member := start node rfl
      exact Nat.lt_of_le_of_lt (below nodes node member chain) (accepted.rank_lt_length member)

/-! ## Databases -/

/-- Where columns of a node can be computed, by calls for its parents. -/
def computing (catalog : Catalog) (target : Node × List String) :
    Calling (Node × List String) (fun _ => List Int) (List Int) :=
  let stored := (target.1.tables.filter fun table => table.holds target.2).map
    Materialization.database
  match catalog.parents target.1 with
  | [] => pure stored
  | first :: rest => do
    let references ← finished (catalog.nodeReferences target.1)
    let start ← make (first, references.of first.name)
    let common ← rest.foldlM (fun (ids : List Int) parent => do
      let found ← make (parent, references.of parent.name)
      pure (ids.filter found.contains)) start
    pure (stored ++ common)

/-- Computing the databases of a node calls for its parents only. -/
theorem mem_parents_of_makes {target other : Node × List String}
    (makes : Makes other (catalog.computing target)) : other.1 ∈ catalog.parents target.1 := by
  rw [computing] at makes
  split at makes
  · exact absurd makes not_makes_pure
  next first rest parents =>
    rw [parents]
    rcases makes.of_bind with none | ⟨references, makes⟩
    · exact absurd none not_makes_finished
    rcases makes.of_bind with makes | ⟨start, makes⟩
    · exact makes.eq_of_make ▸ List.mem_cons_self
    rcases makes.of_bind with makes | ⟨common, none⟩
    · obtain ⟨parent, member, ids, makes⟩ := makes.of_foldlM
      rcases makes.of_bind with makes | ⟨found, none⟩
      · exact makes.eq_of_make ▸ List.mem_cons_of_mem first member
      · exact absurd none not_makes_pure
    · exact absurd none not_makes_pure

/-- What the planner computes for a call. -/
def computed (catalog : Catalog) (target : Node × List String) : Result (List Int) :=
  catalog.computableIds target.1 target.2

/-- Answered by what the planner computes for the parents, that is what it computes for the node. -/
theorem answered_computing (accepted : catalog.Accepted) (target : Node × List String) :
    (catalog.computing target).answered catalog.computed = catalog.computed target := by
  have parents : ∀ parent ∈ catalog.parents target.1, ∀ columns,
      catalog.computed (parent, columns) =
        catalog.computableWithin catalog.nodes.length parent columns := by
    intro parent isParent
    have known := (mem_of_mem_parents isParent).1
    exact computableWithin_succ accepted known (accepted.rank_lt_length known)
  rw [computing, computed, computableIds, computableWithin]
  cases listed : catalog.parents target.1 with
  | nil => rfl
  | cons first rest =>
      rw [listed, List.forall_mem_cons] at parents
      simp only [answered_bind, answered_make, answered_foldlM, parents.1]
      refine bind_congr fun references => bind_congr fun start => ?_
      congr 1
      exact Result.foldlM_congr (fun parent later ids => by rw [parents.2 parent later]; rfl) start

/-- A call for the databases of a node returns. The induction is on the rank of the node. -/
theorem returns_computing (accepted : catalog.Accepted) {target : Node × List String}
    (member : target.1 ∈ catalog.nodes) :
    Returns catalog.computing target (catalog.computed target) := by
  induction rank : catalog.rank target.1 using Nat.strong_induction_on generalizing target with
  | h rank ih =>
      refine returns_of_makes (answered_computing accepted target) fun other makes => ?_
      have isParent := mem_parents_of_makes makes
      have less := accepted.rank_parent_lt member isParent
      exact ih _ (rank ▸ less) (mem_of_mem_parents isParent).1 rfl

end Catalog

namespace Planner

open SemanticLayer.Sql
open Catalog (Node Database)

variable {catalog : Catalog} {database : Database} {node : Node}

/-! ## Relations and queries -/

/-- A call for a node as a relation, for the query of a node, or for a SELECT in which relations take
the place of some nodes. -/
inductive BuildCall where
  | relation (node : Node) (aliasName : Option Name)
  | query (node : Node) (stored : Bool)
  | bindings (select : Select) (nodes : List Node)

namespace BuildCall

/-- What a call is answered by. -/
abbrev Answer : BuildCall → Type
  | relation _ _ => Relation
  | query _ _ => Query
  | bindings _ _ => Select

/-- A node as a relation: its table, or the query of its expression. -/
def relationBody (database : Database) (node : Node) (aliasName : Option Name) :
    Calling BuildCall Answer Relation :=
  match node.tableIn? database.id with
  | some stored => pure (.table (tableOf node stored aliasName))
  | none => do
    let computed : Query ← make (query node false)
    pure (.derived computed (some (aliasName.getD { value := node.name })))

/-- The query of a node: of its table as a relation, or of its expression with the relations of its
parents bound. -/
def queryBody (catalog : Catalog) (database : Database) (node : Node) (stored : Bool) :
    Calling BuildCall Answer Query :=
  match if stored || node.expression.isNone then node.tableIn? database.id else none with
  | some table => do
    let primary : Relation ← make (relation node none)
    let own := storedQuery node table
    pure { own with select := { own.select with sources := some [{ primary }] } }
  | none =>
    match node.expression with
    | none => finished (.error .noValidDatabase)
    | some expression => do
      let written ← finished (Query.ofText expression none)
      let parents := catalog.parents node
      let qualified ← finished (qualifyColumns written.select parents)
      let select : Select ← make (bindings qualified parents)
      pure { written with select }

/-- A relation that takes the place of a table that is called like one of some nodes. -/
def bindingBody (nodes : List Node) : Relation → Calling BuildCall Answer Relation
  | .table table =>
    match nodes.find? fun node => node.name == table.fullName with
    | some node => make (relation node table.aliasName)
    | none => pure (.table table)
  | .derived computed aliasName => pure (.derived computed aliasName)

/-- The three functions that call each other. -/
def body (catalog : Catalog) (database : Database) :
    (target : BuildCall) → Calling BuildCall Answer target.Answer
  | relation node aliasName => relationBody database node aliasName
  | query node stored => queryBody catalog database node stored
  | bindings select nodes => select.mapRelationsM (bindingBody nodes)

/-- What the planner builds for a call. -/
def built (catalog : Catalog) (database : Database) :
    (target : BuildCall) → Result target.Answer
  | relation node aliasName => relationOf catalog database node aliasName
  | query node stored => queryOf catalog database node stored
  | bindings select nodes => bindRelations (relationOf catalog database) select nodes

/-- The calls that a call makes: that of a relation, if the node has no table, the query of its
expression; that of a query the table of the node, or the bindings of its parents; and that of
bindings the relations of the nodes to bind. -/
def Leads (catalog : Catalog) (database : Database) : BuildCall → BuildCall → Prop
  | relation node _, other => other = query node false ∧ node.tableIn? database.id = none
  | query node _, other =>
    (other = relation node none ∧ (node.tableIn? database.id).isSome) ∨
      ∃ select, other = bindings select (catalog.parents node)
  | bindings _ nodes, other => ∃ node ∈ nodes, ∃ aliasName, other = relation node aliasName

/-- A call makes no other calls than these. -/
theorem leads_of_makes {target other : BuildCall}
    (makes : Makes other (body catalog database target)) :
    Leads catalog database target other := by
  cases target with
  | relation node aliasName =>
      rw [body, relationBody] at makes
      split at makes
      · exact absurd makes not_makes_pure
      next none =>
        rcases makes.of_bind with makes | ⟨_, finished⟩
        · exact ⟨makes.eq_of_make, none⟩
        · exact absurd finished not_makes_pure
  | query node stored =>
      rw [body, queryBody] at makes
      split at makes
      next table found =>
        rcases makes.of_bind with makes | ⟨_, finished⟩
        · refine .inl ⟨makes.eq_of_make, ?_⟩
          split at found
          · exact Option.isSome_of_eq_some found
          · cases found
        · exact absurd finished not_makes_pure
      next =>
        split at makes
        · exact absurd makes not_makes_finished
        · rcases makes.of_bind with finished | ⟨written, makes⟩
          · exact absurd finished not_makes_finished
          rcases makes.of_bind with finished | ⟨qualified, makes⟩
          · exact absurd finished not_makes_finished
          rcases makes.of_bind with makes | ⟨_, finished⟩
          · exact .inr ⟨qualified, makes.eq_of_make⟩
          · exact absurd finished not_makes_pure
  | bindings select nodes =>
      obtain ⟨relation, makes⟩ := Select.exists_of_makes makes
      rw [bindingBody.eq_def] at makes
      split at makes
      · split at makes
        next node found =>
          exact ⟨node, List.mem_of_find?_eq_some found, _, makes.eq_of_make⟩
        next => exact absurd makes not_makes_pure
      · exact absurd makes not_makes_pure

/-! ## What is built -/

theorem answered_bindingBody (nodes : List Node) (found : Relation) :
    (bindingBody nodes found).answered (built catalog database) =
      bindRelation (relationOf catalog database) nodes found := by
  cases found with
  | derived computed aliasName => rfl
  | table table =>
      rw [bindingBody, bindRelation]
      cases nodes.find? fun node => node.name == table.fullName with
      | none => rfl
      | some node => exact answered_make _

/-- Answered by what the planner builds for the calls that are made, a call gives what the planner
builds. -/
theorem answered_body (accepted : catalog.Accepted) (target : BuildCall) :
    (body catalog database target).answered (built catalog database) =
      built catalog database target := by
  cases target with
  | relation node aliasName =>
      rw [body, relationBody, built]
      cases found : node.tableIn? database.id with
      | some stored => exact (relationOf_of_stored found).symm
      | none =>
          have own : queryOf catalog database node false =
              expressionQuery catalog (relationOf catalog database) node := by
            rw [queryOf, found, ite_self]
          rw [relationOf_of_not_stored accepted found, ← own]
          dsimp only
          rw [answered_bind, answered_make]
          rfl
  | query node stored =>
      rw [body, queryBody, built, queryOf]
      cases found : (if stored || node.expression.isNone then node.tableIn? database.id else none) with
      | some table =>
          -- The table is there, so the call for the node as a relation gives it at once.
          have stored : node.tableIn? database.id = some table := by
            split at found
            · exact found
            · cases found
          have reads : built catalog database (relation node none) =
              .ok (.table (tableOf node table none)) := relationOf_of_stored stored
          dsimp only
          rw [answered_bind, answered_make, reads]
          rfl
      | none =>
          rw [expressionQuery]
          cases node.expression with
          | none => rfl
          | some expression =>
              dsimp only
              simp only [answered_bind, answered_make]
              rfl
  | bindings select nodes =>
      rw [body, built, Select.answered_mapRelationsM, bindRelations]
      congr 1
      exact funext fun found => answered_bindingBody nodes found

/-! ## Calls that return -/

variable {nodes : List Node}

/-- A call that returns what the planner builds. -/
abbrev IsBuilt (catalog : Catalog) (database : Database) (target : BuildCall) : Prop :=
  Returns (body catalog database) target (built catalog database target)

/-- Nodes are bound if each of them is a relation. -/
theorem returns_bindings (accepted : catalog.Accepted)
    (each : ∀ node ∈ nodes, ∀ aliasName, IsBuilt catalog database (relation node aliasName))
    (select : Select) : IsBuilt catalog database (bindings select nodes) := by
  refine returns_of_makes (answered_body accepted _) fun other makes => ?_
  obtain ⟨node, member, aliasName, rfl⟩ := leads_of_makes makes
  exact each node member aliasName

/-- A node with a table is a relation at once. -/
theorem returns_relation_of_stored (accepted : catalog.Accepted)
    (found : (node.tableIn? database.id).isSome) (aliasName : Option Name) :
    IsBuilt catalog database (relation node aliasName) := by
  refine returns_of_makes (answered_body accepted _) fun other makes => ?_
  obtain ⟨_, none⟩ := leads_of_makes makes
  rw [none] at found
  cases found

/-- The query of a node is built if each of its parents is a relation. -/
theorem returns_query (accepted : catalog.Accepted)
    (each : ∀ parent ∈ catalog.parents node, ∀ aliasName,
      IsBuilt catalog database (relation parent aliasName)) (stored : Bool) :
    IsBuilt catalog database (query node stored) := by
  refine returns_of_makes (answered_body accepted _) fun other makes => ?_
  rcases leads_of_makes makes with ⟨rfl, found⟩ | ⟨select, rfl⟩
  · exact returns_relation_of_stored accepted found none
  · exact returns_bindings accepted each select

/-- A node of an accepted catalog is a relation. The induction is on its rank. -/
theorem returns_relation (accepted : catalog.Accepted) (member : node ∈ catalog.nodes)
    (aliasName : Option Name) :
    IsBuilt catalog database (relation node aliasName) := by
  induction rank : catalog.rank node using Nat.strong_induction_on generalizing node aliasName with
  | h rank ih =>
      refine returns_of_makes (answered_body accepted _) fun other makes => ?_
      obtain ⟨rfl, _⟩ := leads_of_makes makes
      refine returns_query accepted (fun parent isParent other => ?_) false
      have less := accepted.rank_parent_lt member isParent
      exact ih _ (rank ▸ less) (Catalog.mem_of_mem_parents isParent).1 other rfl

/-! ## Chains of calls -/

/-- The node that a call takes as a relation. -/
def relation? : BuildCall → Option Node
  | relation node _ => some node
  | _ => none

/-- The node that a call takes the query of. -/
def query? : BuildCall → Option Node
  | query node _ => some node
  | _ => none

/-- Whether a call binds nodes. -/
def binds : BuildCall → Bool
  | bindings _ _ => true
  | _ => false

/-- Whether a call is for nodes of a catalog. -/
def Known (catalog : Catalog) : BuildCall → Prop
  | relation node _ | query node _ => node ∈ catalog.nodes
  | bindings _ nodes => nodes ⊆ catalog.nodes

/-- The nodes that may come next as relations below a call. -/
def RelationBelow (catalog : Catalog) (database : Database) : BuildCall → Node → Prop
  | relation node _, other => other ∈ catalog.parents node
  | query node _, other => other ∈ catalog.parents node ∨
      (other = node ∧ (node.tableIn? database.id).isSome)
  | bindings _ nodes, other => other ∈ nodes

/-- The nodes whose queries may come next below a call. -/
def QueryBelow (catalog : Catalog) (database : Database) : BuildCall → Node → Prop
  | relation node _, other => other = node ∧ node.tableIn? database.id = none
  | query node _, other => other ∈ catalog.parents node
  | bindings _ nodes, other => other ∈ nodes

/-- Nodes each of which is a parent of the one before. -/
abbrev Descends (catalog : Catalog) (nodes : List Node) : Prop :=
  nodes.IsChain fun node parent => parent ∈ catalog.parents node

/-- The nodes that a chain of calls takes as relations are each a parent of the one before. -/
theorem descends_relations {target : BuildCall} {calls : List BuildCall}
    (chain : Chain (body catalog database) (target :: calls)) :
    Descends catalog ((target :: calls).filterMap relation?) ∧
      ∀ node ∈ (calls.filterMap relation?).head?, RelationBelow catalog database target node := by
  refine isChain_labels (fun caller other node makes labelled => ?_)
    (fun caller other node makes labelled below => ?_) (fun caller node next labelled below => ?_) chain
  · cases caller with
    | relation caller aliasName =>
        obtain ⟨rfl, _⟩ := leads_of_makes makes
        cases labelled
    | query caller stored =>
        rcases leads_of_makes makes with ⟨rfl, found⟩ | ⟨select, rfl⟩
        · cases labelled
          exact .inr ⟨rfl, found⟩
        · cases labelled
    | bindings select nodes =>
        obtain ⟨bound, member, aliasName, rfl⟩ := leads_of_makes makes
        cases labelled
        exact member
  · cases caller with
    | relation caller aliasName =>
        obtain ⟨rfl, none⟩ := leads_of_makes makes
        rcases below with isParent | ⟨_, found⟩
        · exact isParent
        · rw [none] at found
          cases found
    | query caller stored =>
        rcases leads_of_makes makes with ⟨rfl, _⟩ | ⟨select, rfl⟩
        · cases labelled
        · exact .inl below
    | bindings select nodes =>
        obtain ⟨bound, _, aliasName, rfl⟩ := leads_of_makes makes
        cases labelled
  · cases caller with
    | relation caller aliasName =>
        cases labelled
        exact below
    | query caller stored => cases labelled
    | bindings select nodes => cases labelled

/-- The nodes whose queries a chain of calls takes are each a parent of the one before. -/
theorem descends_queries {target : BuildCall} {calls : List BuildCall}
    (chain : Chain (body catalog database) (target :: calls)) :
    Descends catalog ((target :: calls).filterMap query?) ∧
      ∀ node ∈ (calls.filterMap query?).head?, QueryBelow catalog database target node := by
  refine isChain_labels (fun caller other node makes labelled => ?_)
    (fun caller other node makes labelled below => ?_) (fun caller node next labelled below => ?_) chain
  · cases caller with
    | relation caller aliasName =>
        obtain ⟨rfl, none⟩ := leads_of_makes makes
        cases labelled
        exact ⟨rfl, none⟩
    | query caller stored =>
        rcases leads_of_makes makes with ⟨rfl, _⟩ | ⟨select, rfl⟩
        · cases labelled
        · cases labelled
    | bindings select nodes =>
        obtain ⟨bound, _, aliasName, rfl⟩ := leads_of_makes makes
        cases labelled
  · cases caller with
    | relation caller aliasName =>
        obtain ⟨rfl, _⟩ := leads_of_makes makes
        cases labelled
    | query caller stored =>
        rcases leads_of_makes makes with ⟨rfl, found⟩ | ⟨select, rfl⟩
        · obtain ⟨_, none⟩ := below
          rw [none] at found
          cases found
        · exact below
    | bindings select nodes =>
        obtain ⟨bound, member, aliasName, rfl⟩ := leads_of_makes makes
        obtain ⟨rfl, _⟩ := below
        exact member
  · cases caller with
    | relation caller aliasName => cases labelled
    | query caller stored =>
        cases labelled
        exact below
    | bindings select nodes => cases labelled

variable {target : BuildCall} {calls : List BuildCall}

/-- A chain of calls for nodes of a catalog takes each node as a relation once at most. -/
theorem length_relations_le (accepted : catalog.Accepted) (known : target.Known catalog)
    (chain : Chain (body catalog database) (target :: calls)) :
    ((target :: calls).filterMap relation?).length ≤ catalog.nodes.length := by
  obtain ⟨descends, first⟩ := descends_relations chain
  refine accepted.length_le_of_isChain descends fun node isFirst => ?_
  cases target with
  | relation target aliasName =>
      cases isFirst
      exact known
  | query target stored =>
      rcases first node isFirst with isParent | ⟨rfl, _⟩
      · exact (Catalog.mem_of_mem_parents isParent).1
      · exact known
  | bindings select nodes => exact known (first node isFirst)

/-- A chain of calls for nodes of a catalog takes the query of each node once at most. -/
theorem length_queries_le (accepted : catalog.Accepted) (known : target.Known catalog)
    (chain : Chain (body catalog database) (target :: calls)) :
    ((target :: calls).filterMap query?).length ≤ catalog.nodes.length := by
  obtain ⟨descends, first⟩ := descends_queries chain
  refine accepted.length_le_of_isChain descends fun node isFirst => ?_
  cases target with
  | relation target aliasName => exact (first node isFirst).1 ▸ known
  | query target stored =>
      cases isFirst
      exact known
  | bindings select nodes => exact known (first node isFirst)

/-- Only a query binds nodes. -/
theorem countP_binds_le (chain : Chain (body catalog database) (target :: calls)) :
    calls.countP binds ≤ ((target :: calls).filterMap query?).length := by
  induction calls generalizing target with
  | nil => exact Nat.zero_le _
  | cons other calls ih =>
      obtain ⟨makes, rest⟩ := List.isChain_cons_cons.1 chain
      have later := ih rest
      have leads := leads_of_makes makes
      cases target with
      | relation target aliasName =>
          obtain ⟨rfl, _⟩ := leads
          exact later
      | query target stored =>
          have labelled : query? (query target stored) = some target := rfl
          rw [List.filterMap_cons_some labelled, List.length_cons, List.countP_cons]
          split
          · exact Nat.succ_le_succ later
          · exact Nat.le_succ_of_le later
      | bindings select nodes =>
          obtain ⟨node, _, aliasName, rfl⟩ := leads
          exact later

end BuildCall

open BuildCall in
/-- The recursions over parents end. In an accepted catalog each call for a node returns what the
planner computes or builds; it calls for the parents of the node alone, and no chain of calls enters
one of the functions more often than there are nodes, but for bindings at its start. -/
theorem recursions_descend_to_parents {databases : List Database} {nodes : List Node}
    (accepts : Catalog.build databases nodes = .ok catalog) (database : Database) :
    (∀ node ∈ catalog.nodes,
      (∀ columns, Returns catalog.computing (node, columns) (catalog.computableIds node columns)) ∧
      (∀ aliasName, Returns (body catalog database) (relation node aliasName)
        (relationOf catalog database node aliasName)) ∧
      ∀ stored, Returns (body catalog database) (query node stored)
        (queryOf catalog database node stored)) ∧
    (∀ select bound, bound ⊆ catalog.nodes → Returns (body catalog database)
      (bindings select bound) (bindRelations (relationOf catalog database) select bound)) ∧
    (∀ target other, Makes other (catalog.computing target) →
      other.1 ∈ catalog.parents target.1) ∧
    (∀ target other, Makes other (body catalog database target) →
      Leads catalog database target other) ∧
    (∀ target calls, target.1 ∈ catalog.nodes → Chain catalog.computing (target :: calls) →
      (target :: calls).length ≤ catalog.nodes.length) ∧
    ∀ target calls, target.Known catalog → Chain (body catalog database) (target :: calls) →
      Descends catalog ((target :: calls).filterMap relation?) ∧
      ((target :: calls).filterMap relation?).length ≤ catalog.nodes.length ∧
      Descends catalog ((target :: calls).filterMap query?) ∧
      ((target :: calls).filterMap query?).length ≤ catalog.nodes.length ∧
      calls.countP binds ≤ catalog.nodes.length := by
  have accepted := Catalog.accepted_of_build accepts
  refine ⟨fun node member => ⟨fun columns => ?_, fun aliasName => ?_, fun stored => ?_⟩,
    fun select bound inside => ?_, fun target other => Catalog.mem_parents_of_makes,
    fun target other => leads_of_makes, fun target calls member chain => ?_,
    fun target calls known chain => ?_⟩
  · exact Catalog.returns_computing accepted member
  · exact returns_relation accepted member aliasName
  · refine returns_query accepted (fun parent isParent => ?_) stored
    exact returns_relation accepted (Catalog.mem_of_mem_parents isParent).1
  · exact returns_bindings accepted (fun node member => returns_relation accepted (inside member)) _
  · have descends : ((target :: calls).map Prod.fst).IsChain
        fun node parent => parent ∈ catalog.parents node :=
      (List.isChain_map Prod.fst).2 (chain.imp fun _ _ => Catalog.mem_parents_of_makes)
    have few := accepted.length_le_of_isChain descends (by
      rintro _ ⟨⟩
      exact member)
    rwa [List.length_map] at few
  · have queries := length_queries_le accepted known chain
    exact ⟨(descends_relations chain).1, length_relations_le accepted known chain,
      (descends_queries chain).1, queries, (countP_binds_le chain).trans queries⟩

/-- Customers, their regions with the customers that manage them, and the number of regions. A region
is computed from customers, and columns of both link to the other. -/
def managedMarkets : Catalog :=
  { databases := [{ id := 1, name := "a", uri := "duckdb://x" }]
    nodes :=
      [{ name := "customers", kind := .dimension
         tables := [{ database := 1, table := "customers" }]
         columns := [{ name := "id" }, { name := "region", dimension := some "regions" }] },
       { name := "regions", kind := .dimension, parents := ["customers"]
         expression := some "SELECT region AS id, MIN(id) AS manager FROM customers GROUP BY region"
         columns := [{ name := "id" }, { name := "manager", dimension := some "customers" }] },
       { name := "markets", kind := .metric, parents := ["regions"]
         expression := some "SELECT COUNT(id) FROM regions" }] }

/-- The number of regions is computed from regions, and these from customers, whatever the links. -/
theorem recursions_descend_to_parents_managedMarkets :
    ∃ markets ∈ managedMarkets.nodes, ∃ database ∈ managedMarkets.databases,
      Returns managedMarkets.computing (markets, []) (.ok [1]) ∧
      (∃ query, Returns (BuildCall.body managedMarkets database) (.query markets false)
        (.ok query)) ∧
      ∀ target calls, target.Known managedMarkets →
        Chain (BuildCall.body managedMarkets database) (target :: calls) →
          ((target :: calls).filterMap BuildCall.query?).length ≤ 3 := by
  have accepts : Catalog.build managedMarkets.databases managedMarkets.nodes =
      .ok managedMarkets := by decide +kernel
  have markets : managedMarkets.nodes[2] ∈ managedMarkets.nodes :=
    List.getElem_mem (n := 2) (by decide)
  have database : managedMarkets.databases[0] ∈ managedMarkets.databases :=
    List.getElem_mem (n := 0) (by decide)
  have ids : managedMarkets.computableIds managedMarkets.nodes[2] [] = .ok [1] :=
    Result.eq_ok_of_toOption (by decide +kernel)
  obtain ⟨query, computes⟩ := Result.exists_eq_ok (by decide +kernel :
    (queryOf managedMarkets managedMarkets.databases[0] managedMarkets.nodes[2]
      false).toOption.isSome)
  obtain ⟨returns, _, _, _, _, chains⟩ :=
    recursions_descend_to_parents accepts managedMarkets.databases[0]
  obtain ⟨computed, _, queried⟩ := returns _ markets
  refine ⟨_, markets, _, database, ids ▸ computed [], ⟨query, computes ▸ queried false⟩, ?_⟩
  exact fun target calls known chain => (chains target calls known chain).2.2.2.1

end Planner
end SemanticLayer
