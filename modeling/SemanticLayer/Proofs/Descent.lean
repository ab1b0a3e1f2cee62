import SemanticLayer.Catalog.References
import SemanticLayer.Planner.Relation
import SemanticLayer.Proofs.Ancestry

/-!
# Descent to parents

Relations, and the databases that columns can be computed in, are found by descending from a node to
its parents. In an accepted catalog the bound on the depth is never met, so both satisfy the
equations of an unbounded descent.
-/

namespace SemanticLayer

namespace Planner

open SemanticLayer.Sql
open Catalog (Node Database)

variable {catalog : Catalog} {database : Database} {node : Node}

/-- Only the given nodes are bound. -/
theorem bindRelation_congr {bind other : Node → Option Name → Result Relation} {nodes : List Node}
    (same : ∀ node ∈ nodes, bind node = other node) :
    bindRelation bind nodes = bindRelation other nodes := by
  funext relation
  cases relation with
  | derived query aliasName => rfl
  | table table =>
      rw [bindRelation, bindRelation]
      split
      next node found => rw [same node (List.mem_of_find?_eq_some found)]
      next => rfl

/-- Only the parents of a node are bound in its expression. -/
theorem expressionQuery_congr {bind other : Node → Option Name → Result Relation}
    (same : ∀ parent ∈ catalog.parents node, bind parent = other parent) :
    expressionQuery catalog bind node = expressionQuery catalog other node := by
  simp only [expressionQuery, bindRelations, bindRelation_congr same]

/-- More depth than the rank of a node makes no difference. -/
theorem relationWithin_succ (accepted : catalog.Accepted) (member : node ∈ catalog.nodes)
    {depth : Nat} (enough : catalog.rank node < depth) :
    relationWithin catalog database (depth + 1) node = relationWithin catalog database depth node := by
  induction depth generalizing node with
  | zero => omega
  | succ depth ih =>
      have parents : ∀ parent ∈ catalog.parents node,
          relationWithin catalog database (depth + 1) parent =
            relationWithin catalog database depth parent := by
        intro parent isParent
        have less := accepted.rank_parent_lt member isParent
        exact ih (Catalog.mem_of_mem_parents isParent).1 (by omega)
      funext aliasName
      rw [relationWithin, relationWithin, expressionQuery_congr parents]

/-- A node that is materialized in the database is read from its cheapest table there. -/
theorem relationOf_of_stored {stored : Catalog.Materialization} {aliasName : Option Name}
    (found : node.tableIn? database.id = some stored) :
    relationOf catalog database node aliasName = .ok (.table (tableOf node stored aliasName)) := by
  rw [relationOf, relationWithin, found]

/-- Any other node is the query of its expression over the relations of its parents. -/
theorem relationOf_of_not_stored (accepted : catalog.Accepted) {aliasName : Option Name}
    (none : node.tableIn? database.id = none) :
    relationOf catalog database node aliasName =
      (expressionQuery catalog (relationOf catalog database) node >>= fun query =>
        pure (.derived query (some (aliasName.getD { value := node.name })))) := by
  have parents : ∀ parent ∈ catalog.parents node,
      relationOf catalog database parent =
        relationWithin catalog database catalog.nodes.length parent := by
    intro parent isParent
    have known := (Catalog.mem_of_mem_parents isParent).1
    exact relationWithin_succ accepted known (accepted.rank_lt_length known)
  rw [expressionQuery_congr parents, relationOf, relationWithin, none]

end Planner

namespace Catalog

variable {catalog : Catalog} {node : Node} {columns : List String}

/-- What every one of some parents has, and what was there at the start. -/
theorem mem_of_foldlM_filter {computable : Node → Result (List Int)} {parents : List Node}
    {start ids : List Int}
    (done : parents.foldlM (fun ids parent => do
      let found ← computable parent
      pure (ids.filter found.contains)) start = .ok ids) (id : Int) :
    id ∈ ids ↔ id ∈ start ∧ ∀ parent ∈ parents, ∃ found, computable parent = .ok found ∧ id ∈ found := by
  induction parents generalizing start with
  | nil =>
      cases Result.pure_eq_ok.1 done
      simp
  | cons parent rest ih =>
      rw [List.foldlM_cons, Result.bind_eq_ok] at done
      obtain ⟨next, step, later⟩ := done
      obtain ⟨found, known, same⟩ := Result.bind_eq_ok.1 step
      cases Result.pure_eq_ok.1 same
      rw [ih later, List.mem_filter, List.contains_iff_mem, and_assoc, List.forall_mem_cons]
      simp [known]

/-- Within a depth a database provides columns if a table there holds them, or if the parents
provide what the expression needs of them. -/
theorem mem_computableWithin {depth : Nat} {ids : List Int}
    (done : catalog.computableWithin (depth + 1) node columns = .ok ids) (id : Int) :
    id ∈ ids ↔ (∃ table ∈ node.tables, table.database = id ∧ table.holds columns = true) ∨
      (catalog.parents node ≠ [] ∧ ∃ references, catalog.nodeReferences node = .ok references ∧
        ∀ parent ∈ catalog.parents node, ∃ found,
          catalog.computableWithin depth parent (references.of parent.name) = .ok found ∧
            id ∈ found) := by
  have stored : id ∈ (node.tables.filter fun table => table.holds columns).map
      Materialization.database ↔
        ∃ table ∈ node.tables, table.database = id ∧ table.holds columns = true := by
    simp only [List.mem_map, List.mem_filter]
    grind
  rw [computableWithin] at done
  split at done
  next none =>
    cases Result.pure_eq_ok.1 done
    simp [stored, none]
  next first rest parents =>
    obtain ⟨references, refers, done⟩ := Result.bind_eq_ok.1 done
    obtain ⟨start, known, done⟩ := Result.bind_eq_ok.1 done
    obtain ⟨common, others, same⟩ := Result.bind_eq_ok.1 done
    cases Result.pure_eq_ok.1 same
    rw [List.mem_append, stored, mem_of_foldlM_filter others id, parents]
    simp [refers, known]

/-- More depth than the rank of a node makes no difference. -/
theorem computableWithin_succ (accepted : catalog.Accepted) (member : node ∈ catalog.nodes)
    {depth : Nat} (enough : catalog.rank node < depth) (columns : List String) :
    catalog.computableWithin (depth + 1) node columns =
      catalog.computableWithin depth node columns := by
  induction depth generalizing node columns with
  | zero => omega
  | succ depth ih =>
      have parents : ∀ parent ∈ catalog.parents node, ∀ columns,
          catalog.computableWithin (depth + 1) parent columns =
            catalog.computableWithin depth parent columns := by
        intro parent isParent columns
        have less := accepted.rank_parent_lt member isParent
        exact ih (mem_of_mem_parents isParent).1 (by omega) columns
      rw [computableWithin, computableWithin]
      cases listed : catalog.parents node with
      | nil => rfl
      | cons first rest =>
          rw [listed, List.forall_mem_cons] at parents
          simp only [parents.1]
          congr 1
          funext references
          congr 1
          funext start
          congr 1
          exact Result.foldlM_congr (fun parent later ids => by rw [parents.2 parent later]) start

/-- A database provides columns of a node if a table there holds them, or if it provides what the
expression of the node needs of each of its parents. -/
theorem mem_computableIds (accepted : catalog.Accepted) {ids : List Int}
    (done : catalog.computableIds node columns = .ok ids) (id : Int) :
    id ∈ ids ↔ (∃ table ∈ node.tables, table.database = id ∧ table.holds columns = true) ∨
      (catalog.parents node ≠ [] ∧ ∃ references, catalog.nodeReferences node = .ok references ∧
        ∀ parent ∈ catalog.parents node, ∃ found,
          catalog.computableIds parent (references.of parent.name) = .ok found ∧ id ∈ found) := by
  have parents : ∀ parent ∈ catalog.parents node, ∀ columns,
      catalog.computableIds parent columns =
        catalog.computableWithin catalog.nodes.length parent columns := by
    intro parent isParent
    have known := (mem_of_mem_parents isParent).1
    exact computableWithin_succ accepted known (accepted.rank_lt_length known)
  rw [mem_computableWithin done id]
  simp +contextual only [parents]

end Catalog
end SemanticLayer
