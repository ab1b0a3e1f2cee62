import SemanticLayer.Proofs.Charges
import SemanticLayer.Proofs.Promises

/-!
# Faults of building a query

What can be wrong once a request is found valid. A query is built of texts that are read, of columns
that are given an owner, of nodes that are looked up and of a database that is chosen, and it fails
only as one of these does.
-/

namespace SemanticLayer

open Result (FailsWith)

/-- The faults of a text, of a reference to a column or a node, and of a choice of database. -/
def Error.OfBuilding : Error → Prop
  | .columnNotFound _ | .ambiguousColumn _ | .invalidIdentifier _ | .unknownNode _
  | .noValidDatabase | .invalidDatabaseId _ => True
  | error => error.OfText

theorem Error.OfText.ofBuilding {error : Error} (fault : error.OfText) : error.OfBuilding := by
  cases error with
  | notImplemented _ | invalidSql _ | unreadableSql => exact trivial
  | _ => exact fault.elim

/-- A computation that fails only as building a query does. -/
abbrev Builds {α : Type} (run : Result α) : Prop :=
  run.FailsWith Error.OfBuilding

/-- What a run of steps builds is built if each step builds. -/
theorem Result.builds_foldlM {α β : Type} {items : List α} {step : β → α → Result β}
    (each : ∀ item ∈ items, ∀ state, Builds (step state item)) (start : β) :
    Builds (items.foldlM step start) :=
  .foldlM (fun _ => True) trivial (fun item member state _ => each item member state)
    fun _ _ _ _ _ _ => trivial

namespace Catalog

open SemanticLayer.Sql

variable {catalog : Catalog}

/-! ## References and databases -/

theorem builds_node (name : String) : Builds (catalog.node name) := by
  rw [Catalog.node]
  split
  · exact .ok _
  · exact .error trivial

theorem builds_documentReferences (document : Document) (parents : List Node) :
    Builds (documentReferences document parents) := by
  rw [documentReferences]
  refine (Result.builds_foldlM (fun parts _ references => ?_) _).bind fun _ _ =>
    Result.builds_foldlM (fun column _ references => ?_) _
  · rw [addQualified.eq_def]
    dsimp only
    split
    · exact .ok _
    · split
      · exact .ok _
      · split
        · exact .ok _
        · exact .error trivial
  · rw [addBare]
    split
    · exact .error trivial
    · exact .ok _
    · exact .error trivial

theorem builds_nodeReferences (node : Node) : Builds (catalog.nodeReferences node) := by
  rw [nodeReferences]
  split
  next text _ =>
    exact ((statementsOf_failsWith text none).mono fun _ => Error.OfText.ofBuilding).bind
      fun _ _ => builds_documentReferences _ _
  next => exact .ok _

theorem builds_computableWithin (fuel : Nat) (node : Node) (columns : List String) :
    Builds (catalog.computableWithin fuel node columns) := by
  induction fuel generalizing node columns with
  | zero => exact .ok _
  | succ fuel ih =>
      rw [computableWithin]
      split
      · exact .pure _
      · refine (builds_nodeReferences node).bind fun references _ => (ih _ _).bind fun _ _ => ?_
        exact (Result.builds_foldlM (fun parent _ _ => (ih _ _).bind fun _ _ => .pure _) _).bind
          fun _ _ => .pure _

theorem builds_databaseFor (nodes : List Node) (references : References)
    (requested : Option Int) : Builds (catalog.databaseFor nodes references requested) := by
  refine FailsWith.bind ?_ fun found _ => ?_
  · exact Result.builds_foldlM
      (fun node _ _ => (builds_computableWithin _ node _).bind fun _ _ => .pure _) _
  · split
    · exact .error trivial
    · dsimp only
      split
      · exact .pure _
      · exact .error trivial
      · exact .error trivial

end Catalog

namespace Planner

open SemanticLayer.Sql
open Catalog (Node Database Hop)

variable {catalog : Catalog} {database : Database}

/-! ## Compiling -/

theorem builds_ofText (text : String) : Builds (Query.ofText text none) :=
  (Query.ofText_failsWith text none).mono fun _ => Error.OfText.ofBuilding

theorem builds_qualifyColumns (select : Select) (nodes : List Node) :
    Builds (qualifyColumns select nodes) :=
  qualifyColumns_failsWith fun column _ =>
    qualifyColumn_failsWith (fun _ => trivial) _ nodes column

theorem builds_expressionQuery {bind : Node → Option Name → Result Relation}
    (each : ∀ node aliasName, Builds (bind node aliasName)) (node : Node) :
    Builds (expressionQuery catalog bind node) := by
  rw [expressionQuery]
  split
  · exact .error trivial
  · refine (builds_ofText _).bind fun query _ => (builds_qualifyColumns _ _).bind fun select _ => ?_
    exact (bindRelations_failsWith (fun node _ => each node) select).bind fun _ _ => .pure _

theorem builds_relationWithin (depth : Nat) (node : Node) (aliasName : Option Name) :
    Builds (relationWithin catalog database depth node aliasName) := by
  induction depth generalizing node aliasName with
  | zero => exact .error trivial
  | succ depth ih =>
      rw [relationWithin]
      split
      · exact .ok _
      · exact (builds_expressionQuery ih node).bind fun _ _ => .pure _

theorem builds_relationOf (node : Node) (aliasName : Option Name) :
    Builds (relationOf catalog database node aliasName) :=
  builds_relationWithin _ node aliasName

theorem builds_queryOf (node : Node) (stored : Bool) :
    Builds (queryOf catalog database node stored) := by
  rw [queryOf]
  split
  · exact .ok _
  · exact builds_expressionQuery builds_relationOf node

theorem builds_namesInQuery (node : Node) (query : Query) :
    Builds (namesInQuery catalog node query) := by
  rw [namesInQuery]
  split
  · exact (builds_ofText _).bind fun _ _ => .pure _
  · exact .pure _

theorem builds_demand (demand : Demand) (path : List Hop) :
    Builds (demand.addPath catalog path) :=
  Result.builds_foldlM (fun _ _ _ => (Catalog.builds_node _).bind fun _ _ => .pure _) demand

theorem builds_addPaths (paths : List (List Hop)) (joins : Joins) :
    Builds (paths.foldlM (Joins.addPath catalog database) joins) := by
  refine Result.builds_foldlM (fun path _ joins => ?_) joins
  rw [Joins.addPath_eq_foldlM]
  refine Result.builds_foldlM (fun hop _ joins => ?_) joins
  rw [Joins.addHop]
  split
  · exact .pure _
  · refine (Catalog.builds_node _).bind fun node _ => (builds_relationOf node none).bind
      fun _ _ => ?_
    split
    · exact .error trivial
    · exact .pure _

end Planner
end SemanticLayer
