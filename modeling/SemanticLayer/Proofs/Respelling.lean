import SemanticLayer.Proofs.Agreement
import SemanticLayer.Proofs.Likeness
import SemanticLayer.Proofs.Nesting
import SemanticLayer.Proofs.Origins

/-!
# Two spellings of a reference

A column of a node is written in a path, or as one name with dots in quotes. SQL over metrics says
the same in both spellings: metrics are looked up by the name with dots, and so are the nodes that
dimensions belong to. Only an alias is told from a column by its spelling, so that no alias may be
called like the column.
-/

namespace SemanticLayer.Planner

open SemanticLayer.Sql
open Result (Alongside)
open Catalog (Node)

/-- Whether a text is an alias in the projection, or becomes one since it is the name of a metric. -/
def Taken (catalog : Catalog) (aliases : List String) (text : String) : Prop :=
  text ∈ aliases ∨ ∃ node ∈ catalog.nodes, node.isMetric = true ∧ node.name = text

/-- Whether a column is the same as another one, or its name with dots in quotes. The last part of
that name is written without quotes, and the name is neither an alias nor the name of a metric. -/
inductive Respelled (catalog : Catalog) (aliases : List String) : Column → Column → Prop
  | same (column : Column) : Respelled catalog aliases column column
  | quoted {column : Column} {path : Path} (bare : column.table = none)
      (inPath : column.path = some path) (proper : path ≠ []) (plain : column.name.quote = none)
      (undotted : '.' ∉ column.name.value.toList)
      (free : ¬ Taken catalog aliases column.fullName) :
      Respelled catalog aliases column { name := Planner.quoted column.fullName }

section

variable {catalog : Catalog} {aliases : List String} {column other : Column}

namespace Respelled

theorem fullName_of_path {path : Path} (bare : column.table = none)
    (inPath : column.path = some path) (proper : path ≠ []) :
    column.fullName = Text.dotted [path.dotted, column.name.value] := by
  have qualifier : column.qualifierName? = some path.dotted := by
    simp [Column.qualifierName?, Column.qualifier, bare, inPath, proper]
  rw [Column.fullName, qualifier, Text.dotted_pair]

/-- Both spellings name the same column of the same node. -/
theorem nodeAndColumn?_eq (respelled : Respelled catalog aliases column other) :
    nodeAndColumn? other = nodeAndColumn? column := by
  cases respelled with
  | same => rfl
  | quoted bare inPath proper plain undotted free =>
      rw [nodeAndColumn?, nodeAndColumn?, inPath]
      show Text.splitLastDot? column.fullName = _
      rw [fullName_of_path bare inPath proper, Text.splitLastDot?_dotted undotted]

/-- Both spellings are resolved to the same column, and what was met is the same. -/
theorem resolveColumn_eq {scope : Scope} (taken : ∀ text ∈ scope.aliases, Taken catalog aliases text)
    (respelled : Respelled catalog aliases column other) :
    resolveColumn catalog scope column = resolveColumn catalog scope other := by
  have named := respelled.nodeAndColumn?_eq
  cases respelled with
  | same => rfl
  | @quoted path bare inPath proper plain undotted free =>
      have noAlias : column.fullName ∉ scope.aliases := fun member => free (taken _ member)
      have found : nodeAndColumn? column = some (path.dotted, column.name.value) := by
        rw [nodeAndColumn?, inPath]
      have name : column.name = { value := column.name.value } := by
        rw [← plain]
      rw [found] at named
      rw [resolveColumn, resolveColumn, named, found]
      simp only [bare, inPath, Planner.quoted, Option.isNone_some, Bool.false_and,
        Option.isSome_none, Bool.or_self, Bool.false_eq_true, if_false, Option.isNone_none,
        Bool.true_and, List.contains_eq_mem, noAlias, decide_false, ← name, if_true]

end Respelled

/-! ## Items -/

/-- What is read of two projections in two spellings: the items are alike, and the metrics are the
same. All aliases are taken. -/
structure Items.Alike (catalog : Catalog) (aliases : List String) (items others : Items) : Prop where
  projection : Expr.AlikeList (Respelled catalog aliases) items.projection others.projection
  metrics : others.metrics = items.metrics
  taken : ∀ expr ∈ items.projection, ∀ name ∈ expr.aliasName?, Taken catalog aliases name.value

variable {items others : Items} {item item' : Expr}

theorem Items.Alike.append (alike : items.Alike catalog aliases others)
    (here : Expr.Alike (Respelled catalog aliases) item item') (more : List Metric)
    (taken : ∀ name ∈ item.aliasName?, Taken catalog aliases name.value) :
    Items.Alike catalog aliases
      { projection := items.projection ++ [item], metrics := items.metrics ++ more }
      { projection := others.projection ++ [item'], metrics := others.metrics ++ more } := by
  refine ⟨Expr.alikeList_iff.2 (List.rel_append (Expr.alikeList_iff.1 alike.projection)
    (.cons here .nil)), by rw [alike.metrics], fun expr member => ?_⟩
  rcases List.mem_append.1 member with before | last
  · exact alike.taken expr before
  · rwa [List.mem_singleton.1 last]

/-- What SQL over metrics says in two spellings. -/
structure Logical.Alike (catalog : Catalog) (aliases : List String) (logical others : Logical) :
    Prop where
  ctes : others.query.ctes = logical.query.ctes
  metrics : others.items.metrics = logical.items.metrics
  taken : ∀ text ∈ logical.select.aliases, Taken catalog aliases text
  select : logical.select.AlikeBesideFrom (Respelled catalog aliases) others.select
  sources : others.select.sources = logical.select.sources
  scope : others.scope = logical.scope
  references : others.references = logical.references

end

/-! ## An example -/

end SemanticLayer.Planner
