import SemanticLayer.Proofs.Likeness
import SemanticLayer.Proofs.Origins

/-!
# Columns of a metric under the names of another one

The columns of a metric are pointed at the names that its parents go by in the FROM of another
metric. A qualifier is taken for a parent if it is the reference of the parent in FROM, or the name
of the parent. The two part where the name of a parent that goes by another name is written: then
the qualifier is that of another relation, and which parent is taken depends on the order in which
the references are looked through.
-/

namespace SemanticLayer.Planner

open SemanticLayer.Sql
open Catalog (Node)

/-! ## References -/

namespace NodeNames

/-- Whether each node has one reference, and different nodes have different ones. -/
structure Distinct (names : NodeNames) : Prop where
  nodes : (names.map Prod.fst).Nodup
  references : (names.map fun entry => entry.2.value).Nodup

variable {names order : NodeNames} {node : String} {reference : Name}

theorem Distinct.perm (distinct : names.Distinct) (perm : order.Perm names) : order.Distinct :=
  ⟨(perm.map _).nodup_iff.2 distinct.nodes, (perm.map _).nodup_iff.2 distinct.references⟩

theorem Distinct.get?_eq_some_iff (distinct : names.Distinct) :
    names.get? node = some reference ↔ (node, reference) ∈ names := by
  rw [get?, Option.map_eq_some_iff]
  constructor
  · rintro ⟨entry, found, rfl⟩
    have same : entry.1 = node := by simpa using List.find?_some found
    exact same ▸ List.mem_of_find?_eq_some found
  · intro member
    obtain ⟨entry, found⟩ := Option.isSome_iff_exists.1 (List.find?_isSome.2
      ⟨(node, reference), member, beq_self_eq_true node⟩ :
        (names.find? fun entry => entry.1 == node).isSome)
    have same : entry.1 = node := by simpa using List.find?_some found
    have one := List.inj_on_of_nodup_map distinct.nodes (List.mem_of_find?_eq_some found) member same
    exact ⟨entry, found, congrArg Prod.snd one⟩

/-- The references do not depend on their order. -/
theorem Distinct.get?_perm (distinct : names.Distinct) (perm : order.Perm names) :
    order.get? node = names.get? node := by
  ext reference
  rw [(distinct.perm perm).get?_eq_some_iff, distinct.get?_eq_some_iff, perm.mem_iff]

end NodeNames

/-! ## One column -/

/-- The column with a name in place of its qualifier. -/
def pointed (column : Column) (name : Name) : Column :=
  { column with table := some { name }, path := none }

/-- Whether a qualifier is the name of a node that goes by another name. -/
def Misread (own : NodeNames) (column : Column) : Prop :=
  ∃ entry ∈ own, column.qualifierName? = some entry.1 ∧ entry.2.value ≠ entry.1

/-- Whether a qualifier is the reference of a node. -/
def Denotes (own : NodeNames) (column : Column) (node : String) : Prop :=
  ∃ reference, (node, reference) ∈ own ∧ column.qualifierName? = some reference.value

/-- What a column becomes under other references: one that is qualified by the reference of a node is
pointed at the other reference of the node, and any other one stays. -/
inductive PointsAt (own target : NodeNames) (column : Column) : Column → Prop
  | denoted {node : String} {name : Name} (denotes : Denotes own column node)
      (goesBy : (node, name) ∈ target) : PointsAt own target column (pointed column name)
  | other (none : ∀ node, ¬ Denotes own column node) : PointsAt own target column column

/-- Whether an entry is taken for the qualifier of a column: by its reference, or by the name of its
node. -/
def Fits (column : Column) (entry : String × Name) : Prop :=
  column.qualifierName? = some entry.2.value ∨ column.qualifierName? = some entry.1

instance (column : Column) (entry : String × Name) : Decidable (Fits column entry) :=
  inferInstanceAs (Decidable (_ ∨ _))

section

variable {own target order targetOrder : NodeNames} {column : Column}

/-- The first entry that fits decides. -/
theorem renameOwner_eq (own target : NodeNames) (column : Column) :
    Metric.renameOwner own target column =
      ((own.find? fun entry => decide (Fits column entry)).bind fun entry =>
        target.get? entry.1).elim column (pointed column) := by
  have taken : (column.qualifierName?.bind fun qualifier =>
      (own.find? fun entry => entry.2.value == qualifier || entry.1 == qualifier).bind fun entry =>
        target.get? entry.1) =
      (own.find? fun entry => decide (Fits column entry)).bind fun entry => target.get? entry.1 := by
    cases known : column.qualifierName? with
    | none =>
        rw [Option.bind_none, List.find?_eq_none.2 fun entry _ => by simp [Fits, known],
          Option.bind_none]
    | some qualifier =>
        have same : (fun entry : String × Name => entry.2.value == qualifier || entry.1 == qualifier) =
            fun entry => decide (Fits column entry) := by
          funext entry
          rw [Bool.eq_iff_iff]
          simp only [Fits, known, Bool.or_eq_true, beq_iff_eq, decide_eq_true_eq,
            Option.some.injEq]
          exact or_congr eq_comm eq_comm
        rw [Option.bind_some, same]
  rw [Metric.renameOwner, taken]
  generalize (own.find? fun entry => decide (Fits column entry)).bind
    (fun entry => target.get? entry.1) = owner?
  cases owner? <;> rfl

theorem renameOwner_of_not_fits (none : ∀ entry ∈ own, ¬ Fits column entry) :
    Metric.renameOwner own target column = column := by
  rw [renameOwner_eq, List.find?_eq_none.2 (by simpa using none)]
  rfl

/-- An entry that fits, and that no other one precedes, decides. -/
theorem renameOwner_of_first {entry : String × Name} (fits : Fits column entry)
    {name : Name} (goesBy : target.get? entry.1 = some name) :
    Metric.renameOwner (entry :: own) target column = pointed column name := by
  rw [renameOwner_eq, List.find?_cons_of_pos (by simpa using fits), Option.bind_some, goesBy]
  rfl

/-- The only entry that fits decides. -/
theorem renameOwner_of_only {entry : String × Name} (member : entry ∈ own)
    (fits : Fits column entry) (only : ∀ other ∈ own, Fits column other → other = entry)
    {name : Name} (goesBy : target.get? entry.1 = some name) :
    Metric.renameOwner own target column = pointed column name := by
  obtain ⟨first, found⟩ := Option.isSome_iff_exists.1 (List.find?_isSome.2
    ⟨entry, member, decide_eq_true fits⟩ :
      (own.find? fun entry => decide (Fits column entry)).isSome)
  have same := only first (List.mem_of_find?_eq_some found) (by simpa using List.find?_some found)
  rw [renameOwner_eq, found, Option.bind_some, same, goesBy]
  rfl

/-! ## Which entries fit -/

/-- A qualifier is the reference of one node at most. -/
theorem entry_eq_of_reference (distinct : own.Distinct) {entry other : String × Name}
    (member : entry ∈ own) (among : other ∈ own)
    (qualifies : column.qualifierName? = some entry.2.value)
    (qualifiesToo : column.qualifierName? = some other.2.value) : entry = other :=
  List.inj_on_of_nodup_map distinct.references member among
    (Option.some.inj (qualifies.symm.trans qualifiesToo))

/-- A qualifier is the name of one node at most. -/
theorem entry_eq_of_node (distinct : own.Distinct) {entry other : String × Name}
    (member : entry ∈ own) (among : other ∈ own)
    (qualifies : column.qualifierName? = some entry.1)
    (qualifiesToo : column.qualifierName? = some other.1) : entry = other :=
  List.inj_on_of_nodup_map distinct.nodes member among
    (Option.some.inj (qualifies.symm.trans qualifiesToo))

/-- Where no name is misread an entry fits by its reference. -/
theorem qualifies_of_fits (clear : ¬ Misread own column) {entry : String × Name}
    (member : entry ∈ own) (fits : Fits column entry) :
    column.qualifierName? = some entry.2.value := by
  rcases fits with byReference | byNode
  · exact byReference
  · by_contra differs
    refine clear ⟨entry, member, byNode, fun same => differs ?_⟩
    rw [same, byNode]

/-! ## Orders of the references -/

/-- A property of columns that is true of what a column becomes in whatever order the references are
looked through. -/
def InEveryOrder (own target : NodeNames) (column : Column) (holds : Column → Prop) : Prop :=
  ∀ order targetOrder, order.Perm own → targetOrder.Perm target →
    holds (Metric.renameOwner order targetOrder column)

variable (distinct : own.Distinct) (distinctToo : target.Distinct)
  (present : ∀ entry ∈ own, (target.get? entry.1).isSome)

include distinct distinctToo present

/-- A column that is not misread is pointed at what the node of its qualifier goes by, in every
order. -/
theorem pointsAt_of_not_misread (clear : ¬ Misread own column) :
    InEveryOrder own target column (PointsAt own target column) := by
  intro order targetOrder perm targetPerm
  by_cases denotes : ∃ node, Denotes own column node
  · obtain ⟨node, reference, member, qualifies⟩ := denotes
    obtain ⟨name, goesBy⟩ := Option.isSome_iff_exists.1 (present _ member)
    rw [renameOwner_of_only (perm.mem_iff.2 member) (.inl qualifies)
      (fun other among fits => entry_eq_of_reference distinct (perm.mem_iff.1 among) member
        (qualifies_of_fits clear (perm.mem_iff.1 among) fits) qualifies)
      ((distinctToo.get?_perm targetPerm).trans goesBy)]
    exact .denoted ⟨reference, member, qualifies⟩ (distinctToo.get?_eq_some_iff.1 goesBy)
  · have none : ∀ entry ∈ order, ¬ Fits column entry := fun entry member fits =>
      denotes ⟨entry.1, entry.2, perm.mem_iff.1 member,
        qualifies_of_fits clear (perm.mem_iff.1 member) fits⟩
    rw [renameOwner_of_not_fits none]
    exact .other fun node here => denotes ⟨node, here⟩

omit distinct in
/-- Some order points a column at what a node goes by that fits its qualifier. -/
theorem exists_order {entry : String × Name} (member : entry ∈ own) (fits : Fits column entry) :
    ∃ order, order.Perm own ∧ ∃ name, (entry.1, name) ∈ target ∧
      Metric.renameOwner order target column = pointed column name := by
  obtain ⟨name, goesBy⟩ := Option.isSome_iff_exists.1 (present entry member)
  obtain ⟨front, back, split⟩ := List.append_of_mem member
  refine ⟨entry :: (front ++ back), ?_, name, distinctToo.get?_eq_some_iff.1 goesBy,
    renameOwner_of_first fits goesBy⟩
  rw [split]
  exact List.perm_middle.symm

/-- A column is pointed at the node of its qualifier, in every order, just if it is not misread. -/
theorem pointsAt_iff (called : Called own column) :
    InEveryOrder own target column (PointsAt own target column) ↔ ¬ Misread own column := by
  refine ⟨?_, pointsAt_of_not_misread distinct distinctToo present⟩
  rintro every ⟨entry, member, byNode, differs⟩
  obtain ⟨order, perm, name, goesBy, becomes⟩ :=
    exists_order distinctToo present member (.inr byNode : Fits column entry)
  have points := every order target perm (.refl target)
  rw [becomes] at points
  generalize changed : pointed column name = after at points
  cases points with
  | @denoted node other denotes otherGoesBy =>
      obtain ⟨reference, known, qualifies⟩ := denotes
      have same : name = other := by simpa [pointed] using changed
      have one : entry.1 = node := congrArg Prod.fst (List.inj_on_of_nodup_map
        distinctToo.references goesBy otherGoesBy (congrArg Name.value same))
      have equal := List.inj_on_of_nodup_map distinct.nodes member known one
      rw [equal] at byNode differs
      exact differs (Option.some.inj (qualifies.symm.trans byNode))
  | other none =>
      obtain ⟨known, isOwn, owned⟩ := called { name } (by rw [← changed]; rfl)
      refine none known.1 ⟨known.2, isOwn, ?_⟩
      rw [Column.qualifierName?, Column.qualifier, ← changed]
      simp [pointed, owned, Table.reference, Path.dotted, Text.dotted]

/-- What a column becomes does not depend on the order just if it is not misread, or if its qualifier
is no reference. -/
theorem order_irrelevant_iff :
    (∃ after, InEveryOrder own target column (· = after)) ↔
      ¬ (Misread own column ∧ ∃ node, Denotes own column node) := by
  constructor
  · rintro ⟨after, every⟩ ⟨⟨entry, member, byNode, differs⟩, node, reference, known, qualifies⟩
    obtain ⟨order, perm, name, goesBy, becomes⟩ :=
      exists_order distinctToo present member (.inr byNode : Fits column entry)
    obtain ⟨order', perm', name', goesBy', becomes'⟩ :=
      exists_order distinctToo present known (.inl qualifies : Fits column (node, reference))
    have same := (every order target perm (.refl target)).trans
      (every order' target perm' (.refl target)).symm
    rw [becomes, becomes'] at same
    have names : name = name' := by simpa [pointed] using same
    have one := congrArg Prod.fst (List.inj_on_of_nodup_map distinctToo.references goesBy goesBy'
      (congrArg Name.value names))
    have equal := List.inj_on_of_nodup_map distinct.nodes member known one
    rw [equal] at byNode differs
    exact differs (Option.some.inj (qualifies.symm.trans byNode))
  · intro clear
    refine ⟨Metric.renameOwner own target column, fun order targetOrder perm targetPerm => ?_⟩
    by_cases fitting : ∃ entry ∈ own, Fits column entry
    · obtain ⟨entry, member, fits⟩ := fitting
      have only : ∀ other ∈ own, Fits column other → other = entry := by
        intro other among alsoFits
        by_cases misread : Misread own column
        · have undenoted : ∀ entry ∈ own, column.qualifierName? ≠ some entry.2.value :=
            fun entry member qualifies =>
              clear ⟨misread, entry.1, entry.2, member, qualifies⟩
          exact entry_eq_of_node distinct among member
            (alsoFits.resolve_left (undenoted other among))
            (fits.resolve_left (undenoted entry member))
        · exact entry_eq_of_reference distinct among member
            (qualifies_of_fits misread among alsoFits) (qualifies_of_fits misread member fits)
      obtain ⟨name, goesBy⟩ := Option.isSome_iff_exists.1 (present entry member)
      rw [renameOwner_of_only member fits only goesBy,
        renameOwner_of_only (perm.mem_iff.2 member) fits
          (fun other among => only other (perm.mem_iff.1 among))
          ((distinctToo.get?_perm targetPerm).trans goesBy)]
    · rw [renameOwner_of_not_fits fun entry member fits => fitting ⟨entry, member, fits⟩,
        renameOwner_of_not_fits fun entry member fits =>
          fitting ⟨entry, perm.mem_iff.1 member, fits⟩]

end

/-! ## A metric under its own references -/

section

variable {own : NodeNames} {column : Column} {name : Name}

theorem qualifierName?_pointed (column : Column) (name : Name) :
    (pointed column name).qualifierName? = some name.value := by
  simp [pointed, Column.qualifierName?, Column.qualifier, Table.reference, Path.dotted, Text.dotted]

theorem tokens_pointed (column : Column) (name : Name) :
    (pointed column name).tokens = Path.tokens [name] ++ [column.name.token] :=
  rfl

theorem fullName_of_qualifierName? {qualifier : String}
    (qualifies : column.qualifierName? = some qualifier) :
    column.fullName = qualifier ++ "." ++ column.name.value := by
  rw [Column.fullName, qualifies]

/-- A path that is written like a single name is called like it. -/
theorem dotted_of_tokens_eq {path : Path} (same : path.tokens = Path.tokens [name]) :
    path.dotted = name.value := by
  cases path with
  | nil => cases same
  | cons first rest =>
      cases rest with
      | nil =>
          have token : first.token = name.token := (List.cons.inj same).1
          exact (Token.name.inj token).1
      | cons second others => simp [Path.tokens] at same

theorem present_self : ∀ entry ∈ own, (own.get? entry.1).isSome :=
  fun _ member => NodeNames.get?_of_mem member

variable (distinct : own.Distinct)

include distinct

/-- Under its own references a node goes by the name that it went by. -/
theorem name_eq_of_mem {entry : String × Name} (member : entry ∈ own)
    (goesBy : (entry.1, name) ∈ own) : name = entry.2 :=
  congrArg Prod.snd (List.inj_on_of_nodup_map distinct.nodes goesBy member rfl)

/-- A column keeps its name with dots, in every order, just if it is not misread. -/
theorem fullName_kept_iff :
    InEveryOrder own own column (fun after => after.fullName = column.fullName) ↔
      ¬ Misread own column := by
  constructor
  · rintro every ⟨entry, member, byNode, differs⟩
    obtain ⟨order, perm, name, goesBy, becomes⟩ :=
      exists_order distinct present_self member (.inr byNode : Fits column entry)
    have same := every order own perm (.refl own)
    rw [becomes, fullName_of_qualifierName? byNode,
      fullName_of_qualifierName? (qualifierName?_pointed column name)] at same
    have called : name.value = entry.1 := by simpa [pointed] using same
    rw [name_eq_of_mem distinct member goesBy] at called
    exact differs called
  · intro clear order targetOrder perm targetPerm
    have points := pointsAt_of_not_misread distinct distinct present_self clear order
      targetOrder perm targetPerm
    generalize Metric.renameOwner order targetOrder column = after at points
    cases points with
    | denoted denotes goesBy =>
        obtain ⟨reference, member, qualifies⟩ := denotes
        rw [fullName_of_qualifierName? qualifies,
          fullName_of_qualifierName? (qualifierName?_pointed column _),
          name_eq_of_mem distinct member goesBy]
        rfl
    | other none => rfl

/-- A column is written as before, in every order, just if it is not misread and its qualifier is
written like the reference it is. -/
theorem tokens_kept_iff :
    InEveryOrder own own column (fun after => after.tokens = column.tokens) ↔
      ¬ Misread own column ∧ ∀ entry ∈ own, column.qualifierName? = some entry.2.value →
        column.qualifier.tokens = Path.tokens [entry.2] := by
  have written {entry : String × Name} (member : entry ∈ own) (fits : Fits column entry)
      (every : InEveryOrder own own column (fun after => after.tokens = column.tokens)) :
      column.qualifier.tokens = Path.tokens [entry.2] := by
    obtain ⟨order, perm, name, goesBy, becomes⟩ :=
      exists_order distinct present_self member fits
    have same := every order own perm (.refl own)
    rw [becomes, tokens_pointed, Column.tokens, name_eq_of_mem distinct member goesBy] at same
    exact (List.append_cancel_right same).symm
  constructor
  · intro every
    refine ⟨?_, fun entry member qualifies => written member (.inl qualifies) every⟩
    rintro ⟨entry, member, byNode, differs⟩
    have called := dotted_of_tokens_eq (written member (.inr byNode) every)
    refine differs (called.symm.trans (Option.some.inj (Eq.trans ?_ byNode)))
    rw [Column.qualifierName?] at byNode ⊢
    split at byNode
    · cases byNode
    next some => rw [if_neg some]
  · rintro ⟨clear, spelled⟩ order targetOrder perm targetPerm
    have points := pointsAt_of_not_misread distinct distinct present_self clear order
      targetOrder perm targetPerm
    generalize Metric.renameOwner order targetOrder column = after at points
    cases points with
    | denoted denotes goesBy =>
        obtain ⟨reference, member, qualifies⟩ := denotes
        rw [tokens_pointed, Column.tokens, spelled _ member qualifies,
          name_eq_of_mem distinct member goesBy]
    | other none => rfl

end

/-! ## Metrics -/

/-- Whether each parent of a metric stands in its FROM, and different ones go by different names. -/
structure Metric.Refers (catalog : Catalog) (metric : Metric) : Prop where
  present : ∀ parent ∈ catalog.parents metric.node, (metric.names.get? parent.name).isSome
  distinct : (metric.names.map fun entry => entry.2.value).Nodup

/-- A property of expressions that is true of what an expression becomes in whatever order the
references are looked through. -/
def EveryRetargeting (own target : NodeNames) (expr : Expr) (holds : Expr → Prop) : Prop :=
  ∀ order targetOrder, order.Perm own → targetOrder.Perm target →
    holds (expr.mapColumns (Metric.renameOwner order targetOrder))

section

variable {catalog : Catalog} {node other : Node} {own target : Metric}

theorem Metric.Refers.names_distinct (loaded : Metric.ofNode catalog node = .ok own)
    (refers : own.Refers catalog) : own.names.Distinct := by
  obtain ⟨made⟩ := Metric.nonempty_of loaded
  refine ⟨?_, refers.distinct⟩
  rw [made.names]
  exact (NodeNames.for_ofSelect _ _).distinct

/-- The nodes of one metric go by some name in another one with the same parents. -/
theorem Metric.Refers.isSome_get? (loaded : Metric.ofNode catalog node = .ok own)
    (parents : own.parentSet = target.parentSet) (refers : target.Refers catalog) :
    ∀ entry ∈ own.names, (target.names.get? entry.1).isSome := by
  intro entry member
  obtain ⟨made⟩ := Metric.nonempty_of loaded
  rw [made.names] at member
  obtain ⟨parent, isParent, named⟩ := (NodeNames.for_ofSelect _ _).known entry member
  rw [← made.isOf] at isParent
  rw [← named]
  exact refers.present parent (Metric.mem_parents_of_parentSet parents isParent)

/-- What is true of every column in every order is true of the whole expression. -/
theorem everyRetargeting_iff {names names' : NodeNames} {expr : Expr} {holds : Expr → Prop}
    {each : Column → Column → Prop}
    (whole : ∀ change, holds (expr.mapColumns change) ↔ ∀ c ∈ expr.columns, each c (change c)) :
    EveryRetargeting names names' expr holds ↔
      ∀ c ∈ expr.columns, InEveryOrder names names' c (each c) := by
  constructor
  · intro every c member order targetOrder perm targetPerm
    exact (whole _).1 (every order targetOrder perm targetPerm) c member
  · intro every order targetOrder perm targetPerm
    exact (whole _).2 fun c member => every c member order targetOrder perm targetPerm

/-- The columns of a metric are pointed at the names of another metric with the same parents, where
both have each parent in FROM under a name of its own: each at what the parent goes by there that its
qualifier stands for in the FROM of the metric itself, in whatever order the references are looked
through, just if no qualifier is the name of a parent that goes by another name. The order does not
matter just if no such qualifier is the name that some other parent goes by. Under its own references
a metric keeps the names of its columns just if none is misread, and keeps them as they are written
just if qualifiers are written like references, too. -/
theorem columns_are_retargeted_iff (loaded : Metric.ofNode catalog node = .ok own)
    (loadedToo : Metric.ofNode catalog other = .ok target)
    (parents : own.parentSet = target.parentSet) (refers : own.Refers catalog)
    (refersToo : target.Refers catalog) :
    (EveryRetargeting own.names target.names own.expr
        (own.expr.Alike (PointsAt own.names target.names)) ↔
      ∀ column ∈ own.expr.columns, ¬ Misread own.names column) ∧
    ((∃ after, EveryRetargeting own.names target.names own.expr (· = after)) ↔
      ∀ column ∈ own.expr.columns,
        ¬ (Misread own.names column ∧ ∃ parent, Denotes own.names column parent)) ∧
    (EveryRetargeting own.names own.names own.expr
        (fun after => after.columns.map Column.fullName = own.expr.columns.map Column.fullName) ↔
      ∀ column ∈ own.expr.columns, ¬ Misread own.names column) ∧
    (EveryRetargeting own.names own.names own.expr
        (fun after => after.columns.map Column.tokens = own.expr.columns.map Column.tokens) ↔
      ∀ column ∈ own.expr.columns, ¬ Misread own.names column ∧
        ∀ entry ∈ own.names, column.qualifierName? = some entry.2.value →
          column.qualifier.tokens = Path.tokens [entry.2]) := by
  have distinct := refers.names_distinct loaded
  have distinctToo := refersToo.names_distinct loadedToo
  have present := refersToo.isSome_get? loaded parents
  obtain ⟨made⟩ := Metric.nonempty_of loaded
  have kept {α : Type} (view : Column → α) :
      EveryRetargeting own.names own.names own.expr
          (fun after => after.columns.map view = own.expr.columns.map view) ↔
        ∀ c ∈ own.expr.columns,
          InEveryOrder own.names own.names c (fun after => view after = view c) :=
    everyRetargeting_iff fun change => by
      rw [Expr.columns_mapColumns, List.map_map, List.map_inj_left]
      rfl
  refine ⟨?_, ?_, ?_, ?_⟩
  · rw [everyRetargeting_iff fun _ => Expr.alike_mapColumns_iff]
    exact forall₂_congr fun column member =>
      pointsAt_iff distinct distinctToo present (made.called column member)
  · have steady : (∃ after, EveryRetargeting own.names target.names own.expr (· = after)) ↔
        ∀ c ∈ own.expr.columns, ∃ after, InEveryOrder own.names target.names c (· = after) := by
      constructor
      · rintro ⟨after, every⟩ c member
        refine ⟨Metric.renameOwner own.names target.names c, fun order targetOrder perm targetPerm => ?_⟩
        have same := (every order targetOrder perm targetPerm).trans
          (every own.names target.names (.refl _) (.refl _)).symm
        exact (Expr.mapColumns_eq_iff _).1 same c member
      · intro every
        refine ⟨own.expr.mapColumns (Metric.renameOwner own.names target.names),
          fun order targetOrder perm targetPerm => (Expr.mapColumns_eq_iff _).2 fun c member => ?_⟩
        obtain ⟨after, same⟩ := every c member
        exact (same order targetOrder perm targetPerm).trans
          (same own.names target.names (.refl _) (.refl _)).symm
    rw [steady]
    exact forall₂_congr fun column _ => order_irrelevant_iff distinct distinctToo present
  · rw [kept Column.fullName]
    exact forall₂_congr fun column _ => fullName_kept_iff distinct
  · rw [kept Column.tokens]
    exact forall₂_congr fun column _ => tokens_kept_iff distinct

end

/-- The sum of credits, in whose FROM debits go by the name of credits. -/
def creditSum : Node :=
  { name := "credit_sum", kind := .metric, parents := ["debits", "credits"]
    expression := some "SELECT SUM(credits.amount) FROM debits AS credits, credits AS c" }

/-- How many pairs of debits and credits there are. -/
def pairing : Node :=
  { name := "pairing", kind := .metric, parents := ["credits", "debits"]
    expression := some "SELECT COUNT(*) FROM debits, credits" }

/-- Debits, credits and the metrics over both. -/
def ledger : Catalog :=
  { databases := [{ id := 1, name := "a", uri := "duckdb://x" }]
    nodes :=
      [{ name := "debits", kind := .source, columns := [{ name := "amount" }]
         tables := [{ database := 1, table := "debits" }] },
       { name := "credits", kind := .source, columns := [{ name := "amount" }]
         tables := [{ database := 1, table := "credits" }] }, creditSum, pairing] }

/-- What the sum of credits is summed over depends on the order of its references. -/
theorem columns_are_retargeted_iff_ledger :
    ∃ own target, Metric.ofNode ledger creditSum = .ok own ∧
      Metric.ofNode ledger pairing = .ok target ∧
      ¬ ∃ after, EveryRetargeting own.names target.names own.expr (· = after) := by
  obtain ⟨own, isOwn, shown⟩ := Option.map_eq_some_iff.1 (by decide +kernel :
    ((Metric.ofNode ledger creditSum).toOption.map fun metric =>
      (metric.names, metric.expr.columns)) = some
        ([("debits", { value := "credits" }), ("credits", { value := "c" })],
          [{ name := { value := "amount" }, path := some [{ value := "credits" }] }]))
  obtain ⟨target, isTarget, shownToo⟩ := Option.map_eq_some_iff.1 (by decide +kernel :
    ((Metric.ofNode ledger pairing).toOption.map Metric.names) = some
      [("debits", { value := "debits" }), ("credits", { value := "credits" })])
  have loaded := Result.eq_ok_of_toOption isOwn
  have loadedToo := Result.eq_ok_of_toOption isTarget
  obtain ⟨made⟩ := Metric.nonempty_of loaded
  obtain ⟨madeToo⟩ := Metric.nonempty_of loadedToo
  obtain ⟨names, columns⟩ := Prod.mk.inj shown
  have parents : own.parentSet = target.parentSet := by
    rw [Metric.parentSet, Metric.parentSet, made.isOf, madeToo.isOf]
    decide +kernel
  have refers : own.Refers ledger := by
    constructor
    · rw [made.isOf, names]
      decide
    · rw [names]
      decide
  have refersToo : target.Refers ledger := by
    constructor
    · rw [madeToo.isOf, shownToo]
      decide
    · rw [shownToo]
      decide
  refine ⟨own, target, loaded, loadedToo, fun steady => ?_⟩
  obtain ⟨-, order, -⟩ := columns_are_retargeted_iff loaded loadedToo parents refers refersToo
  have clear := order.1 steady
  rw [names, columns] at clear
  refine clear _ List.mem_cons_self ⟨⟨("credits", { value := "c" }), ?_, rfl, by decide⟩, "debits",
    { value := "credits" }, ?_, rfl⟩ <;> simp

end SemanticLayer.Planner
