import SemanticLayer.Proofs.Charges
import SemanticLayer.Proofs.Likeness

/-!
# Which columns get owners

A bare column gets an owner just if one node among those in FROM declares it, and giving owners
fails just if two of them declare it. Nothing else is changed, and owners that were given are given
again.
-/

namespace SemanticLayer.Planner

open SemanticLayer.Sql
open Catalog (Node)

/-! ## References in FROM -/

/-- The name by which columns refer to a relation, if it is the table of a node: its alias, or else
the name of the node. -/
def referenceIn? (node : String) : Relation → Option Name
  | .table table =>
    if table.fullName = node then some (table.aliasName.getD { value := node }) else none
  | .derived _ _ => none

/-- The name by which columns refer to a node in FROM, the last one of several. -/
def reference? (select : Select) (node : String) : Option Name :=
  select.relations.reverse.findSome? (referenceIn? node)

namespace NodeNames

/-- Another name for a node is found under that node, and the other names stay. -/
theorem get?_put (names : NodeNames) (node other : String) (name : Name) :
    (names.put node name).get? other = if other = node then some name else names.get? other := by
  rw [put, get?, List.find?_append, List.find?_filter]
  split
  next same =>
    rw [List.find?_eq_none.2 (by simp [same])]
    simp [same]
  next differs =>
    have kept : (fun entry : String × Name => entry.1 != node && entry.1 == other) =
        fun entry => entry.1 == other := by
      funext entry
      by_cases same : entry.1 = other
      · simp [same, differs]
      · simp [same]
    simp only [Bool.decide_and, Bool.decide_eq_true, kept, get?]
    simp [Ne.symm differs]

/-- The nodes go by the names by which columns refer to them in FROM. -/
theorem get?_ofSelect (select : Select) (nodes : List Node) (node : String) :
    (ofSelect select nodes).get? node =
      if nodes.any fun other => other.name == node then reference? select node else none := by
  rw [ofSelect, reference?]
  induction select.relations using List.reverseRecOn with
  | nil => simp [get?]
  | append_singleton relations relation ih =>
      rw [List.foldl_append, List.reverse_append, List.reverse_singleton, List.singleton_append,
        List.findSome?_cons]
      cases relation with
      | derived query aliasName => exact ih
      | table table =>
          rw [List.foldl_cons, List.foldl_nil, addRelation, referenceIn?]
          cases found : nodes.find? fun other => other.name == table.fullName with
          | none =>
              have absent : ∀ other ∈ nodes, other.name ≠ table.fullName := by
                simpa using List.find?_eq_none.1 found
              by_cases same : table.fullName = node
              · subst same
                have none : (nodes.any fun other => other.name == table.fullName) = false := by
                  simpa using absent
                simpa only [none, Bool.false_eq_true, if_false] using ih
              · simpa only [if_neg same] using ih
          | some known =>
              have called : known.name = table.fullName := by simpa using List.find?_some found
              have among : (nodes.any fun other => other.name == table.fullName) = true :=
                List.any_eq_true.2 ⟨known, List.mem_of_find?_eq_some found, by simpa using called⟩
              rw [get?_put, called, ih]
              by_cases same : table.fullName = node
              · subst same
                simp only [among, if_true]
              · simp only [if_neg same, if_neg (Ne.symm same)]

/-- A node that was asked for goes by its reference in FROM. -/
theorem get?_ofSelect_of_mem {select : Select} {nodes : List Node} {node : Node}
    (member : node ∈ nodes) :
    (ofSelect select nodes).get? node.name = reference? select node.name := by
  have among : (nodes.any fun other => other.name == node.name) = true :=
    List.any_eq_true.2 ⟨node, member, beq_self_eq_true node.name⟩
  rw [get?_ofSelect, if_pos among]

end NodeNames

/-! ## Owners -/

/-- Whether a node stands in FROM and declares a column. -/
def Offers (select : Select) (column : String) (node : Node) : Prop :=
  node.hasColumn column = true ∧ (reference? select node.name).isSome

/-- What becomes of a column. One with a qualifier stays. Any other one is that of the only node
among those in FROM that declares it, by the name by which FROM refers to the node; it stays bare if
no node in FROM declares it. -/
inductive GetsOwner (select : Select) (nodes : List Node) (column : Column) : Column → Prop
  | qualified (known : column.isQualified = true) : GetsOwner select nodes column column
  | owned {node : Node} {owner : Name} (bare : column.isQualified = false) (member : node ∈ nodes)
      (declares : node.hasColumn column.name.value = true)
      (refers : reference? select node.name = some owner)
      (only : ∀ other ∈ nodes, Offers select column.name.value other → other = node) :
      GetsOwner select nodes column { column with table := some { name := owner } }
  | free (bare : column.isQualified = false)
      (none : ∀ node ∈ nodes, ¬ Offers select column.name.value node) :
      GetsOwner select nodes column column

/-- Whether a bare column is declared by two nodes in FROM. -/
def Contested (select : Select) (nodes : List Node) (column : Column) : Prop :=
  column.isQualified = false ∧ ∃ first ∈ nodes, ∃ second ∈ nodes, first ≠ second ∧
    Offers select column.name.value first ∧ Offers select column.name.value second

/-- A column without its table. -/
def withoutTable (column : Column) : Column :=
  { column with table := none }

section

variable {select after : Select} {nodes : List Node} {column changed : Column}

/-- The owner that a node is for a column, if it offers it. -/
theorem owner_eq_some_iff {node : Node} {name : String} {owner : Name} (member : node ∈ nodes) :
    (if node.hasColumn name then (NodeNames.ofSelect select nodes).get? node.name else none) =
        some owner ↔
      node.hasColumn name = true ∧ reference? select node.name = some owner := by
  rw [NodeNames.get?_ofSelect_of_mem member]
  split
  next declares => simp [declares]
  next missing => simp [missing]

theorem owner_eq_none_iff {node : Node} {name : String} (member : node ∈ nodes) :
    (if node.hasColumn name then (NodeNames.ofSelect select nodes).get? node.name else none) =
        none ↔ ¬ Offers select name node := by
  rw [Option.eq_none_iff_forall_ne_some, Offers, Option.isSome_iff_exists]
  constructor
  · rintro none ⟨declares, owner, refers⟩
    exact none owner ((owner_eq_some_iff member).2 ⟨declares, refers⟩)
  · intro missing owner found
    obtain ⟨declares, refers⟩ := (owner_eq_some_iff member).1 found
    exact missing ⟨declares, owner, refers⟩

/-- A column has no owner, one, or several, as no node, one, or several offer it. -/
theorem owners_cases (select : Select) (distinct : nodes.Nodup) (name : String) :
    (owners (NodeNames.ofSelect select nodes) nodes name = [] ∧
        ∀ node ∈ nodes, ¬ Offers select name node) ∨
      (∃ node ∈ nodes, ∃ owner, owners (NodeNames.ofSelect select nodes) nodes name = [owner] ∧
        node.hasColumn name = true ∧ reference? select node.name = some owner ∧
        ∀ other ∈ nodes, Offers select name other → other = node) ∨
      (∃ owner another rest,
        owners (NodeNames.ofSelect select nodes) nodes name = owner :: another :: rest ∧
        ∃ first ∈ nodes, ∃ second ∈ nodes, first ≠ second ∧ Offers select name first ∧
          Offers select name second) := by
  cases found : owners (NodeNames.ofSelect select nodes) nodes name with
  | nil =>
      refine .inl ⟨rfl, fun node member => (owner_eq_none_iff member).1 ?_⟩
      exact List.filterMap_eq_nil_iff.1 found node member
  | cons owner others =>
      obtain ⟨front, node, back, split, before, here, later⟩ := List.filterMap_eq_cons_iff.1 found
      have member : node ∈ nodes := by simp [split]
      obtain ⟨declares, refers⟩ := (owner_eq_some_iff member).1 here
      cases others with
      | nil =>
          refine .inr (.inl ⟨node, member, owner, rfl, declares, refers, fun other among offers => ?_⟩)
          by_contra differs
          refine (owner_eq_none_iff among).1 ?_ offers
          rw [split, List.mem_append, List.mem_cons] at among
          rcases among with inFront | same | inBack
          · exact before other inFront
          · exact (differs same).elim
          · exact List.filterMap_eq_nil_iff.1 later other inBack
      | cons another rest =>
          obtain ⟨middle, second, last, again, -, there, -⟩ := List.filterMap_eq_cons_iff.1 later
          have among : second ∈ nodes := by simp [split, again]
          obtain ⟨alsoDeclares, alsoRefers⟩ := (owner_eq_some_iff among).1 there
          refine .inr (.inr ⟨owner, another, rest, rfl, node, member, second, among, ?_,
            ⟨declares, Option.isSome_of_eq_some refers⟩,
            ⟨alsoDeclares, Option.isSome_of_eq_some alsoRefers⟩⟩)
          rintro rfl
          rw [split, again, List.nodup_append] at distinct
          simp at distinct

/-- A column is given what `GetsOwner` says and nothing else. -/
theorem qualifyColumn_eq_ok_iff (distinct : nodes.Nodup) :
    qualifyColumn (NodeNames.ofSelect select nodes) nodes column = .ok changed ↔
      GetsOwner select nodes column changed := by
  rw [qualifyColumn]
  split
  next known =>
    constructor
    · rintro ⟨⟩
      exact .qualified known
    · rintro (_ | ⟨bare⟩ | ⟨bare⟩)
      · rfl
      · simp [known] at bare
      · rfl
  next unknown =>
    have bare : column.isQualified = false := by simpa using unknown
    rcases owners_cases select distinct column.name.value with
      ⟨listed, none⟩ | ⟨node, member, owner, listed, declares, refers, only⟩ |
        ⟨owner, another, rest, listed, first, isFirst, second, isSecond, differ, offers, alsoOffers⟩
    · rw [listed]
      constructor
      · rintro ⟨⟩
        exact .free bare none
      · rintro (known | ⟨-, member, declares, refers, -⟩ | _)
        · exact (unknown known).elim
        · exact (none _ member ⟨declares, Option.isSome_of_eq_some refers⟩).elim
        · rfl
    · rw [listed]
      have given : column.addTable { name := owner } =
          { column with table := some { name := owner } } := if_neg unknown
      constructor
      · rintro ⟨⟩
        rw [given]
        exact .owned bare member declares refers only
      · rintro (known | ⟨-, isOther, otherDeclares, otherRefers, -⟩ | ⟨-, none⟩)
        · exact (unknown known).elim
        · cases only _ isOther ⟨otherDeclares, Option.isSome_of_eq_some otherRefers⟩
          cases refers.symm.trans otherRefers
          exact congrArg Except.ok given
        · exact (none node member ⟨declares, Option.isSome_of_eq_some refers⟩).elim
    · rw [listed]
      constructor
      · rintro ⟨⟩
      · rintro (known | ⟨-, -, -, -, only⟩ | ⟨-, none⟩)
        · exact (unknown known).elim
        · exact (differ ((only first isFirst offers).trans
            (only second isSecond alsoOffers).symm)).elim
        · exact (none first isFirst offers).elim

/-- A column that gets no owner is contested, and one that is contested gets none. -/
theorem qualifyColumn_eq_error_iff (distinct : nodes.Nodup) {failure : Error} :
    qualifyColumn (NodeNames.ofSelect select nodes) nodes column = .error failure ↔
      Contested select nodes column ∧ failure = .ambiguousColumn column.name.value := by
  rw [qualifyColumn, Contested]
  split
  next known => simp [known]
  next unknown =>
    have bare : column.isQualified = false := by simpa using unknown
    rcases owners_cases select distinct column.name.value with
      ⟨listed, none⟩ | ⟨node, member, owner, listed, declares, refers, only⟩ |
        ⟨owner, another, rest, listed, both⟩
    · rw [listed]
      constructor
      · rintro ⟨⟩
      · rintro ⟨⟨-, first, isFirst, -, -, -, offers, -⟩, -⟩
        exact (none first isFirst offers).elim
    · rw [listed]
      constructor
      · rintro ⟨⟩
      · rintro ⟨⟨-, first, isFirst, second, isSecond, differ, offers, alsoOffers⟩, -⟩
        exact (differ ((only first isFirst offers).trans
          (only second isSecond alsoOffers).symm)).elim
    · rw [listed]
      constructor
      · rintro ⟨⟩
        exact ⟨⟨bare, both⟩, rfl⟩
      · rintro ⟨-, rfl⟩
        rfl

/-! ## A SELECT with owners -/

/-- Owners are given just as `GetsOwner` says, column by column, and nothing else is changed. -/
theorem qualifyColumns_eq_ok_iff (distinct : nodes.Nodup) :
    qualifyColumns select nodes = .ok after ↔ select.Alike (GetsOwner select nodes) after := by
  have gives : Gives (qualifyColumn (NodeNames.ofSelect select nodes) nodes) =
      GetsOwner select nodes := by
    funext column changed
    exact propext (qualifyColumn_eq_ok_iff distinct)
  rw [← gives]
  exact Select.walk_eq_ok_iff

/-- Giving owners fails for a contested column and for nothing else. -/
theorem contested_of_qualifyColumns (distinct : nodes.Nodup) {failure : Error}
    (failed : qualifyColumns select nodes = .error failure) :
    ∃ column ∈ select.columns, Contested select nodes column ∧
      failure = .ambiguousColumn column.name.value := by
  have fails : (qualifyColumns select nodes).FailsWith fun failure =>
      ∃ column ∈ select.columns, Contested select nodes column ∧
        failure = .ambiguousColumn column.name.value :=
    qualifyColumns_failsWith fun column member failure failed =>
      ⟨column, member, (qualifyColumn_eq_error_iff distinct).1 failed⟩
  exact fails failure failed

/-- No owners are given where a column is contested. -/
theorem not_contested_of_qualifyColumns (distinct : nodes.Nodup)
    (done : qualifyColumns select nodes = .ok after) :
    ∀ column ∈ select.columns, ¬ Contested select nodes column := by
  intro column member contested
  have failed := (qualifyColumn_eq_error_iff distinct).2 ⟨contested, rfl⟩
  obtain ⟨changed, -, given⟩ :=
    Result.exists_result_of_forall₂ (columns_of_qualifyColumns done) member
  cases failed.symm.trans given

/-- A column keeps its name and its path. -/
theorem GetsOwner.withoutTable_eq (gets : GetsOwner select nodes column changed) :
    withoutTable column = withoutTable changed := by
  cases gets <;> rfl

/-- A column that got its owner, or got none, gets the same once more. -/
theorem GetsOwner.again (gets : GetsOwner select nodes column changed)
    (same : after.relations = select.relations) : GetsOwner after nodes changed changed := by
  have refers : reference? after = reference? select := by
    funext node
    rw [reference?, reference?, same]
  cases gets with
  | qualified known => exact .qualified known
  | owned => exact .qualified rfl
  | free bare none =>
      refine .free bare fun node member offers => none node member ?_
      rwa [Offers, refers] at offers

/-- Giving owners to the columns of a SELECT gives each bare column of a node the name by which FROM
refers to the node, if no other node in FROM declares the column, and changes nothing else: without
their owners the columns are those that were written. Nodes go by their references in FROM, before
and after. Once given, owners are given again. It fails just if two nodes in FROM declare a bare
column, and with nothing but the name of such a column. -/
theorem bare_columns_get_their_owner (select : Select) {nodes : List Node}
    (distinct : nodes.Nodup) :
    (∀ after, qualifyColumns select nodes = .ok after ↔
      select.Alike (GetsOwner select nodes) after) ∧
    (∀ after, qualifyColumns select nodes = .ok after →
      ((∀ column ∈ select.columns, column.table = none) →
        after.mapColumns withoutTable = select) ∧
      NodeNames.ofSelect after nodes = NodeNames.ofSelect select nodes ∧
      qualifyColumns after nodes = .ok after) ∧
    (∀ node, (NodeNames.ofSelect select nodes).get? node =
      if nodes.any fun other => other.name == node then reference? select node else none) ∧
    ((∃ name, qualifyColumns select nodes = .error (.ambiguousColumn name)) ↔
      ∃ column ∈ select.columns, Contested select nodes column) ∧
    ∀ failure, qualifyColumns select nodes = .error failure →
      ∃ column ∈ select.columns, Contested select nodes column ∧
        failure = .ambiguousColumn column.name.value := by
  refine ⟨fun after => qualifyColumns_eq_ok_iff distinct, fun after done => ⟨?_, ?_, ?_⟩,
    NodeNames.get?_ofSelect select nodes, ⟨?_, ?_⟩, fun failure =>
      contested_of_qualifyColumns distinct⟩
  · intro bare
    have alike := (qualifyColumns_eq_ok_iff distinct).1 done
    rw [← alike.mapColumns_eq fun _ _ gets => gets.withoutTable_eq]
    have itself : select.Alike (fun c d => withoutTable d = c) select :=
      .refl select fun column member => by rw [withoutTable, ← bare column member]
    exact itself.mapColumns_eq_self fun _ _ back => back
  · exact NodeNames.ofSelect_congr (relations_of_qualifyColumns done)
  · have same := relations_of_qualifyColumns done
    refine (qualifyColumns_eq_ok_iff distinct).2 (.refl after fun changed member => ?_)
    obtain ⟨column, -, given⟩ :=
      Result.exists_of_forall₂ (columns_of_qualifyColumns done) member
    exact ((qualifyColumn_eq_ok_iff distinct).1 given).again same
  · rintro ⟨name, failed⟩
    obtain ⟨column, member, contested, -⟩ := contested_of_qualifyColumns distinct failed
    exact ⟨column, member, contested⟩
  · rintro ⟨column, member, contested⟩
    cases done : qualifyColumns select nodes with
    | ok after => exact (not_contested_of_qualifyColumns distinct done column member contested).elim
    | error failure =>
        obtain ⟨other, -, -, rfl⟩ := contested_of_qualifyColumns distinct done
        exact ⟨_, rfl⟩

end

/-- Payments and who made them; both have an `id`. -/
def paymentNodes : List Node :=
  [{ name := "payments", kind := .source, tables := [{ database := 1, table := "payments" }]
     columns := [{ name := "id" }, { name := "payer" }, { name := "amount" }] },
   { name := "customers", kind := .source, tables := [{ database := 1, table := "customers" }]
     columns := [{ name := "id" }, { name := "country" }] }]

/-- The amounts by country. -/
def amountsByCountry : Select :=
  { projection := [.col "country", .sum (.col "amount")]
    sources := some
      [{ primary := .table { name := { value := "payments" }, aliasName := some { value := "p" } }
         joins :=
          [{ kind := .inner, relation := .table { name := { value := "customers" } }
             on := some (.binary (.col "payer") .eq (.tableCol "customers" "id")) }] }]
    groupBy := [.col "country"] }

/-- The same with a column of both. -/
def idsByCountry : Select :=
  { amountsByCountry with projection := [.sum (.col "id")] }

/-- The amounts by country get their owners, and the sums of `id` do not. -/
theorem bare_columns_get_their_owner_paymentNodes :
    paymentNodes.Nodup ∧
      (∃ after, qualifyColumns amountsByCountry paymentNodes = .ok after ∧
        after.columns.map Column.fullName =
          ["customers.country", "p.amount", "customers.country", "p.payer", "customers.id"] ∧
        NodeNames.ofSelect after paymentNodes =
          NodeNames.ofSelect amountsByCountry paymentNodes ∧
        qualifyColumns after paymentNodes = .ok after) ∧
      ∃ name, qualifyColumns idsByCountry paymentNodes = .error (.ambiguousColumn name) := by
  have distinct : paymentNodes.Nodup := by decide
  refine ⟨distinct, ?_, ?_⟩
  · obtain ⟨after, done⟩ := Result.exists_eq_ok
      (by decide +kernel : (qualifyColumns amountsByCountry paymentNodes).toOption.isSome)
    have columns : (qualifyColumns amountsByCountry paymentNodes).toOption.map
        (fun select => select.columns.map Column.fullName) = some
          ["customers.country", "p.amount", "customers.country", "p.payer", "customers.id"] := by
      decide +kernel
    rw [done] at columns
    obtain ⟨-, kept, -⟩ := bare_columns_get_their_owner amountsByCountry distinct
    obtain ⟨-, names, again⟩ := kept after done
    exact ⟨after, done, Option.some.inj columns, names, again⟩
  · obtain ⟨-, -, -, fails, -⟩ := bare_columns_get_their_owner idsByCountry distinct
    refine fails.2 ⟨{ name := { value := "id" } }, List.mem_cons_self, rfl, paymentNodes[0],
      by decide, paymentNodes[1], by decide, by decide, ?_, ?_⟩ <;> exact ⟨by decide, by decide⟩

end SemanticLayer.Planner
