import SemanticLayer.Proofs.Factors
import SemanticLayer.Proofs.Qualifiers

/-!
# Bare columns are told

A column that stands without a qualifier in a SELECT, outside of subqueries, stands as a lone
identifier in the document of the text that the SELECT was read from, whichever clause it stands in
and however deep. So a search of that document for lone identifiers meets every such column. No
column that is read is one of a table; its qualifier is a path.
-/

namespace SemanticLayer

namespace Document

variable {key : String} {found : Document}

theorem mem_values_of_field {fields : Fields} {field : String × Document} (member : field ∈ fields)
    (inside : found ∈ values key none field.2) : found ∈ values key none (.object fields) := by
  rw [values_object, List.mem_flatMap]
  refine ⟨field, member, ?_⟩
  exact List.mem_append_right _ inside

theorem mem_values_of_item {items : List Document} {item : Document} (member : item ∈ items)
    (inside : found ∈ values key none item) : found ∈ values key none (.array items) := by
  rw [values_array, List.mem_flatMap]
  exact ⟨item, member, inside⟩

/-- The documents at the positions that a search lists. -/
theorem filterMap_at?_find {document : Document} (keyed : Keyed document) (key : String)
    (stop : Option String) :
    (document.find key stop).filterMap document.at? = values key stop document := by
  have places := congrArg (List.filterMap id) (map_at?_find keyed key stop)
  rwa [List.filterMap_map, List.filterMap_map, Function.id_comp, Function.id_comp,
    List.filterMap_some] at places

end Document

namespace Grammar.View

open Document
open Sql (exprOf exprsOf exprOf? callOf argumentsOf argumentOf argumentListOf itemOf itemsOf
  orderingOf orderingsOf sourceOf sourcesOf? joinOf joinsOf conditionOf groupByOf selectOf queryOf
  bodyOf)

/-! ## Documents that show columns -/

/-- Whether columns are as a document tells them: none of them is one of a table, and every one
without a qualifier is a lone identifier of the document. -/
def Shows (document : Document) (columns : List Sql.Column) : Prop :=
  ∀ column ∈ columns, column.table = none ∧
    (column.isQualified = false → name column.name ∈ values "Identifier" none document)

namespace Shows

variable {document : Document} {items : List Document} {columns others : List Sql.Column}

theorem nil : Shows document [] :=
  fun _ member => absurd member List.not_mem_nil

theorem append (first : Shows document columns) (second : Shows document others) :
    Shows document (columns ++ others) := by
  intro column member
  rcases List.mem_append.1 member with here | there
  · exact first column here
  · exact second column there

/-- What a field shows the object shows. -/
theorem field (shows : Shows document columns) (key : String) {fields : Fields}
    (member : (key, document) ∈ fields) : Shows (.object fields) columns :=
  fun column there => (shows column there).imp_right fun told bare =>
    mem_values_of_field member (told bare)

theorem single (shows : Shows document columns) (key : String) :
    Shows (.single key document) columns :=
  shows.field key List.mem_cons_self

theorem node (shows : Shows document columns) (key : String) {fields : Fields}
    (member : (key, document) ∈ fields) {kind : String} :
    Shows (View.node kind fields) columns :=
  (shows.field key member).single kind

/-- What the items show the list shows. -/
theorem cons {first : Document} (here : Shows first columns) (rest : Shows (.array items) others) :
    Shows (.array (first :: items)) (columns ++ others) := by
  refine append (fun column there => ?_) fun column there => ?_
  · exact (here column there).imp_right fun told bare =>
      mem_values_of_item List.mem_cons_self (told bare)
  · refine (rest column there).imp_right fun told bare => ?_
    have inside := told bare
    rw [values_array] at inside ⊢
    exact List.mem_append_right _ inside

end Shows

/-! ## Expressions -/

mutual

theorem shows_expr : (written : Expr) → {made : Sql.Expr} → exprOf written = .ok made →
    Shows (expr written) made.columns
  | .identifier label, _, done => by
      rw [exprOf] at done
      cases done
      intro column member
      cases List.mem_singleton.1 member
      refine ⟨rfl, fun _ => ?_⟩
      rw [expr, Document.single, values_object]
      simp [valuesInField]
  | .compound owner label, _, done => by
      rw [exprOf] at done
      cases done
      intro column member
      cases List.mem_singleton.1 member
      exact ⟨rfl, nofun⟩
  | .value literal, _, done => by
      rw [exprOf] at done
      obtain ⟨_, _, rfl⟩ := Result.map_eq_ok.1 done
      exact .nil
  | .binary left op right, _, done => by
      rw [exprOf] at done
      obtain ⟨_, first, rest⟩ := Result.bind_eq_ok.1 done
      obtain ⟨_, _, rest⟩ := Result.bind_eq_ok.1 rest
      obtain ⟨_, second, last⟩ := Result.bind_eq_ok.1 rest
      cases Result.pure_eq_ok.1 last
      rw [expr]
      exact ((shows_expr left first).node "left" (by simp)).append
        ((shows_expr right second).node "right" (by simp))
  | .pattern op negated any subject template escape, _, done => by
      rw [exprOf.eq_def] at done
      split at done
      any_goals contradiction
      next same =>
        cases same
        obtain ⟨_, first, rest⟩ := Result.bind_eq_ok.1 done
        obtain ⟨_, second, last⟩ := Result.bind_eq_ok.1 rest
        cases Result.pure_eq_ok.1 last
        rw [expr]
        exact ((shows_expr subject first).node "expr" (by simp)).append
          ((shows_expr template second).node "pattern" (by simp))
  | .unary op operand, _, done => by
      rw [exprOf] at done
      obtain ⟨_, _, rest⟩ := Result.bind_eq_ok.1 done
      obtain ⟨_, inner, last⟩ := Result.bind_eq_ok.1 rest
      cases Result.pure_eq_ok.1 last
      rw [expr]
      exact (shows_expr operand inner).node "expr" (by simp)
  | .call called, _, done => by
      rw [exprOf] at done
      rw [expr]
      exact (shows_call called done).single _
  | .case operand conditions results otherwise, _, done => by
      rw [exprOf] at done
      obtain ⟨_, first, rest⟩ := Result.bind_eq_ok.1 done
      obtain ⟨_, second, rest⟩ := Result.bind_eq_ok.1 rest
      obtain ⟨_, third, rest⟩ := Result.bind_eq_ok.1 rest
      obtain ⟨_, fourth, last⟩ := Result.bind_eq_ok.1 rest
      cases Result.pure_eq_ok.1 last
      rw [expr]
      exact ((((shows_expr? operand first).node "operand" (by simp)).append
        ((shows_exprs conditions second).node "conditions" (by simp))).append
          ((shows_exprs results third).node "results" (by simp))).append
            ((shows_expr? otherwise fourth).node "else_result" (by simp))
  | .between subject low high negated, _, done => by
      rw [exprOf] at done
      obtain ⟨_, first, rest⟩ := Result.bind_eq_ok.1 done
      obtain ⟨_, second, rest⟩ := Result.bind_eq_ok.1 rest
      obtain ⟨_, third, last⟩ := Result.bind_eq_ok.1 rest
      cases Result.pure_eq_ok.1 last
      rw [expr]
      exact (((shows_expr subject first).node "expr" (by simp)).append
        ((shows_expr low second).node "low" (by simp))).append
          ((shows_expr high third).node "high" (by simp))
  | .isNull subject, _, done => by
      rw [exprOf] at done
      obtain ⟨_, inner, last⟩ := Result.bind_eq_ok.1 done
      cases Result.pure_eq_ok.1 last
      rw [expr]
      exact (shows_expr subject inner).single _
  | .isNotNull subject, _, done => by
      rw [exprOf] at done
      obtain ⟨_, inner, last⟩ := Result.bind_eq_ok.1 done
      cases Result.pure_eq_ok.1 last
      rw [expr]
      exact (shows_expr subject inner).single _
  | .inList subject items negated, _, done => by
      rw [exprOf] at done
      obtain ⟨_, first, rest⟩ := Result.bind_eq_ok.1 done
      obtain ⟨_, second, last⟩ := Result.bind_eq_ok.1 rest
      cases Result.pure_eq_ok.1 last
      rw [expr]
      exact ((shows_expr subject first).node "expr" (by simp)).append
        ((shows_exprs items second).node "list" (by simp))
  | .nested inner, _, done => by
      rw [exprOf] at done
      obtain ⟨_, inside, rfl⟩ := Result.map_eq_ok.1 done
      rw [expr]
      exact (shows_expr inner inside).single _
  | .subquery query, _, done => by
      rw [exprOf] at done
      obtain ⟨_, _, rfl⟩ := Result.map_eq_ok.1 done
      exact .nil
  | .tuple _, _, done | .test _ _, _, done | .comparison _ _ _, _, done
  | .inSubquery _ _ _, _, done | .exists _ _, _, done | .grouping _ _, _, done
  | .special _ _, _, done => by
      rw [exprOf] at done
      cases done

theorem shows_exprs : (written : List Expr) → {made : List Sql.Expr} → exprsOf written = .ok made →
    Shows (.array (exprs written)) (Sql.Expr.columnsOfList made)
  | [], _, done => by
      rw [exprsOf] at done
      cases done
      exact .nil
  | first :: others, _, done => by
      rw [exprsOf] at done
      obtain ⟨_, here, rest⟩ := Result.bind_eq_ok.1 done
      obtain ⟨_, there, last⟩ := Result.bind_eq_ok.1 rest
      cases Result.pure_eq_ok.1 last
      rw [exprs]
      exact (shows_expr first here).cons (shows_exprs others there)

theorem shows_expr? : (written : Option Expr) → {made : Option Sql.Expr} →
    exprOf? written = .ok made → Shows (expr? written) (Sql.Expr.columnsOfOption made)
  | none, _, done => by
      rw [exprOf?] at done
      cases done
      exact .nil
  | some found, _, done => by
      rw [exprOf?] at done
      obtain ⟨_, inside, rfl⟩ := Result.map_eq_ok.1 done
      rw [expr?]
      exact shows_expr found inside

theorem shows_call : (written : Call) → {made : Sql.Expr} → callOf written = .ok made →
    Shows (call written) made.columns
  | ⟨called, parameters, given, withinGroup, filter, treatment, window⟩, _, done => by
      rw [callOf] at done
      split at done
      · cases done
      · obtain ⟨⟨_, _⟩, inside, last⟩ := Result.bind_eq_ok.1 done
        cases Result.pure_eq_ok.1 last
        rw [call]
        exact (shows_callArguments given inside).field "args" (by simp)

theorem shows_callArguments : (written : Option Arguments) → {made : List Sql.Expr × Bool} →
    argumentsOf written = .ok made →
      Shows (callArguments written) (Sql.Expr.columnsOfList made.1)
  | none, _, done => by
      rw [argumentsOf] at done
      cases done
      exact .nil
  | some (.query _), _, done => by
      rw [argumentsOf] at done
      cases done
  | some (.list repeated items orderBy limit bound clauses), _, done => by
      rw [argumentsOf] at done
      obtain ⟨_, inside, last⟩ := Result.bind_eq_ok.1 done
      cases Result.pure_eq_ok.1 last
      rw [callArguments]
      exact (shows_arguments items inside).node "args" (by simp)

theorem shows_argument : (written : Argument) → {made : Sql.Expr} → argumentOf written = .ok made →
    Shows (argument written) made.columns
  | .expr found, _, done => by
      rw [argumentOf] at done
      rw [argument]
      exact ((shows_expr found done).single _).single _
  | .wildcard, _, done | .qualifiedWildcard _, _, done => by
      rw [argumentOf] at done
      cases done
      exact .nil
  | .named _ _, _, done => by
      rw [argumentOf] at done
      cases done

theorem shows_arguments : (written : List Argument) → {made : List Sql.Expr} →
    argumentListOf written = .ok made →
      Shows (.array (arguments written)) (Sql.Expr.columnsOfList made)
  | [], _, done => by
      rw [argumentListOf] at done
      cases done
      exact .nil
  | first :: others, _, done => by
      rw [argumentListOf] at done
      obtain ⟨_, here, rest⟩ := Result.bind_eq_ok.1 done
      obtain ⟨_, there, last⟩ := Result.bind_eq_ok.1 rest
      cases Result.pure_eq_ok.1 last
      rw [arguments]
      exact (shows_argument first here).cons (shows_arguments others there)

end

/-! ## Clauses -/

theorem shows_item {written : SelectItem} {made : Sql.Expr} (done : itemOf written = .ok made) :
    Shows (item written) made.columns := by
  cases written with
  | unnamed found =>
      rw [itemOf] at done
      rw [item]
      exact (shows_expr found done).single _
  | aliased found label =>
      rw [itemOf] at done
      obtain ⟨_, inside, rfl⟩ := Result.map_eq_ok.1 done
      rw [item]
      exact (shows_expr found inside).node "expr" (by simp)
  | wildcard options =>
      rw [itemOf] at done
      cases done
      exact .nil
  | qualifiedWildcard path options =>
      rw [itemOf] at done
      cases done
      exact .nil

theorem shows_items {written : List SelectItem} {made : List Sql.Expr}
    (done : itemsOf written = .ok made) :
    Shows (.array (items written)) (made.flatMap Sql.Expr.columns) := by
  induction written generalizing made with
  | nil =>
      rw [itemsOf] at done
      cases done
      exact .nil
  | cons first others ih =>
      rw [itemsOf] at done
      obtain ⟨_, here, rest⟩ := Result.bind_eq_ok.1 done
      obtain ⟨_, there, last⟩ := Result.bind_eq_ok.1 rest
      cases Result.pure_eq_ok.1 last
      rw [items]
      exact (shows_item here).cons (ih there)

theorem shows_orderings {written : List Ordering} {made : List Sql.Ordering}
    (done : orderingsOf written = .ok made) :
    Shows (.array (orderings written)) ((made.map Sql.Ordering.expr).flatMap Sql.Expr.columns) := by
  induction written generalizing made with
  | nil =>
      rw [orderingsOf] at done
      cases done
      exact .nil
  | cons first others ih =>
      obtain ⟨key, ascending, nullsFirst⟩ := first
      rw [orderingsOf, orderingOf] at done
      obtain ⟨_, here, rest⟩ := Result.bind_eq_ok.1 done
      obtain ⟨_, inside, same⟩ := Result.bind_eq_ok.1 here
      cases Result.pure_eq_ok.1 same
      obtain ⟨_, there, last⟩ := Result.bind_eq_ok.1 rest
      cases Result.pure_eq_ok.1 last
      rw [orderings, ordering]
      exact ((shows_expr key inside).field "expr" (by simp)).cons (ih there)

/-- Where there are entries of ORDER BY, the query shows what they show. -/
theorem shows_order {written : List Ordering} {made : List Sql.Ordering}
    (done : orderingsOf written = .ok made) :
    Shows (if written.isEmpty then .null
      else .object [("exprs", .array (orderings written)), ("interpolate", .null)])
        ((made.map Sql.Ordering.expr).flatMap Sql.Expr.columns) := by
  cases written with
  | nil =>
      rw [orderingsOf] at done
      cases done
      exact .nil
  | cons first others =>
      rw [List.isEmpty_cons, if_neg Bool.false_ne_true]
      exact (shows_orderings done).field "exprs" (by simp)

theorem shows_groupBy {modifiers : List String} {written : Option (List Expr)}
    {made : List Sql.Expr} (done : groupByOf modifiers written = .ok made) :
    Shows (groupBy modifiers written) (made.flatMap Sql.Expr.columns) := by
  cases written with
  | none =>
      rw [groupByOf] at done
      cases done
  | some keys =>
      rw [groupByOf] at done
      split at done
      · have inside := shows_exprs keys done
        rw [Sql.Expr.columnsOfList_eq_flatMap] at inside
        rw [groupBy]
        have beside : Shows (.array [.array (modifiers.map Document.string)]) [] := .nil
        simpa using (inside.cons beside).single "Expressions"
      · cases done

theorem shows_join {written : Join} {made : Sql.Join} (done : joinOf written = .ok made) :
    Shows (join written) (made.on.toList.flatMap Sql.Expr.columns) := by
  obtain ⟨operator, relation, agreed, nearest⟩ := written
  rw [joinOf] at done
  obtain ⟨_, _, rest⟩ := Result.bind_eq_ok.1 done
  obtain ⟨_, condition, rest⟩ := Result.bind_eq_ok.1 rest
  obtain ⟨_, _, last⟩ := Result.bind_eq_ok.1 rest
  cases Result.pure_eq_ok.1 last
  rcases agreed with none | expr | columns | natural
  · rw [conditionOf] at condition
    cases condition
    exact .nil
  · rw [conditionOf] at condition
    obtain ⟨on, inside, rfl⟩ := Result.map_eq_ok.1 condition
    have told := (shows_expr expr inside).single "On"
    have stated : Shows (joinOperator operator true nearest.isSome
        (.single "On" (View.expr expr)) (expr? nearest)) on.columns := by
      rw [joinOperator]
      split
      · exact told.node "constraint" (by simp)
      · rw [Bool.not_true, Bool.and_false, if_neg Bool.false_ne_true]
        exact told.single _
    rw [join, matching, Option.isSome_some, Option.toList_some, List.flatMap_singleton]
    exact stated.field "join_operator" (by simp)
  · rw [conditionOf] at condition
    cases condition
  · rw [conditionOf] at condition
    cases condition

theorem shows_joins {written : List Join} {made : List Sql.Join}
    (done : joinsOf written = .ok made) :
    Shows (.array (joins written)) ((made.filterMap Sql.Join.on).flatMap Sql.Expr.columns) := by
  induction written generalizing made with
  | nil =>
      rw [joinsOf] at done
      cases done
      exact .nil
  | cons first others ih =>
      rw [joinsOf] at done
      obtain ⟨one, here, rest⟩ := Result.bind_eq_ok.1 done
      obtain ⟨_, there, last⟩ := Result.bind_eq_ok.1 rest
      cases Result.pure_eq_ok.1 last
      have told := (shows_join here).cons (ih there)
      rw [joins]
      cases condition : one.on with
      | none =>
          rw [List.filterMap_cons_none condition]
          simpa [condition] using told
      | some on =>
          rw [List.filterMap_cons_some condition]
          simpa [condition] using told

theorem shows_sources {written : List TableWithJoins} {made : Option (List Sql.Source)}
    (done : sourcesOf? written = .ok made) :
    Shows (.array (sources written))
      (((made.getD []).flatMap Sql.Source.conditions).flatMap Sql.Expr.columns) := by
  induction written generalizing made with
  | nil =>
      rw [sourcesOf?] at done
      cases done
      exact .nil
  | cons first others ih =>
      obtain ⟨relation, joined⟩ := first
      rw [sourcesOf?, sourceOf] at done
      obtain ⟨_, here, rest⟩ := Result.bind_eq_ok.1 done
      obtain ⟨_, _, same⟩ := Result.bind_eq_ok.1 here
      obtain ⟨_, inside, same⟩ := Result.bind_eq_ok.1 same
      cases Result.pure_eq_ok.1 same
      obtain ⟨_, there, last⟩ := Result.bind_eq_ok.1 rest
      cases Result.pure_eq_ok.1 last
      rw [sources, source, Option.getD_some, List.flatMap_cons, List.flatMap_append]
      exact ((shows_joins inside).field "joins" (by simp)).cons (ih there)

theorem shows_select {written : Select} {made : Sql.Select} (done : selectOf written = .ok made) :
    made.orderBy = [] ∧ Shows (select written) made.columns := by
  obtain ⟨kept, top, topMarks, projection, target, tables, prewhere, filter, groups, modifiers,
    clusterBy, distributeBy, sortBy, having, windows, qualify⟩ := written
  rw [selectOf] at done
  obtain ⟨_, _, rest⟩ := Result.bind_eq_ok.1 done
  obtain ⟨_, first, rest⟩ := Result.bind_eq_ok.1 rest
  obtain ⟨_, second, rest⟩ := Result.bind_eq_ok.1 rest
  obtain ⟨_, third, rest⟩ := Result.bind_eq_ok.1 rest
  obtain ⟨_, fourth, rest⟩ := Result.bind_eq_ok.1 rest
  obtain ⟨_, fifth, last⟩ := Result.bind_eq_ok.1 rest
  cases Result.pure_eq_ok.1 last
  have restricts := shows_expr? filter fourth
  have restrictsGroups := shows_expr? having fifth
  rw [Sql.Expr.columnsOfOption_eq_flatMap] at restricts restrictsGroups
  refine ⟨rfl, ?_⟩
  rw [select, Sql.Select.columns, Sql.Select.exprs, List.map_nil, List.append_nil]
  simp only [List.flatMap_append]
  exact (((((shows_items first).field "projection" (by simp)).append
    (restricts.field "selection" (by simp))).append
      ((shows_groupBy third).field "group_by" (by simp))).append
        (restrictsGroups.field "having" (by simp))).append
          ((shows_sources second).field "from" (by simp))

/-- The columns of a SELECT with other entries of ORDER BY. -/
theorem mem_columns_of_ordered {select : Sql.Select} {orderBy : List Sql.Ordering}
    {limit offset : Option UInt64} {column : Sql.Column}
    (member : column ∈ ({ select with orderBy, limit, offset } : Sql.Select).columns) :
    column ∈ select.columns ++ (orderBy.map Sql.Ordering.expr).flatMap Sql.Expr.columns := by
  simp only [Sql.Select.columns, Sql.Select.exprs, Sql.Select.conditions, List.flatMap_append,
    List.mem_append] at member ⊢
  tauto

mutual

/-- A query shows every bare column of the SELECT it is read as. -/
theorem shows_query : (written : Query) → {made : Sql.Query} → queryOf written = .ok made →
    Shows (query written) made.select.columns
  | ⟨recursive, named, source, orderBy, limit, limitBy, offset, fetched, locks, format⟩, _,
      done => by
      rw [queryOf] at done
      obtain ⟨_, _, rest⟩ := Result.bind_eq_ok.1 done
      obtain ⟨found, inside, rest⟩ := Result.bind_eq_ok.1 rest
      rw [query]
      cases found with
      | inr inner =>
          cases Result.pure_eq_ok.1 rest
          exact (shows_body source inside).field "body" (by simp)
      | inl selected =>
          obtain ⟨_, ordered, rest⟩ := Result.bind_eq_ok.1 rest
          obtain ⟨_, _, rest⟩ := Result.bind_eq_ok.1 rest
          obtain ⟨_, _, last⟩ := Result.bind_eq_ok.1 rest
          cases Result.pure_eq_ok.1 last
          obtain ⟨unordered, told⟩ := shows_body source inside
          intro column member
          rcases List.mem_append.1 (mem_columns_of_ordered member) with clause | order
          · exact told.field "body" (by simp) column clause
          · exact (shows_order ordered).field "order_by" (by simp) column order

theorem shows_body : (written : Body) → {made : Sql.Select ⊕ Sql.Query} →
    bodyOf written = .ok made →
      made.elim (fun select => select.orderBy = [] ∧ Shows (body written) select.columns)
        fun query => Shows (body written) query.select.columns
  | .select inner, _, done => by
      rw [bodyOf] at done
      obtain ⟨_, inside, rfl⟩ := Result.map_eq_ok.1 done
      obtain ⟨unordered, told⟩ := shows_select inside
      rw [body]
      exact ⟨unordered, told.single _⟩
  | .query inner, _, done => by
      rw [bodyOf] at done
      obtain ⟨_, inside, rfl⟩ := Result.map_eq_ok.1 done
      rw [body]
      exact (shows_query inner inside).single _
  | .combined _ _ _ _, _, done | .values _, _, done | .table _, _, done
  | .change _ _ _ _ _, _, done => by
      rw [bodyOf] at done
      cases done

end

end Grammar.View

namespace Sql

/-- No column of a query that is read from text is one of a table. -/
theorem table_of_ofText {text : String} {dialect : Option Dialect} {query : Query}
    (read : Query.ofText text dialect = .ok query) :
    ∀ column ∈ query.select.columns, column.table = none := by
  obtain ⟨written, _, made⟩ := Result.bind_eq_ok.1 read
  exact fun column member => (Grammar.View.shows_query written made column member).1

end Sql
end SemanticLayer
