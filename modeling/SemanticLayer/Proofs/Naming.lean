import Mathlib.Data.String.Basic
import SemanticLayer.Planner.MetricQuery
import SemanticLayer.Proofs.Outcomes

/-!
# Names in a SELECT

Giving columns their owners leaves the relations of FROM alone, so that nodes go by the names that
were written. Only nodes that were asked for get a name.
-/

namespace SemanticLayer

/-! ## Dotted texts -/

namespace Text

theorem splitLast?_eq_some {mark : Char} {chars before after : List Char}
    (split : splitLast? mark chars = some (before, after)) : chars = before ++ mark :: after := by
  induction chars generalizing before after with
  | nil => cases split
  | cons c rest ih =>
      rw [splitLast?] at split
      split at split
      next front back found =>
        cases split
        rw [ih found]
        rfl
      next =>
        split at split
        next same =>
          cases split
          rw [same]
          rfl
        next => cases split

theorem dotted_pair (first second : String) : dotted [first, second] = first ++ "." ++ second :=
  rfl

/-- The parts around the last dot, with a dot between them, are the text. -/
theorem dotted_of_splitLastDot? {text first second : String}
    (split : splitLastDot? text = some (first, second)) : dotted [first, second] = text := by
  obtain ⟨⟨before, after⟩, found, same⟩ := Option.map_eq_some_iff.1 split
  cases same
  have whole := splitLast?_eq_some found
  rw [dotted_pair, ← String.toList_inj]
  simp [whole]

theorem splitLast?_eq_none {mark : Char} {chars : List Char} (free : mark ∉ chars) :
    splitLast? mark chars = none := by
  induction chars with
  | nil => rfl
  | cons c rest ih =>
      rw [List.mem_cons, not_or] at free
      rw [splitLast?, ih free.2, if_neg fun same => free.1 same.symm]

theorem splitLast?_append {mark : Char} (before : List Char) {after : List Char}
    (free : mark ∉ after) : splitLast? mark (before ++ mark :: after) = some (before, after) := by
  induction before with
  | nil => rw [List.nil_append, splitLast?, splitLast?_eq_none free, if_pos rfl]
  | cons c rest ih => rw [List.cons_append, splitLast?, ih]

theorem toList_dotted_pair (first second : String) :
    (dotted [first, second]).toList = first.toList ++ '.' :: second.toList := by
  simp [dotted_pair]

/-- Two parts are recovered if the second one has no dot. -/
theorem splitLastDot?_dotted {first second : String} (undotted : '.' ∉ second.toList) :
    splitLastDot? (dotted [first, second]) = some (first, second) := by
  rw [splitLastDot?, toList_dotted_pair, splitLast?_append _ undotted]
  simp

/-- Parts without dots are recovered from the text, whatever it was made of. -/
theorem eq_of_dotted_eq {first second other another : String} (undotted : '.' ∉ first.toList)
    (clear : '.' ∉ second.toList) (same : dotted [first, second] = dotted [other, another]) :
    first = other ∧ second = another := by
  have dots : (dotted [other, another]).toList.count '.' = 1 := by
    rw [← same, toList_dotted_pair, List.count_append, List.count_cons_self,
      List.count_eq_zero.2 undotted, List.count_eq_zero.2 clear]
  rw [toList_dotted_pair, List.count_append, List.count_cons_self] at dots
  have recovered : splitLastDot? (dotted [other, another]) = some (other, another) :=
    splitLastDot?_dotted (List.count_eq_zero.1 (by omega))
  rw [← same, splitLastDot?_dotted clear] at recovered
  exact Prod.mk.inj (Option.some.inj recovered)

/-- Two parts with a dot between them can be taken apart, if perhaps at a later dot. -/
theorem isSome_splitLastDot?_dotted (first second : String) :
    (splitLastDot? (dotted [first, second])).isSome := by
  rw [splitLastDot?, toList_dotted_pair, Option.isSome_map]
  induction first.toList with
  | nil =>
      rw [List.nil_append, splitLast?]
      split
      · rfl
      · rw [if_pos rfl]
        rfl
  | cons c rest ih =>
      obtain ⟨parts, found⟩ := Option.isSome_iff_exists.1 ih
      rw [List.cons_append, splitLast?, found]
      rfl

end Text

namespace Catalog

/-- A text that stands behind all others is put at the end. -/
theorem insertSorted_of_forall_lt {text : String} {sorted : List String}
    (last : ∀ other ∈ sorted, other < text) : insertSorted text sorted = sorted ++ [text] := by
  induction sorted with
  | nil => rfl
  | cons first rest ih =>
      have less := last first List.mem_cons_self
      rw [insertSorted, if_neg less.ne', if_neg less.asymm,
        ih fun other member => last other (List.mem_cons_of_mem first member)]
      rfl

/-- Texts in order and without repetitions stay as they are. -/
theorem sortedSet_of_sorted {texts : List String} (sorted : texts.Pairwise (· < ·)) :
    sortedSet texts = texts := by
  have general : ∀ front : List String, (front ++ texts).Pairwise (· < ·) →
      texts.foldl (fun all text => insertSorted text all) front = front ++ texts := by
    clear sorted
    intro front ordered
    induction texts generalizing front with
    | nil => simp
    | cons text rest ih =>
        have before : ∀ other ∈ front, other < text := fun other member =>
          (List.pairwise_append.1 ordered).2.2 other member text List.mem_cons_self
        rw [List.append_cons] at ordered
        rw [List.foldl_cons, insertSorted_of_forall_lt before, ih _ ordered, List.append_assoc]
        rfl
  exact general [] sorted

end Catalog

namespace Sql

variable {change : Expr → Result Expr} {select after : Select}

/-- Changed join conditions leave the relations of an entry alone. -/
theorem Source.relations_of_mapConditionsM {source changed : Source}
    (done : source.mapConditionsM change = .ok changed) : changed.relations = source.relations := by
  obtain ⟨joins, each, last⟩ := Result.bind_eq_ok.1 done
  cases Result.pure_eq_ok.1 last
  have kept := Result.mapM_eq_ok_iff.1 each
  have same : joins.map Join.relation = source.joins.map Join.relation := by
    generalize source.joins = written at kept
    clear each done last
    induction kept with
    | nil => rfl
    | @cons join joined _ _ here _ ih =>
        have relation : joined.relation = join.relation := by
          split at here
          · obtain ⟨_, _, step⟩ := Result.bind_eq_ok.1 here
            cases Result.pure_eq_ok.1 step
            rfl
          · cases Result.pure_eq_ok.1 here
            rfl
        rw [List.map_cons, List.map_cons, relation, ih]
  rw [Source.relations, Source.relations, same]

theorem Select.relations_of_mapConditionsM (done : select.mapConditionsM change = .ok after) :
    after.relations = select.relations := by
  rw [Select.mapConditionsM] at done
  split at done
  next =>
    cases Result.pure_eq_ok.1 done
    rfl
  next sources listed =>
    obtain ⟨changed, each, last⟩ := Result.bind_eq_ok.1 done
    cases Result.pure_eq_ok.1 last
    rw [Select.relations, Select.relations, listed, Option.getD_some, Option.getD_some]
    have kept := Result.mapM_eq_ok_iff.1 each
    clear each done last listed
    induction kept with
    | nil => rfl
    | cons here _ ih =>
        rw [List.flatMap_cons, List.flatMap_cons, Source.relations_of_mapConditionsM here, ih]

theorem Select.sources_of_mapExprsM (done : select.mapExprsM change = .ok after) :
    after.sources = select.sources := by
  obtain ⟨_, _, rest⟩ := Result.bind_eq_ok.1 done
  obtain ⟨_, _, rest⟩ := Result.bind_eq_ok.1 rest
  obtain ⟨_, _, rest⟩ := Result.bind_eq_ok.1 rest
  obtain ⟨_, _, rest⟩ := Result.bind_eq_ok.1 rest
  obtain ⟨_, _, rest⟩ := Result.bind_eq_ok.1 rest
  cases Result.pure_eq_ok.1 rest
  rfl

/-- The relations depend on FROM alone. -/
theorem Select.relations_congr {other : Select} (same : select.sources = other.sources) :
    select.relations = other.relations := by
  rw [Select.relations, Select.relations, same]

end Sql

namespace Planner

open SemanticLayer.Sql
open Catalog (Node)

variable {nodes : List Node} {select other : Select}

/-- Columns get their owners, and relations stay. -/
theorem relations_of_qualifyColumns (done : qualifyColumns select nodes = .ok other) :
    other.relations = select.relations := by
  obtain ⟨middle, exprs, conditions⟩ := Result.bind_eq_ok.1 done
  rw [Select.relations_of_mapConditionsM conditions,
    Select.relations_congr (Select.sources_of_mapExprsM exprs)]

namespace NodeNames

theorem ofSelect_congr (same : select.relations = other.relations) :
    ofSelect select nodes = ofSelect other nodes := by
  rw [ofSelect, ofSelect, same]

/-- Names stand for different nodes, each of them one that was asked for. -/
structure For (nodes : List Node) (names : NodeNames) : Prop where
  distinct : (names.map Prod.fst).Nodup
  known : ∀ entry ∈ names, ∃ node ∈ nodes, node.name = entry.1

theorem For.put {names : NodeNames} (proper : names.For nodes) {node : Node} (member : node ∈ nodes)
    (name : Name) : (names.put node.name name).For nodes := by
  constructor
  · rw [NodeNames.put, List.map_append, List.nodup_append]
    refine ⟨proper.distinct.sublist (List.filter_sublist.map _), by simp, ?_⟩
    intro other before last here same
    obtain ⟨entry, kept, rfl⟩ := List.mem_map.1 before
    have differs : entry.1 ≠ node.name := by simpa using (List.mem_filter.1 kept).2
    rw [List.map_singleton, List.mem_singleton] at here
    exact differs (same.trans here)
  · intro entry there
    rcases List.mem_append.1 there with before | last
    · exact proper.known entry (List.mem_filter.1 before).1
    · cases List.mem_singleton.1 last
      exact ⟨node, member, rfl⟩

theorem for_ofSelect (select : Select) (nodes : List Node) : (ofSelect select nodes).For nodes := by
  have start : NodeNames.For nodes [] := ⟨List.nodup_nil, by simp⟩
  rw [ofSelect]
  generalize ([] : NodeNames) = names at start ⊢
  induction select.relations generalizing names with
  | nil => exact start
  | cons relation rest ih =>
      apply ih
      cases relation with
      | derived query aliasName => exact start
      | table table =>
          rw [addRelation]
          split
          next node found => exact start.put (List.mem_of_find?_eq_some found) _
          next => exact start

/-- A node that was not asked for goes by its own name. -/
theorem For.nameOf_of_not_mem {names : NodeNames} (proper : names.For nodes) {name : String}
    (absent : ∀ node ∈ nodes, node.name ≠ name) : names.nameOf name = { value := name } := by
  have none : names.find? (fun entry => entry.1 == name) = none := by
    rw [List.find?_eq_none]
    intro entry member same
    obtain ⟨node, there, called⟩ := proper.known entry member
    exact absent node there (called.trans (beq_iff_eq.1 same))
  rw [nameOf, get?, none]
  rfl

/-- A node with a name is found by it. -/
theorem get?_of_mem {names : NodeNames} {entry : String × Name} (member : entry ∈ names) :
    (names.get? entry.1).isSome := by
  rw [get?, Option.isSome_map, List.find?_isSome]
  exact ⟨entry, member, by simp⟩

end NodeNames
end Planner
end SemanticLayer
