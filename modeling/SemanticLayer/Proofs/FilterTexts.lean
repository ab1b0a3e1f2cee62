import SemanticLayer.Proofs.NumberLiterals

/-!
# Texts of filters

A filter reads back as the name, the comparison and the literal that it was written with. Nothing
that a literal is written with starts with an equals sign, so the longest comparison is the one that
was meant, and what stands in quotation marks is text whatever else it looks like.
-/

namespace SemanticLayer

open Number

/-! ## Blanks at the ends -/

namespace Text

/-- Trimming leaves what neither starts nor ends with a blank. -/
theorem trim_blanks {before chars after : List Char} (front : ∀ c ∈ before, isBlank c = true)
    (back : ∀ c ∈ after, isBlank c = true) (first : ∀ c ∈ chars.head?, isBlank c = false)
    (last : ∀ c ∈ chars.getLast?, isBlank c = false) (nonempty : chars ≠ []) :
    trim (before ++ (chars ++ after)) = chars := by
  have start : ∀ c ∈ (chars ++ after).head?, isBlank c = false := by
    intro c found
    rw [List.head?_append_of_ne_nil _ nonempty] at found
    exact first c found
  rw [trim, dropWhile_of_stops front start, List.reverse_append, dropWhile_of_stops,
    List.reverse_reverse]
  · intro c found
    exact back c (List.mem_reverse.1 found)
  · intro c found
    rw [List.head?_reverse] at found
    exact last c found

theorem isBlank_toLower (c : Char) : isBlank c.toLower = isBlank c := by
  by_cases ascii : c.toNat < 0x80
  · have all : ∀ n : Fin 0x80, isBlank (Char.ofNat n).toLower = isBlank (Char.ofNat n) := by decide
    have same := all ⟨c.toNat, ascii⟩
    rwa [Char.ofNat_toNat] at same
  · have kept : c.toLower = c := by
      refine dif_neg ?_
      rintro ⟨-, high⟩
      have bound : c.toNat ≤ 90 := high
      omega
    rw [kept]

end Text

namespace Planner

open Sql (Literal)

/-! ## Written literals -/

/-- How a literal is written in a filter: numbers in decimal, words in any case of letters, and text
in quotation marks of a kind that it does not hold. -/
inductive Writes : Literal → List Char → Prop where
  | int (n : Int64) : Writes (.int n) (intText n.toInt).toList
  | float {x : Binary64} (finite : x.isFinite = true) : Writes (.float x) x.text.toList
  | bool {value : Bool} {chars : List Char}
      (word : chars.map Char.toLower = (if value then "true" else "false").toList) :
      Writes (.bool value) chars
  | null {chars : List Char}
      (word : chars.map Char.toLower = "null".toList ∨ chars.map Char.toLower = "none".toList) :
      Writes .null chars
  | string {value : String} {quote : Char} (mark : quote = '\'' ∨ quote = '"')
      (absent : quote ∉ value.toList) (line : '\n' ∉ value.toList) :
      Writes (.string value) (quote :: (value.toList ++ [quote]))

namespace Writes

variable {value : Literal} {chars : List Char}

theorem visible_of_isNumberChar {c : Char} (number : Filter.isNumberChar c = true) :
    Text.isBlank c = false ∧ c ≠ '=' := by
  have all : ∀ n : Fin 0x80, Filter.isNumberChar (Char.ofNat n) = true →
      Text.isBlank (Char.ofNat n) = false ∧ Char.ofNat n ≠ '=' := by decide
  have small := Filter.toNat_of_isNumberChar number
  have visible := all ⟨c.toNat, small⟩
  rw [Char.ofNat_toNat] at visible
  exact visible number

theorem visible_of_map_toLower {word : String}
    (visible : (word.toList.all fun c => !Text.isBlank c && c != '=') = true)
    (same : chars.map Char.toLower = word.toList) :
    ∀ c ∈ chars, Text.isBlank c = false ∧ c ≠ '=' := by
  intro c found
  have lowered := List.all_eq_true.1 visible c.toLower (same ▸ List.mem_map_of_mem found)
  obtain ⟨blank, equals⟩ : Text.isBlank c = false ∧ c.toLower ≠ '=' := by
    simpa [Text.isBlank_toLower] using lowered
  refine ⟨blank, ?_⟩
  rintro rfl
  exact equals rfl

theorem visible_of_ofText? {d : Decimal} (read : Decimal.ofText? chars = some d) :
    chars ≠ [] ∧ ∀ c ∈ chars, Text.isBlank c = false ∧ c ≠ '=' := by
  have numbers := Decimal.all_isNumberChar_of_ofText? read
  refine ⟨?_, fun c found => visible_of_isNumberChar (List.all_eq_true.1 numbers c found)⟩
  rintro rfl
  cases read

theorem ends_of_visible (nonempty : chars ≠ [])
    (visible : ∀ c ∈ chars, Text.isBlank c = false ∧ c ≠ '=') :
    chars ≠ [] ∧ '\n' ∉ chars ∧ (∀ c ∈ chars.head?, Text.isBlank c = false ∧ c ≠ '=') ∧
      ∀ c ∈ chars.getLast?, Text.isBlank c = false := by
  refine ⟨nonempty, fun found => ?_, fun c found => visible c (List.mem_of_mem_head? found),
    fun c found => (visible c (List.mem_of_mem_getLast? found)).1⟩
  have blank : Text.isBlank '\n' = true := by decide
  exact absurd ((visible _ found).1.symm.trans blank) Bool.false_ne_true

/-- A written literal is one line that neither starts nor ends with a blank, and does not start with
an equals sign. -/
theorem ends (writes : Writes value chars) :
    chars ≠ [] ∧ '\n' ∉ chars ∧ (∀ c ∈ chars.head?, Text.isBlank c = false ∧ c ≠ '=') ∧
      ∀ c ∈ chars.getLast?, Text.isBlank c = false := by
  cases writes with
  | int n =>
      obtain ⟨d, read, -⟩ := Decimal.ofText?_of_integer? (integer?_intText n.toInt)
      obtain ⟨nonempty, visible⟩ := visible_of_ofText? read
      exact ends_of_visible nonempty visible
  | float finite =>
      obtain ⟨d, read, -⟩ := Binary64.ofText?_text finite
      obtain ⟨nonempty, visible⟩ := visible_of_ofText? read
      exact ends_of_visible nonempty visible
  | @bool value chars word =>
      refine ends_of_visible ?_ (visible_of_map_toLower ?_ word)
      · rintro rfl
        cases value <;> cases word
      · cases value <;> decide
  | null word =>
      rcases word with word | word
      all_goals
        refine ends_of_visible ?_ (visible_of_map_toLower (by decide) word)
        rintro rfl
        cases word
  | @string value quote mark absent line =>
      have visible : Text.isBlank quote = false ∧ quote ≠ '=' ∧ quote ≠ '\n' := by
        rcases mark with rfl | rfl <;> decide
      refine ⟨List.cons_ne_nil _ _, ?_, ?_, ?_⟩
      · simp [line, visible.2.2.symm]
      · simpa using ⟨visible.1, visible.2.1⟩
      · rw [← List.cons_append, List.getLast?_concat]
        simpa using visible.1

theorem unquote?_of_word {word : String} {quote : Char}
    (same : chars.map Char.toLower = word.toList) (absent : quote ∉ word.toList)
    (kept : quote.toLower = quote) : Filter.unquote? quote chars = none := by
  cases chars with
  | nil => rfl
  | cons c rest =>
      rw [Filter.unquote?, if_neg]
      rintro ⟨rfl, -⟩
      refine absent ?_
      rw [← same, List.map_cons, kept]
      exact .head _

/-- A known word in a filter is what it names, in any case of letters. -/
theorem literal_of_word {raw word : String}
    (same : (Text.trim raw.toList).map Char.toLower = word.toList)
    (known : word ∈ ["true", "false", "null", "none"]) :
    Filter.literal raw = .ok
      (if word = "true" then .bool true else if word = "false" then .bool false else .null) := by
  have unquoted : ∀ word ∈ ["true", "false", "null", "none"],
      '\'' ∉ word.toList ∧ '"' ∉ word.toList := by decide
  have quotes := unquoted word known
  have lower : Text.asciiLower (String.ofList (Text.trim raw.toList)) = word := by
    rw [Text.asciiLower, String.toList_ofList, same, String.ofList_toList]
  rw [Filter.literal, unquote?_of_word same quotes.1 rfl, unquote?_of_word same quotes.2 rfl, lower]
  simp only [List.mem_cons, List.not_mem_nil, or_false] at known
  rcases known with rfl | rfl | rfl | rfl <;> rfl

/-- A written literal is read as the literal, with whatever blanks around it. -/
theorem literal_eq (writes : Writes value chars) {raw : String}
    (trimmed : Text.trim raw.toList = chars) : Filter.literal raw = .ok value := by
  cases writes with
  | int n =>
      obtain ⟨d, read, -⟩ := Decimal.ofText?_of_integer? (integer?_intText n.toInt)
      rw [← trimmed] at read
      rw [Filter.literal_of_decimal read, trimmed,
        int64?_eq_some_iff.2 (integer?_intText n.toInt), Option.elim_some]
  | float finite =>
      obtain ⟨d, read, again⟩ := Binary64.ofText?_text finite
      rw [← trimmed] at read
      rw [Filter.literal_of_decimal read, trimmed, Binary64.int64?_text finite, Option.elim_none,
        again, if_pos finite]
  | @bool value chars word =>
      rw [← trimmed] at word
      rw [literal_of_word word (by cases value <;> decide)]
      cases value <;> rfl
  | null word =>
      rw [← trimmed] at word
      rcases word with word | word <;>
      · rw [literal_of_word word (by decide)]
        rfl
  | @string value quote mark absent line =>
      have inner : Filter.unquote? quote (quote :: (value.toList ++ [quote])) = some value := by
        rw [Filter.unquote?, List.dropLast_concat, List.getLast?_concat, if_pos ⟨rfl, rfl, absent⟩,
          String.ofList_toList]
      rw [Filter.literal, trimmed]
      rcases mark with rfl | rfl
      · rw [inner]
        rfl
      · rw [inner, Filter.unquote?, if_neg (by simp)]
        rfl

end Writes

/-! ## Filters -/

namespace Filter

/-- The longest comparison is taken: what stands behind it starts with no equals sign. -/
theorem splitOperator?_text (op : FilterOp) {body : List Char} (nonempty : body ≠ [])
    (line : '\n' ∉ body) (longest : ∀ c ∈ body.head?, c ≠ '=') :
    splitOperator? (op.text.toList ++ body) = some (op, body) := by
  obtain ⟨c, rest, rfl⟩ := List.exists_cons_of_ne_nil nonempty
  have other : ¬ '=' = c := fun same => longest c rfl same.symm
  cases op <;> simp [splitOperator?, FilterOp.longestFirst, FilterOp.text, dropStart?, other, line]

/-- Blanks in front of a literal change nothing. -/
theorem splitOperator?_body (op : FilterOp) {before chars after : List Char} (some : chars ≠ [])
    (line : '\n' ∉ chars) (first : ∀ c ∈ chars.head?, c ≠ '=')
    (front : ∀ c ∈ before, Text.isBlank c = true ∧ c ≠ '\n')
    (back : ∀ c ∈ after, Text.isBlank c = true ∧ c ≠ '\n') :
    splitOperator? (op.text.toList ++ (before ++ (chars ++ after))) =
      .some (op, before ++ (chars ++ after)) := by
  refine splitOperator?_text op (by simp [some]) ?_ ?_
  · simp only [List.mem_append, not_or]
    exact ⟨fun found => (front _ found).2 rfl, line, fun found => (back _ found).2 rfl⟩
  · intro c found
    cases before with
    | nil =>
        rw [List.nil_append, List.head?_append_of_ne_nil _ some] at found
        exact first c found
    | cons d others =>
        obtain rfl : d = c := by simpa using found
        have blank := (front d (.head _)).1
        rintro rfl
        exact absurd blank (by decide)

/-- A name is read up to the comparison. -/
theorem span_name {name : String} (characters : ∀ c ∈ name.toList, isNameChar c = true)
    (op : FilterOp) (body : List Char) :
    (name.toList ++ (op.text.toList ++ body)).takeWhile isNameChar = name.toList ∧
      (name.toList ++ (op.text.toList ++ body)).dropWhile isNameChar = op.text.toList ++ body := by
  have stops : ∀ c ∈ (op.text.toList ++ body).head?, isNameChar c = false := by
    cases op <;> simp [FilterOp.text] <;> decide
  exact ⟨Text.takeWhile_of_stops characters stops, Text.dropWhile_of_stops characters stops⟩

end Filter

/-- A filter is read as the name, the comparison and the literal that it is written with, whatever
blanks stand around the literal. -/
theorem filters_are_read_as_written {name : String} (nonempty : name ≠ "")
    (characters : ∀ c ∈ name.toList, Filter.isNameChar c = true) (op : FilterOp)
    {value : Literal} {chars : List Char} (writes : Writes value chars) {before after : String}
    (blanks : ∀ c ∈ before.toList ++ after.toList, Text.isBlank c = true ∧ c ≠ '\n') :
    Filter.ofText (name ++ op.text ++ before ++ String.ofList chars ++ after) =
      .ok ⟨name, op, value⟩ := by
  obtain ⟨some, line, first, last⟩ := writes.ends
  have front : ∀ c ∈ before.toList, Text.isBlank c = true ∧ c ≠ '\n' := fun c found =>
    blanks c (List.mem_append_left _ found)
  have back : ∀ c ∈ after.toList, Text.isBlank c = true ∧ c ≠ '\n' := fun c found =>
    blanks c (List.mem_append_right _ found)
  have split := Filter.splitOperator?_body op some line (fun c found => (first c found).2) front
    back
  have trimmed : Text.trim (String.ofList (before.toList ++ (chars ++ after.toList))).toList =
      chars := by
    rw [String.toList_ofList]
    exact Text.trim_blanks (fun c found => (front c found).1) (fun c found => (back c found).1)
      (fun c found => (first c found).1) last some
  have whole : (name ++ op.text ++ before ++ String.ofList chars ++ after).toList =
      name.toList ++ (op.text.toList ++ (before.toList ++ (chars ++ after.toList))) := by
    simp
  obtain ⟨taken, dropped⟩ := Filter.span_name characters op
    (before.toList ++ (chars ++ after.toList))
  have named : name.toList ≠ [] := fun empty => nonempty (String.toList_eq_nil_iff.1 empty)
  rw [Filter.ofText, whole, taken, dropped, if_neg named, split]
  dsimp only
  rw [writes.literal_eq trimmed, String.ofList_toList]
  rfl

/-- A filter for text that looks like a comparison and a number, with blanks around it. -/
theorem filters_are_read_as_written_quoted :
    Filter.ofText ("core.users/name" ++ FilterOp.gte.text ++ " " ++
        String.ofList ('"' :: ("<= '1'".toList ++ ['"'])) ++ "  ") =
      .ok ⟨"core.users/name", .gte, .string "<= '1'"⟩ :=
  filters_are_read_as_written (by decide) (List.all_eq_true.1 (by decide)) .gte
    (.string (.inr rfl) (by decide) (by decide)) (by simp [show Text.isBlank ' ' = true by decide])

end Planner

end SemanticLayer
