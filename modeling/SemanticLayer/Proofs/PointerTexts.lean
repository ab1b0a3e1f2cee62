import SemanticLayer.Document.Pointer
import SemanticLayer.Proofs.Positions

/-!
# Pointers as texts

The tilde and the slash of a step are escaped, so that a slash in the text of a pointer stands in
front of a step. Steps that are written behind the text of any pointer are read back as they are,
and lead on from where it leads.
-/

namespace SemanticLayer.Document

namespace Pointer

variable {base step : String} {front pointer : Pointer}

/-! ## One step -/

/-- What is written for a character of a step. -/
def escapeChar (c : Char) : List Char :=
  if c = '~' then ['~', '0'] else if c = '/' then ['~', '1'] else [c]

theorem toList_escape (step : String) : (escape step).toList = step.toList.flatMap escapeChar := by
  rw [escape, String.toList_ofList, Text.replaceChar, Text.replaceChar, List.flatMap_assoc]
  congr 1
  funext c
  by_cases tilde : c = '~'
  · simp [escapeChar, tilde]
  · simp [escapeChar, tilde]

theorem slash_not_mem_escape (step : String) : '/' ∉ (escape step).toList := by
  rw [toList_escape, List.mem_flatMap]
  rintro ⟨c, -, among⟩
  rw [escapeChar] at among
  split at among
  · simp at among
  · split at among
    · simp at among
    · rename_i other
      exact other (List.mem_singleton.1 among).symm

/-- Of the two escapes, the first reading takes out that of the slash. -/
theorem unescape_slash (chars : List Char) :
    unescape '1' '/' (chars.flatMap escapeChar) = Text.replaceChar '~' ['~', '0'] chars := by
  induction chars with
  | nil => rfl
  | cons c rest ih =>
      rw [List.flatMap_cons, Text.replaceChar, List.flatMap_cons, ← Text.replaceChar, ← ih]
      by_cases tilde : c = '~'
      · simp [escapeChar, tilde, unescape]
      · by_cases slash : c = '/'
        · simp [escapeChar, slash, unescape]
        · simp [escapeChar, tilde, slash, unescape]

/-- The second reading takes out that of the tilde. -/
theorem unescape_tilde (chars : List Char) :
    unescape '0' '~' (Text.replaceChar '~' ['~', '0'] chars) = chars := by
  induction chars with
  | nil => rfl
  | cons c rest ih =>
      rw [Text.replaceChar, List.flatMap_cons, ← Text.replaceChar]
      by_cases tilde : c = '~'
      · simp [tilde, unescape, ih]
      · simp [tilde, unescape, ih]

/-- A step is read back from what is written for it. -/
theorem unescape_escape (step : String) :
    String.ofList (unescape '0' '~' (unescape '1' '/' (escape step).toList)) = step := by
  rw [toList_escape, unescape_slash, unescape_tilde, String.ofList_toList]

/-- Digits need no escape. -/
theorem escape_natText (i : Nat) :
    escape (String.ofList (Number.natText i)) = String.ofList (Number.natText i) := by
  have plain : ∀ c ∈ Number.natText i, escapeChar c = [c] := by
    intro c among
    have digit := List.all_eq_true.1 (Number.all_isDigit_natText i) c among
    have tilde : c ≠ '~' := fun same => absurd (same ▸ digit) (by decide)
    have slash : c ≠ '/' := fun same => absurd (same ▸ digit) (by decide)
    rw [escapeChar, if_neg tilde, if_neg slash]
  rw [← String.toList_inj, toList_escape, String.toList_ofList, List.flatMap_def,
    List.map_congr_left plain, ← List.flatMap_def, List.flatMap_singleton']

/-! ## Several steps -/

theorem text_cons (step : String) (rest : Pointer) :
    text (step :: rest) = "/" ++ escape step ++ text rest := by
  rw [text, List.map_cons, String.join_cons, text]

theorem toList_text_cons (step : String) (rest : Pointer) :
    (text (step :: rest)).toList = '/' :: ((escape step).toList ++ (text rest).toList) := by
  rw [text_cons, String.toList_append, String.toList_append]
  rfl

/-- The steps that are read from characters with slashes between them. -/
def stepsOf (chars : List Char) : Pointer :=
  (chars.splitOn '/').map fun step =>
    String.ofList (unescape '0' '~' (unescape '1' '/' step))

theorem stepsOf_escape (step : String) : stepsOf (escape step).toList = [step] := by
  rw [stepsOf, List.splitOn_eq_singleton (slash_not_mem_escape step), List.map_singleton,
    unescape_escape]

/-- A slash ends a step. -/
theorem stepsOf_append_text (chars : List Char) (pointer : Pointer) :
    stepsOf (chars ++ (text pointer).toList) = stepsOf chars ++ pointer := by
  induction pointer generalizing chars with
  | nil => simp [text]
  | cons step rest ih =>
      have ends (more : List Char) :
          stepsOf (chars ++ '/' :: more) = stepsOf chars ++ stepsOf more := by
        rw [stepsOf, List.splitOn_append_cons_self, List.map_append, stepsOf, stepsOf]
      rw [toList_text_cons, ends, ih, stepsOf_escape, List.singleton_append]

/-- Steps behind the text of a pointer are steps behind the pointer. -/
theorem ofText?_append_text (reads : ofText? base = some front) (pointer : Pointer) :
    ofText? (base ++ text pointer) = some (front ++ pointer) := by
  rw [ofText?.eq_def] at reads ⊢
  rw [String.toList_append]
  split at reads
  · rename_i empty
    cases reads
    rw [empty, List.nil_append]
    cases pointer with
    | nil => rfl
    | cons step rest =>
        have first := stepsOf_append_text (escape step).toList rest
        rw [stepsOf_escape] at first
        rw [toList_text_cons]
        exact congrArg some first
  · rename_i rest chars
    cases reads
    rw [chars]
    exact congrArg some (stepsOf_append_text rest pointer)
  · cases reads

end Pointer

/-- Steps behind the text of a pointer lead on from where it leads. -/
theorem resolve?_append_text {document start : Document} {base : String}
    (leads : document.resolve? base = some start) (pointer : Pointer) :
    document.resolve? (base ++ Pointer.text pointer) = start.at? pointer := by
  obtain ⟨front, reads, here⟩ := Option.bind_eq_some_iff.1 leads
  rw [resolve?, Pointer.ofText?_append_text reads, Option.bind_some, at?_append, here,
    Option.bind_some]

end SemanticLayer.Document
