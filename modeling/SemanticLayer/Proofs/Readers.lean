import SemanticLayer.Grammar.Statements

/-!
# What readers do

How readers run one after the other, and what they find where a list of lexemes starts with one of
a few marks and keywords.
-/

namespace SemanticLayer.Grammar

open Sql (Name Path)

/-! ## Fronts of lists -/

/-- The word that a keyword is written as. -/
def Lexeme.key (keyword : String) : Lexeme :=
  .word ⟨keyword, none, keyword⟩

@[simp]
theorem Lexeme.isKeyword_word (word : Word) (keyword : String) :
    (Lexeme.word word).isKeyword keyword = (word.keyword == keyword) := rfl

@[simp]
theorem Lexeme.isKeyword_key (keyword other : String) :
    (key keyword).isKeyword other = (keyword == other) := rfl

@[simp]
theorem Lexeme.isKeyword_mark (text keyword : String) :
    (Lexeme.mark text).isKeyword keyword = false := rfl

@[simp]
theorem Lexeme.isMark_mark (text other : String) :
    (Lexeme.mark text).isMark other = (text == other) := rfl

@[simp]
theorem Lexeme.isMark_word (word : Word) (text : String) :
    (Lexeme.word word).isMark text = false := rfl

@[simp]
theorem Lexeme.isMark_key (keyword text : String) : (key keyword).isMark text = false := rfl

@[simp]
theorem startsWithKeywords_nil (lexemes : List Lexeme) : startsWithKeywords [] lexemes = true := by
  cases lexemes <;> rfl

@[simp]
theorem startsWithKeywords_cons
    (keyword : String) (keywords : List String) (lexeme : Lexeme) (rest : List Lexeme) :
    startsWithKeywords (keyword :: keywords) (lexeme :: rest) =
      (lexeme.isKeyword keyword && startsWithKeywords keywords rest) := rfl

@[simp]
theorem startsWithMark_cons (text : String) (lexeme : Lexeme) (rest : List Lexeme) :
    startsWithMark text (lexeme :: rest) = lexeme.isMark text := rfl

@[simp]
theorem startsWithMark_nil (text : String) : startsWithMark text [] = false := rfl

@[simp]
theorem frontKeyword_word (word : Word) (rest : List Lexeme) :
    frontKeyword (.word word :: rest) = word.keyword := rfl

@[simp]
theorem frontKeyword_key (keyword : String) (rest : List Lexeme) :
    frontKeyword (.key keyword :: rest) = keyword := rfl

@[simp]
theorem frontKeyword_mark (text : String) (rest : List Lexeme) :
    frontKeyword (.mark text :: rest) = "" := rfl

/-- Where another keyword or none comes first, no keywords are found. -/
theorem startsWithKeywords_of_frontKeyword_ne
    {keyword : String} {lexemes : List Lexeme} (keywords : List String)
    (other : frontKeyword lexemes ≠ keyword) :
    startsWithKeywords (keyword :: keywords) lexemes = false := by
  cases lexemes with
  | nil => rfl
  | cons lexeme rest =>
      cases lexeme with
      | word found =>
          rw [frontKeyword_word] at other
          simp [other]
      | _ => rfl

namespace Reader

variable {α β : Type}

/-! ## Steps -/

@[simp]
theorem pure_apply (value : α) (lexemes : List Lexeme) :
    (pure value : Reader α) lexemes = .ok (value, lexemes) := rfl

@[simp]
theorem get_apply (lexemes : List Lexeme) :
    (get : Reader (List Lexeme)) lexemes = .ok (lexemes, lexemes) := rfl

@[simp]
theorem set_apply (lexemes others : List Lexeme) :
    (set others : Reader PUnit) lexemes = .ok (⟨⟩, others) := rfl

@[simp]
theorem unexpected_apply (lexemes : List Lexeme) :
    (unexpected : Reader α) lexemes = .error .unexpected := rfl

@[simp]
theorem next_cons (lexeme : Lexeme) (rest : List Lexeme) :
    next (lexeme :: rest) = .ok (lexeme, rest) := rfl

@[simp]
theorem next_nil : next [] = .error .unexpected := rfl

@[simp]
theorem ahead_apply (test : List Lexeme → Bool) (lexemes : List Lexeme) :
    ahead test lexemes = .ok (test lexemes, lexemes) := rfl

@[simp]
theorem bind_apply (reader : Reader α) (further : α → Reader β) (lexemes : List Lexeme) :
    (reader >>= further) lexemes =
      match reader lexemes with
      | .ok (value, rest) => further value rest
      | .error failure => .error failure := by
  show (do let (value, rest) ← reader lexemes; further value rest) = _
  cases reader lexemes with
  | ok found => rfl
  | error failure => rfl

@[simp]
theorem map_apply (f : α → β) (reader : Reader α) (lexemes : List Lexeme) :
    (f <$> reader) lexemes =
      match reader lexemes with
      | .ok (value, rest) => .ok (f value, rest)
      | .error failure => .error failure := by
  show (do let (value, rest) ← reader lexemes; pure (f value, rest)) = _
  cases reader lexemes with
  | ok found => rfl
  | error failure => rfl

/-- What goes on behind a reader that succeeds. -/
theorem bind_of_ok
    {reader : Reader α} {further : α → Reader β} {lexemes rest : List Lexeme} {value : α}
    (found : reader lexemes = .ok (value, rest)) :
    (reader >>= further) lexemes = further value rest := by
  rw [bind_apply, found]

/-- Nothing goes on behind a reader that fails. -/
theorem bind_of_error
    {reader : Reader α} {further : α → Reader β} {lexemes : List Lexeme} {failure : Failure}
    (found : reader lexemes = .error failure) : (reader >>= further) lexemes = .error failure := by
  rw [bind_apply, found]

/-- What goes on behind one of two readers goes on behind the one that is chosen. -/
theorem bind_of_choice
    {test : Reader Bool} {first second : Reader α} {further : α → Reader β}
    {lexemes rest : List Lexeme} {value : α}
    (found : (do if ← test then first else second) lexemes = .ok (value, rest)) :
    (do if ← test then first >>= further else second >>= further) lexemes = further value rest := by
  rw [bind_apply] at found ⊢
  cases tested : test lexemes with
  | error failure =>
      rw [tested] at found
      cases found
  | ok result =>
      obtain ⟨chosen, behind⟩ := result
      rw [tested] at found
      simp only at found ⊢
      cases chosen with
      | true =>
          rw [if_pos rfl] at found ⊢
          exact bind_of_ok found
      | false =>
          rw [if_neg Bool.false_ne_true] at found ⊢
          exact bind_of_ok found

/-- Nothing goes on behind one of two readers if the one that is chosen fails. -/
theorem bind_of_failed_choice
    {test : Reader Bool} {first second : Reader α} {further : α → Reader β}
    {lexemes : List Lexeme} {failure : Failure}
    (found : (do if ← test then first else second) lexemes = .error failure) :
    (do if ← test then first >>= further else second >>= further) lexemes = .error failure := by
  rw [bind_apply] at found ⊢
  cases tested : test lexemes with
  | error other =>
      rw [tested] at found
      cases found
      rfl
  | ok result =>
      obtain ⟨chosen, behind⟩ := result
      rw [tested] at found
      cases chosen with
      | true => exact bind_of_error found
      | false => exact bind_of_error found

theorem map_of_ok
    {f : α → β} {reader : Reader α} {lexemes rest : List Lexeme} {value : α}
    (found : reader lexemes = .ok (value, rest)) :
    (f <$> reader) lexemes = .ok (f value, rest) := by
  rw [map_apply, found]

/-- The steps of readers that succeed one after the other. -/
theorem bind_eq_ok
    {reader : Reader α} {further : α → Reader β} {lexemes : List Lexeme} {result : β × List Lexeme} :
    (reader >>= further) lexemes = .ok result ↔
      ∃ value rest, reader lexemes = .ok (value, rest) ∧ further value rest = .ok result := by
  rw [bind_apply]
  cases reader lexemes with
  | ok found =>
      constructor
      · intro more
        exact ⟨found.1, found.2, rfl, more⟩
      · rintro ⟨value, rest, same, more⟩
        cases same
        exact more
  | error failure => simp

theorem map_eq_ok
    {f : α → β} {reader : Reader α} {lexemes : List Lexeme} {result : β × List Lexeme} :
    (f <$> reader) lexemes = .ok result ↔
      ∃ value, reader lexemes = .ok (value, result.2) ∧ f value = result.1 := by
  rw [map_apply]
  cases reader lexemes with
  | ok found =>
      constructor
      · intro same
        cases same
        exact ⟨found.1, rfl, rfl⟩
      · rintro ⟨value, same, image⟩
        cases same
        simp [image]
  | error failure => simp

/-! ## Tests -/

theorem keyword?_apply (keyword : String) (lexemes : List Lexeme) :
    keyword? keyword lexemes =
      .ok (if startsWithKeywords [keyword] lexemes then (true, lexemes.drop 1)
        else (false, lexemes)) := rfl

theorem mark?_apply (text : String) (lexemes : List Lexeme) :
    mark? text lexemes =
      .ok (if startsWithMark text lexemes then (true, lexemes.drop 1) else (false, lexemes)) := rfl

@[simp]
theorem keyword?_key (keyword : String) (rest : List Lexeme) :
    keyword? keyword (.key keyword :: rest) = .ok (true, rest) := by
  simp [keyword?_apply]

@[simp]
theorem mark?_mark (text : String) (rest : List Lexeme) :
    mark? text (.mark text :: rest) = .ok (true, rest) := by
  simp [mark?_apply]

@[simp]
theorem expectKeyword_key (keyword : String) (rest : List Lexeme) :
    expectKeyword keyword (.key keyword :: rest) = .ok ((), rest) := by
  rw [expectKeyword, require, bind_of_ok (keyword?_key keyword rest)]
  rfl

@[simp]
theorem expectMark_mark (text : String) (rest : List Lexeme) :
    expectMark text (.mark text :: rest) = .ok ((), rest) := by
  rw [expectMark, require, bind_of_ok (mark?_mark text rest)]
  rfl

theorem expectMark_of_not {text : String} {lexemes : List Lexeme}
    (other : startsWithMark text lexemes = false) :
    expectMark text lexemes = .error .unexpected := by
  simp [expectMark, require, mark?_apply, other]

/-- What stands in parentheses is read if the inner reader stops at the closing one. -/
theorem parenthesized_of_ok
    {reader : Reader α} {lexemes rest : List Lexeme} {value : α}
    (found : reader lexemes = .ok (value, .mark ")" :: rest)) :
    parenthesized reader (.mark "(" :: lexemes) = .ok (value, rest) := by
  rw [parenthesized, bind_of_ok (expectMark_mark "(" lexemes), bind_of_ok found,
    bind_of_ok (expectMark_mark ")" rest)]
  rfl

theorem parenthesized_of_not {reader : Reader α} {lexemes : List Lexeme}
    (other : startsWithMark "(" lexemes = false) :
    parenthesized reader lexemes = .error .unexpected := by
  rw [parenthesized, bind_of_error (expectMark_of_not other)]

theorem attempt_of_error {reader : Reader α} {lexemes : List Lexeme}
    (found : reader lexemes = .error .unexpected) :
    attempt reader lexemes = .ok (none, lexemes) := by
  simp [attempt, found]

theorem takeIf_of_false
    {count : Nat} {test : List Lexeme → Bool} {lexemes : List Lexeme}
    (found : test lexemes = false) : takeIf count test lexemes = .ok (false, lexemes) := by
  simp [takeIf, found]

end Reader

/-! ## What comes next -/

/-- A list of lexemes that is empty or starts with one of the given marks and keywords. -/
def Ahead (marks words : List String) : List Lexeme → Prop
  | [] => True
  | lexeme :: _ => (∃ text ∈ marks, lexeme = .mark text) ∨ ∃ word ∈ words, lexeme.isKeyword word = true

namespace Ahead

variable {marks words : List String} {lexemes : List Lexeme}

theorem nil : Ahead marks words [] := trivial

theorem mark {text : String} (rest : List Lexeme) (found : text ∈ marks) :
    Ahead marks words (.mark text :: rest) :=
  .inl ⟨text, found, rfl⟩

theorem word {text : String} (rest : List Lexeme) (found : Text.upper text ∈ words) :
    Ahead marks words (.word (Word.plain text) :: rest) :=
  .inr ⟨Text.upper text, found, by simp [Lexeme.isKeyword, Word.plain]⟩

theorem mono
    {moreMarks moreWords : List String} (ahead : Ahead marks words lexemes)
    (allMarks : marks ⊆ moreMarks) (allWords : words ⊆ moreWords) :
    Ahead moreMarks moreWords lexemes := by
  cases lexemes with
  | nil => trivial
  | cons lexeme rest =>
      rcases ahead with ⟨text, found, same⟩ | ⟨word, found, same⟩
      · exact .inl ⟨text, allMarks found, same⟩
      · exact .inr ⟨word, allWords found, same⟩

theorem startsWithKeywords
    (ahead : Ahead marks words lexemes) {keyword : String} (keywords : List String)
    (other : keyword ∉ words) : startsWithKeywords (keyword :: keywords) lexemes = false := by
  cases lexemes with
  | nil => rfl
  | cons lexeme rest =>
      rcases ahead with ⟨text, -, rfl⟩ | ⟨word, found, same⟩
      · rfl
      · have differs : lexeme.isKeyword keyword = false := by
          cases lexeme with
          | word other_ =>
              simp only [Lexeme.isKeyword, beq_iff_eq] at same
              simp only [Lexeme.isKeyword, same, beq_eq_false_iff_ne]
              rintro rfl
              exact other found
          | _ => rfl
        simp [Grammar.startsWithKeywords, differs]

theorem startsWithMark
    (ahead : Ahead marks words lexemes) {text : String} (other : text ∉ marks) :
    startsWithMark text lexemes = false := by
  cases lexemes with
  | nil => rfl
  | cons lexeme rest =>
      rcases ahead with ⟨found, isMark, rfl⟩ | ⟨word, -, same⟩
      · simp only [Grammar.startsWithMark, Lexeme.isMark, beq_eq_false_iff_ne]
        rintro rfl
        exact other isMark
      · cases lexeme with
        | word found => rfl
        | _ => cases same

theorem frontKeyword (ahead : Ahead marks words lexemes) :
    frontKeyword lexemes = "" ∨ frontKeyword lexemes ∈ words := by
  cases lexemes with
  | nil => exact .inl rfl
  | cons lexeme rest =>
      rcases ahead with ⟨text, -, rfl⟩ | ⟨word, found, same⟩
      · exact .inl rfl
      · cases lexeme with
        | word other =>
            simp only [Lexeme.isKeyword, beq_iff_eq] at same
            exact .inr (by simpa [Grammar.frontKeyword, same] using found)
        | _ => cases same

theorem keywords?
    (ahead : Ahead marks words lexemes) {keyword : String} (keywords : List String)
    (other : keyword ∉ words) :
    Reader.keywords? (keyword :: keywords) lexemes = .ok (false, lexemes) :=
  Reader.takeIf_of_false (ahead.startsWithKeywords keywords other)

theorem keyword?
    (ahead : Ahead marks words lexemes) {keyword : String} (other : keyword ∉ words) :
    Reader.keyword? keyword lexemes = .ok (false, lexemes) :=
  ahead.keywords? [] other

theorem mark? (ahead : Ahead marks words lexemes) {text : String} (other : text ∉ marks) :
    Reader.mark? text lexemes = .ok (false, lexemes) :=
  Reader.takeIf_of_false (ahead.startsWithMark other)

theorem behind?
    {α : Type} (ahead : Ahead marks words lexemes) {keyword : String} {keywords : List String}
    (reader : Reader α) (other : keyword ∉ words) :
    Reader.behind? (keyword :: keywords) reader lexemes = .ok (none, lexemes) := by
  rw [Reader.behind?, Reader.bind_of_ok (ahead.keywords? keywords other)]
  rfl

theorem oneOf?
    (ahead : Ahead marks words lexemes) {keywords : List String}
    (others : ∀ keyword ∈ keywords, keyword ∉ words) :
    Reader.oneOf? keywords lexemes = .ok (none, lexemes) := by
  have none : keywords.find? (fun keyword => Grammar.startsWithKeywords [keyword] lexemes) =
      Option.none := by
    rw [List.find?_eq_none]
    intro keyword found
    simp [ahead.startsWithKeywords [] (others keyword found)]
  simp [Reader.oneOf?, none]

end Ahead

end SemanticLayer.Grammar
