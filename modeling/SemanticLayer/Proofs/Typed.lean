import SemanticLayer.Proofs.Levels

/-!
# No typed literals

A name that is also the name of a type may introduce a literal. No name of a written expression does:
behind it stand no text and no plain word, also not behind the parentheses of a call.
-/

namespace SemanticLayer

namespace Grammar

open Reader

/-- Lexemes that may stand behind a name in an expression, a call apart. -/
abbrev BehindName (lexemes : List Lexeme) : Prop :=
  Ahead ("." :: followMarks) followWords lexemes

/-- Lexemes that may stand behind a name in an expression. -/
abbrev BehindType (lexemes : List Lexeme) : Prop :=
  Ahead ("(" :: "." :: followMarks) followWords lexemes

theorem BehindName.behindType {lexemes : List Lexeme} (behind : BehindName lexemes) :
    BehindType lexemes :=
  behind.mono (fun _ found => List.mem_cons_of_mem _ found) fun _ => id

theorem Follows.behindName {lexemes : List Lexeme} (follows : Follows lexemes) :
    BehindName lexemes :=
  follows.mono (fun _ found => List.mem_cons_of_mem _ found) fun _ => id

/-- No word that may stand behind an expression is a plain one. -/
theorem mem_keywords : ∀ keyword ∈ followWords, keyword ∈ keywords := by
  decide +kernel

theorem BehindType.literalText {lexemes : List Lexeme} (behind : BehindType lexemes)
    (rules : Rules) : literalText rules lexemes = .error .unexpected := by
  cases lexemes with
  | nil => rfl
  | cons lexeme rest =>
      rcases behind with ⟨text, -, rfl⟩ | ⟨keyword, found, same⟩
      · rfl
      · cases lexeme with
        | word word =>
            obtain rfl : word.keyword = keyword := by simpa [Lexeme.isKeyword] using same
            simp [Reader.literalText, Word.isPlain, mem_keywords _ found]
        | _ => cases same

/-- Whether a reader fails, or leaves what may stand behind a name of a column or a call. -/
def Balks {α : Type} (reader : Reader α) (lexemes : List Lexeme) : Prop :=
  reader lexemes = .error .unexpected ∨
    ∃ value rest, reader lexemes = .ok (value, rest) ∧ BehindType rest

theorem Balks.bind {α β : Type} {reader : Reader α} {further : α → Reader β}
    {lexemes : List Lexeme} (balks : Balks reader lexemes)
    (goesOn : ∀ value rest, BehindType rest → Balks (further value) rest) :
    Balks (reader >>= further) lexemes := by
  rcases balks with fails | ⟨value, rest, reads, behind⟩
  · exact .inl (bind_of_error fails)
  · rw [Balks, bind_of_ok reads]
    exact goesOn value rest behind

theorem balks_of_ok {reader : Reader Unit} {lexemes rest : List Lexeme}
    (reads : reader lexemes = .ok ((), rest)) (behind : BehindType rest) : Balks reader lexemes :=
  .inr ⟨(), rest, reads, behind⟩

theorem arrayMarks_of_behindType {lexemes : List Lexeme} (behind : BehindType lexemes) (fuel : Nat) :
    arrayMarks fuel lexemes = .ok ((), lexemes) := by
  cases fuel with
  | zero => rfl
  | succ fuel =>
      rw [arrayMarks, bind_of_ok (behind.mark? (by decide))]
      rfl

theorem balks_dataType {rules : Rules} {word : Word} {rest : List Lexeme} {shape : TypeShape}
    (found : TypeShape.ofKeyword? word.keyword = some shape)
    (balks : ∀ inner, Balks (shaped rules inner shape) rest) :
    Balks (dataType rules) (.word word :: rest) := by
  rw [Balks, dataType, bind_of_ok (get_apply _), dataTypeWithin, bind_of_ok (get_apply _),
    frontKeyword_word, found]
  simp only []
  rcases balks (do let _ ← dataTypeWithin rules (Lexeme.word word :: rest).length; pure ()) with
    fails | ⟨value, behind, reads, stands⟩
  · left
    rw [bind_of_ok (next_cons _ _), bind_of_error fails]
  · right
    refine ⟨some shape, behind, ?_, stands⟩
    rw [bind_of_ok (next_cons _ _), bind_of_ok reads,
      bind_of_ok (arrayMarks_of_behindType stands _)]
    rfl

/-- No type is read from a name where what follows the first word of the type balks. -/
theorem typedLiteral?_of_balks {level : Level} {word : Word} {rest : List Lexeme}
    (balks : ∀ shape, TypeShape.ofKeyword? word.keyword = some shape →
      shape ≠ .interval ∧ ∀ inner, Balks (shaped level.rules inner shape) rest) :
    level.typedLiteral? (.word word :: rest) = .ok (none, .word word :: rest) := by
  rw [Level.typedLiteral?, bind_of_ok (get_apply _), frontKeyword_word]
  cases found : TypeShape.ofKeyword? word.keyword with
  | none => rfl
  | some shape =>
      obtain ⟨noInterval, balks⟩ := balks shape found
      have fails : (do
          let _ ← dataType level.rules
          let _ ← Reader.literalText level.rules
          pure (Expr.special .typedString [])) (.word word :: rest) = .error .unexpected := by
        rcases balks_dataType found balks with fails | ⟨value, behind, reads, stands⟩
        · rw [bind_of_error fails]
        · rw [bind_of_ok reads, bind_of_error (stands.literalText _)]
      cases shape with
      | interval => exact absurd rfl noInterval
      | _ => exact attempt_of_error fails

/-! ## Names that no call goes by -/

section

variable {lexemes : List Lexeme} (behind : BehindName lexemes)

include behind

theorem BehindName.sizes? (most : Nat) : Reader.sizes? most lexemes = .ok ((), lexemes) := by
  rw [Reader.sizes?, bind_of_ok (behind.mark? (by decide))]
  rfl

theorem BehindName.textLength? : Reader.textLength? lexemes = .ok ((), lexemes) := by
  rw [Reader.textLength?, bind_of_ok (behind.mark? (by decide))]
  rfl

/-- No type goes on in what may stand behind a name, except for the element type of an array. -/
theorem BehindName.balks_shaped {rules : Rules} {shape : TypeShape}
    (unopened : shape = .array → startsWithMark "<" lexemes = false) (inner : Reader Unit) :
    Balks (shaped rules inner shape) lexemes := by
  have ends := behind.behindType
  cases shape with
  | bare => exact balks_of_ok rfl ends
  | interval => exact balks_of_ok rfl ends
  | sized => exact balks_of_ok (behind.sizes? 1) ends
  | exact => exact balks_of_ok (behind.sizes? 2) ends
  | text => exact balks_of_ok behind.textLength? ends
  | integral =>
      refine balks_of_ok ?_ ends
      rw [shaped, bind_of_ok (behind.sizes? 1), bind_of_ok (behind.keyword? (by decide))]
      rfl
  | character =>
      refine balks_of_ok ?_ ends
      rw [shaped, bind_of_ok (behind.keyword? (by decide)), if_neg Bool.false_ne_true,
        bind_of_ok (behind.keywords? ["OBJECT"] (by decide))]
      exact behind.textLength?
  | double =>
      refine balks_of_ok ?_ ends
      rw [shaped, bind_of_ok (behind.keyword? (by decide))]
      rfl
  | zoned =>
      refine balks_of_ok ?_ ends
      rw [shaped, bind_of_ok (behind.sizes? 1), zone?,
        bind_of_ok (behind.keyword? (by decide)), if_neg Bool.false_ne_true,
        bind_of_ok (behind.keyword? (by decide))]
      rfl
  | enumerated =>
      left
      rw [shaped, bind_of_error (parenthesized_of_not (behind.startsWithMark (by decide)))]
  | array =>
      rw [shaped]
      split
      next => exact .inl (bind_of_error (expectMark_of_not (unopened rfl)))
      next => exact balks_of_ok rfl ends

end

/-! ## Names of calls -/

/-- The lexemes that no number, no text and no plain word is, with which an argument may start. -/
def argumentHeads : List Lexeme :=
  .key "DISTINCT" :: openers

/-- What may stand behind the first lexeme of an argument, up to what stands behind the call. -/
inductive BehindItem (after : List Lexeme) : List Lexeme → Prop where
  | close : BehindItem after (.mark ")" :: after)
  | comma (first : Lexeme) {rest : List Lexeme} (further : BehindItem after rest) :
    BehindItem after (.mark "," :: first :: rest)
  | headed {first : Lexeme} (rest : List Lexeme) (found : first ∈ argumentHeads) :
    BehindItem after (.mark "," :: first :: rest)
  | longer {rest : List Lexeme} (ahead : Ahead secondMarks secondWords rest) :
    BehindItem after rest

/-- The lexemes behind the opening parenthesis of a call, up to what stands behind the call. -/
inductive BehindCall (after : List Lexeme) : List Lexeme → Prop where
  | close : BehindCall after (.mark ")" :: after)
  | item (first : Lexeme) {rest : List Lexeme} (further : BehindItem after rest) :
    BehindCall after (first :: rest)
  | headed {first : Lexeme} (rest : List Lexeme) (found : first ∈ argumentHeads) :
    BehindCall after (first :: rest)

/-- Whether a reader takes one lexeme or fails, and fails on what is neither a number nor a text nor
a plain word. -/
structure TakesOne {α : Type} (item : Reader α) : Prop where
  fails_nil : item [] = .error .unexpected
  takes : ∀ first rest, item (first :: rest) = .error .unexpected ∨
    ∃ value, item (first :: rest) = .ok (value, rest)
  fails_head : ∀ first ∈ .mark ")" :: argumentHeads, ∀ rest,
    item (first :: rest) = .error .unexpected

theorem takesOne_number : TakesOne number where
  fails_nil := rfl
  takes first rest := by
    cases first with
    | number text => exact .inr ⟨text, rfl⟩
    | _ => exact .inl rfl
  fails_head first found rest := by
    simp only [argumentHeads, openers, List.mem_cons, List.not_mem_nil, or_false] at found
    rcases found with rfl | rfl | rfl | rfl | rfl | rfl | rfl <;> rfl

theorem takesOne_literalText : TakesOne (literalText .generic) where
  fails_nil := rfl
  takes first rest := by
    rcases first with word | text | text | ⟨kind, text⟩ | mark
    · cases plain : word.isPlain with
      | true => exact .inr ⟨word.value, by simp [literalText, plain]⟩
      | false => exact .inl (by simp [literalText, plain])
    · exact .inl rfl
    · exact .inr ⟨text, rfl⟩
    · cases kind <;> first | exact .inl rfl | exact .inr ⟨text, rfl⟩
    · exact .inl rfl
  fails_head first found rest := by
    have keyword (word : String) (reserved : word ∈ keywords) :
        literalText .generic (.key word :: rest) = .error .unexpected := by
      simp [literalText, Lexeme.key, Word.isPlain, reserved]
    simp only [argumentHeads, openers, List.mem_cons, List.not_mem_nil, or_false] at found
    rcases found with rfl | rfl | rfl | rfl | rfl | rfl | rfl
    · rfl
    · exact keyword "DISTINCT" (by decide +kernel)
    · exact keyword "CASE" (by decide +kernel)
    · exact keyword "NOT" (by decide +kernel)
    · rfl
    · rfl
    · rfl

section

variable {α : Type} {item : Reader α} (one : TakesOne item) {after : List Lexeme}

include one

theorem BehindCall.takesOne {lexemes : List Lexeme} (call : BehindCall after lexemes) :
    item lexemes = .error .unexpected ∨
      ∃ value rest, item lexemes = .ok (value, rest) ∧ BehindItem after rest := by
  cases call with
  | close => exact .inl (one.fails_head _ (by simp) _)
  | headed rest found => exact .inl (one.fails_head _ (by simp [found]) _)
  | item first further =>
      rcases one.takes first _ with fails | ⟨value, takes⟩
      · exact .inl fails
      · exact .inr ⟨value, _, takes, further⟩

/-- Where single lexemes are read with commas between them, no other parenthesis is met than the
one that closes the call. -/
theorem BehindItem.moreItems (fuel : Nat) {lexemes : List Lexeme}
    (behind : BehindItem after lexemes) :
    moreItems (fun _ => false) item fuel lexemes = .error .unexpected ∨
      ∃ values rest, moreItems (fun _ => false) item fuel lexemes = .ok (values, rest) ∧
        (rest = .mark ")" :: after ∨ startsWithMark ")" rest = false) := by
  induction fuel generalizing lexemes with
  | zero =>
      refine .inr ⟨[], lexemes, rfl, ?_⟩
      cases behind with
      | close => exact .inl rfl
      | longer ahead => exact .inr (ahead.startsWithMark (by decide))
      | _ => exact .inr rfl
  | succ fuel ih =>
      rw [Reader.moreItems]
      cases behind with
      | close => exact .inr ⟨[], _, rfl, .inl rfl⟩
      | longer ahead =>
          refine .inr ⟨[], lexemes, ?_, .inr (ahead.startsWithMark (by decide))⟩
          rw [bind_of_ok (ahead.mark? (by decide))]
          rfl
      | headed rest found =>
          left
          rw [bind_of_ok (mark?_mark "," _), if_pos rfl, bind_of_ok (ahead_apply _ _),
            if_neg Bool.false_ne_true, bind_of_error (one.fails_head _ (by simp [found]) _)]
      | comma first further =>
          rw [bind_of_ok (mark?_mark "," _), if_pos rfl, bind_of_ok (ahead_apply _ _),
            if_neg Bool.false_ne_true]
          rcases one.takes first _ with fails | ⟨value, takes⟩
          · exact .inl (bind_of_error fails)
          · rw [bind_of_ok takes]
            rcases ih further with fails | ⟨values, rest, reads, stands⟩
            · exact .inl (bind_of_error fails)
            · exact .inr ⟨value :: values, rest, bind_of_ok reads, stands⟩

end

section

variable {after lexemes : List Lexeme} (behind : BehindName after)

include behind

theorem BehindItem.expectMark {rest : List Lexeme} (item : BehindItem after rest) :
    Balks (Reader.expectMark ")") rest := by
  cases item with
  | close => exact balks_of_ok (expectMark_mark ")" after) behind.behindType
  | longer ahead => exact .inl (expectMark_of_not (ahead.startsWithMark (by decide)))
  | _ => exact .inl (expectMark_of_not rfl)

theorem BehindCall.sizes_one (call : BehindCall after lexemes) :
    Balks (Reader.sizes? 1) (.mark "(" :: lexemes) := by
  rw [Balks, Reader.sizes?, bind_of_ok (mark?_mark "(" _), if_pos rfl]
  rcases call.takesOne takesOne_number with fails | ⟨value, rest, takes, item⟩
  · exact .inl (bind_of_error fails)
  · rw [bind_of_ok takes, if_neg (by decide)]
    exact item.expectMark behind

theorem BehindCall.sizes_two (call : BehindCall after lexemes) :
    Balks (Reader.sizes? 2) (.mark "(" :: lexemes) := by
  rw [Balks, Reader.sizes?, bind_of_ok (mark?_mark "(" _), if_pos rfl]
  rcases call.takesOne takesOne_number with fails | ⟨value, rest, takes, item⟩
  · exact .inl (bind_of_error fails)
  · rw [bind_of_ok takes, if_pos (by decide)]
    cases item with
    | close => exact balks_of_ok (expectMark_mark ")" after) behind.behindType
    | longer ahead =>
        rw [bind_of_ok (ahead.mark? (by decide)), if_neg Bool.false_ne_true]
        exact .inl (expectMark_of_not (ahead.startsWithMark (by decide)))
    | headed rest found =>
        rw [bind_of_ok (mark?_mark "," _), if_pos rfl]
        exact .inl (bind_of_error (takesOne_number.fails_head _ (by simp [found]) _))
    | comma first further =>
        rw [bind_of_ok (mark?_mark "," _), if_pos rfl]
        rcases takesOne_number.takes first _ with fails | ⟨value, takes⟩
        · exact .inl (bind_of_error fails)
        · rw [bind_of_ok takes]
          exact further.expectMark behind

omit behind in
theorem BehindItem.oneOf? {rest : List Lexeme} (item : BehindItem after rest) :
    Reader.oneOf? ["CHARACTERS", "OCTETS"] rest = .ok (none, rest) := by
  cases item with
  | longer ahead => exact ahead.oneOf? (by decide)
  | _ => rfl

omit behind in
theorem BehindCall.keyword? (call : BehindCall after lexemes) :
    Reader.keyword? "MAX" lexemes = .ok (false, lexemes) ∨
      ∃ rest, Reader.keyword? "MAX" lexemes = .ok (true, rest) ∧ BehindItem after rest := by
  cases call with
  | close => exact .inl rfl
  | headed rest found =>
      simp only [argumentHeads, openers, List.mem_cons, List.not_mem_nil, or_false] at found
      rcases found with rfl | rfl | rfl | rfl | rfl | rfl <;> exact .inl rfl
  | @item first rest further =>
      rw [keyword?_apply]
      split
      · exact .inr ⟨rest, rfl, further⟩
      · exact .inl rfl

theorem BehindCall.textLength? (call : BehindCall after lexemes) :
    Balks Reader.textLength? (.mark "(" :: lexemes) := by
  rw [Balks, Reader.textLength?, bind_of_ok (mark?_mark "(" _), if_pos rfl]
  rcases call.keyword? with other | ⟨rest, found, item⟩
  · rw [bind_of_ok other, if_neg Bool.false_ne_true]
    rcases call.takesOne takesOne_number with fails | ⟨value, rest, takes, item⟩
    · exact .inl (bind_of_error fails)
    · rw [bind_of_ok takes, bind_of_ok item.oneOf?]
      exact item.expectMark behind
  · rw [bind_of_ok found, if_pos rfl]
    exact item.expectMark behind

theorem BehindCall.enumerated (call : BehindCall after lexemes) :
    Balks (parenthesized (commaSeparated .generic (Reader.literalText .generic)))
      (.mark "(" :: lexemes) := by
  rw [Balks, parenthesized, bind_of_ok (expectMark_mark "(" _)]
  rcases call.takesOne takesOne_literalText with fails | ⟨value, rest, takes, item⟩
  · left
    rw [bind_of_error]
    exact bind_of_error fails
  · rcases item.moreItems takesOne_literalText rest.length with fails | ⟨values, others, reads, stands⟩
    · left
      rw [bind_of_error]
      rw [commaSeparated, separated, bind_of_ok takes, bind_of_ok (get_apply _)]
      exact bind_of_error fails
    · have list : commaSeparated .generic (Reader.literalText .generic) lexemes =
          .ok (value :: values, others) := by
        rw [commaSeparated, separated, bind_of_ok takes, bind_of_ok (get_apply _)]
        exact bind_of_ok reads
      rw [bind_of_ok list]
      rcases stands with rfl | other
      · rw [bind_of_ok (expectMark_mark ")" after)]
        exact .inr ⟨_, after, rfl, behind.behindType⟩
      · rw [bind_of_error (expectMark_of_not other)]
        exact .inl rfl

/-- No type goes on in the parentheses of a call. -/
theorem BehindCall.balks_shaped (call : BehindCall after lexemes) {shape : TypeShape}
    (noArray : shape ≠ .array) (inner : Reader Unit) :
    Balks (shaped .generic inner shape) (.mark "(" :: lexemes) := by
  have opened : BehindType (.mark "(" :: lexemes) := Ahead.mark lexemes (by decide)
  cases shape with
  | bare => exact balks_of_ok rfl opened
  | interval => exact balks_of_ok rfl opened
  | sized => exact call.sizes_one behind
  | exact => exact call.sizes_two behind
  | text => exact call.textLength? behind
  | integral =>
      refine Balks.bind (call.sizes_one behind) fun _ rest ends => balks_of_ok ?_ ends
      rw [bind_of_ok (ends.keyword? (by decide))]
      rfl
  | character => exact call.textLength? behind
  | double => exact balks_of_ok rfl opened
  | zoned =>
      refine Balks.bind (call.sizes_one behind) fun _ rest ends => balks_of_ok ?_ ends
      rw [zone?, bind_of_ok (ends.keyword? (by decide)), if_neg Bool.false_ne_true,
        bind_of_ok (ends.keyword? (by decide))]
      rfl
  | enumerated =>
      exact Balks.bind (call.enumerated behind) fun _ rest ends => balks_of_ok rfl ends
  | array => exact absurd rfl noArray

end

theorem TypeShape.eq_interval {keyword : String} (found : ofKeyword? keyword = some .interval) :
    keyword = "INTERVAL" := by
  have only : ∀ entry ∈ table, entry.1 = .interval → entry.2 = ["INTERVAL"] := by decide
  obtain ⟨entry, listed, shape⟩ := Option.map_eq_some_iff.mp found
  have holds := List.find?_some listed
  rw [only entry (List.mem_of_find?_eq_some listed) shape] at holds
  simpa using holds

theorem TypeShape.eq_array {keyword : String} (found : ofKeyword? keyword = some .array) :
    keyword = "ARRAY" := by
  have only : ∀ entry ∈ table, entry.1 = .array → entry.2 = ["ARRAY"] := by decide
  obtain ⟨entry, listed, shape⟩ := Option.map_eq_some_iff.mp found
  have holds := List.find?_some listed
  rw [only entry (List.mem_of_find?_eq_some listed) shape] at holds
  simpa using holds

end Grammar

namespace Sql

open Grammar (Lexeme Word Level Ahead Follows BehindName BehindItem BehindCall TypeShape openers)

/-! ## Operands -/

theorem behindItem_of_readable {args : List Expr} (readable : ∀ arg ∈ args, arg.Readable)
    (after : List Lexeme) :
    BehindItem after
      ((args.map Expr.lexemes).flatMap (fun arg => .mark "," :: arg) ++ .mark ")" :: after) := by
  induction args with
  | nil => exact .close
  | cons arg others ih =>
      have further := ih fun other found => readable other (List.mem_cons_of_mem _ found)
      obtain ⟨first, more, whole, second⟩ := (readable arg List.mem_cons_self).lexemes_cons
      simp only [List.map_cons, List.flatMap_cons, whole, List.cons_append, List.append_assoc]
      rcases second with ahead | ⟨opens, -, -⟩
      · cases more with
        | nil => exact .comma first further
        | cons next behind => exact .comma first (.longer ahead)
      · exact .headed _ (by simp [Grammar.argumentHeads, opens])

theorem behindCall_of_readable {args : List Expr} (readable : ∀ arg ∈ args, arg.Readable)
    (distinct : Bool) (after : List Lexeme) :
    BehindCall after ((if distinct then [.key "DISTINCT"] else []) ++
      commaJoined (args.map Expr.lexemes) ++ .mark ")" :: after) := by
  cases distinct with
  | true => exact .headed _ List.mem_cons_self
  | false =>
      rw [if_neg Bool.false_ne_true, List.nil_append]
      cases args with
      | nil => exact .close
      | cons arg others =>
          have further := behindItem_of_readable
            (fun other found => readable other (List.mem_cons_of_mem _ found)) after
          obtain ⟨first, more, whole, second⟩ := (readable arg List.mem_cons_self).lexemes_cons
          rw [List.map_cons, commaJoined_cons, whole, List.append_assoc, List.cons_append]
          rcases second with ahead | ⟨opens, -, -⟩
          · cases more with
            | nil => exact .item first further
            | cons next behind => exact .item first (.longer ahead)
          · exact .headed _ (by simp [Grammar.argumentHeads, opens])

namespace Expr

variable {level : Level} (rules : level.rules = .generic)

include rules

omit rules in
theorem typedLiteral?_of_plain {lexemes : List Lexeme}
    (plain : TypeShape.ofKeyword? (Grammar.frontKeyword lexemes) = none) :
    level.typedLiteral? lexemes = .ok (none, lexemes) := by
  rw [Level.typedLiteral?, Grammar.Reader.bind_of_ok (Grammar.Reader.get_apply _), plain]
  rfl

omit rules in
/-- A dotted name introduces no literal. -/
theorem typedLiteral?_dotted {first : Word} {tail rest : List Lexeme}
    (free : first.keyword ∉ operandWords)
    (dotted : tail = [] ∨ ∃ more, tail = .mark "." :: more) (follows : Follows rest)
    (untyped : tail = [] → first.keyword = "ARRAY" → Grammar.startsWithMark "<" rest = false) :
    level.typedLiteral? (.word first :: tail ++ rest) =
      .ok (none, .word first :: tail ++ rest) := by
  have behind : BehindName (tail ++ rest) := by
    rcases dotted with rfl | ⟨more, rfl⟩
    · exact follows.behindName
    · exact Ahead.mark _ (by decide)
  refine Grammar.typedLiteral?_of_balks fun shape found => ⟨?_, fun inner => ?_⟩
  · rintro rfl
    exact free (TypeShape.eq_interval found ▸ by decide)
  · refine behind.balks_shaped ?_ inner
    rintro rfl
    rcases dotted with rfl | ⟨more, rfl⟩
    · exact untyped rfl (TypeShape.eq_array found)
    · rfl

/-- The name of a call introduces no literal. -/
theorem typedLiteral?_call {word : Word} {lexemes after : List Lexeme}
    (free : word.keyword ∉ callWords) (call : BehindCall after lexemes) (follows : Follows after) :
    level.typedLiteral? (.word word :: .mark "(" :: lexemes) =
      .ok (none, .word word :: .mark "(" :: lexemes) := by
  refine Grammar.typedLiteral?_of_balks fun shape found => ⟨?_, fun inner => ?_⟩
  · rintro rfl
    exact free (TypeShape.eq_interval found ▸ by decide)
  · rw [rules]
    refine call.balks_shaped follows.behindName ?_ inner
    rintro rfl
    exact free (TypeShape.eq_array found ▸ by decide)

/-- An operand introduces no literal. -/
theorem Readable.typedLiteral? {expr : Expr} (readable : expr.Readable)
    (front : expr.isFront = true) (operand : expr.isOperand = true) {rest : List Lexeme}
    (follows : Follows rest)
    (untyped : expr.endsInArray = true → Grammar.startsWithMark "<" rest = false) :
    level.typedLiteral? (expr.lexemes ++ rest) = .ok (none, expr.lexemes ++ rest) := by
  have plain (keyword : String) (fixed : keyword ∈ fixedHeads) (head : expr.headKeyword = keyword) :
      level.typedLiteral? (expr.lexemes ++ rest) = .ok (none, expr.lexemes ++ rest) := by
    refine typedLiteral?_of_plain ?_
    rw [readable.frontKeyword, head]
    exact (by decide : ∀ keyword ∈ fixedHeads, TypeShape.ofKeyword? keyword = none) _ fixed
  cases expr with
  | column found =>
      obtain ⟨free, -⟩ : (Expr.column found).HasShape ∧ _ := readable
      simp only [HasShape, nameKeyword, Expr.front] at free
      simp only [endsInArray] at untyped
      rw [lexemes_column]
      cases qualifier : found.qualifier with
      | nil =>
          simp only [qualifier, List.isEmpty_nil, Bool.true_and, beq_iff_eq] at free untyped
          exact typedLiteral?_dotted free (.inl rfl) follows fun _ => untyped
      | cons owner others =>
          rw [qualifier] at free
          refine typedLiteral?_dotted free (.inr ?_) follows fun none => ?_
          · cases others <;> exact ⟨_, rfl⟩
          · cases others <;> cases none
  | literal value =>
      rcases value with _ | _ | _ | (_ | _) | _
      · exact plain "" (by decide) rfl
      · exact plain "" (by decide) rfl
      · exact plain "" (by decide) rfl
      · exact plain "FALSE" (by decide) rfl
      · exact plain "TRUE" (by decide) rfl
      · exact plain "NULL" (by decide) rfl
  | unary op operand =>
      cases op with
      | not => exact plain "NOT" (by decide) rfl
      | _ => exact plain "" (by decide) rfl
  | call name path args distinct =>
      obtain ⟨⟨⟨-, -, some, free⟩, kept, -, unlisted⟩, inner⟩ := readable
      rw [lexemes_call]
      rcases path with - | - | ⟨owner, others⟩
      · have free : (Word.plain (Dialect.duckDb.functionText name.value)).keyword ∉ callWords := by
          rw [functionText_of_kept kept]
          exact unlisted rfl
        have call := behindCall_of_readable (readable_of_everyExprs inner) distinct rest
        simpa using typedLiteral?_call rules free call follows
      · exact absurd rfl some
      · refine typedLiteral?_dotted free (.inr ⟨_, rfl⟩) follows fun none => ?_
        cases none
  | case operand conditions results otherwise => exact plain "CASE" (by decide) rfl
  | nested inner => exact plain "" (by decide) rfl
  | subquery query => exact plain "" (by decide) rfl
  | wildcard path => cases operand
  | _ => cases front

end Expr
end Sql
end SemanticLayer
