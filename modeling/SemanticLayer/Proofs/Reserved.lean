import SemanticLayer.Proofs.Shapes

/-!
# Reserved words

An identifier that would be read as a reserved word is written in quotes, so no bare word of a
written name is one, in whatever case.
-/

namespace SemanticLayer

namespace Text

theorem toLower_toUpper {c : Char} (ascii : c.toNat < 0x80) : c.toUpper.toLower = c.toLower := by
  have all : ∀ n : Fin 0x80, (Char.ofNat n).toUpper.toLower = (Char.ofNat n).toLower := by decide
  have same := all ⟨c.toNat, ascii⟩
  rwa [Char.ofNat_toNat] at same

theorem flatMap_upperChar {chars : List Char} (ascii : ∀ c ∈ chars, c.toNat < 0x80) :
    chars.flatMap upperChar = chars.map Char.toUpper := by
  induction chars with
  | nil => rfl
  | cons c rest ih =>
      have first := ascii c List.mem_cons_self
      have others := ih fun d found => ascii d (List.mem_cons_of_mem _ found)
      simp [upperChar, first, others]

/-- A text of ASCII and the one in upper case are the same in lower case. -/
theorem asciiLower_upper {text : String} (ascii : ∀ c ∈ text.toList, c.toNat < 0x80) :
    asciiLower (upper text) = asciiLower text := by
  simp only [asciiLower, upper, flatMap_upperChar ascii, String.toList_ofList, List.map_map]
  congr 1
  refine List.map_congr_left fun c found => ?_
  exact toLower_toUpper (ascii c found)

end Text

namespace Sql

theorem toNat_lt_of_isBareIdentifier {chars : List Char} (bare : isBareIdentifier chars = true) :
    ∀ c ∈ chars, c.toNat < 0x80 := by
  cases chars with
  | nil => simp
  | cons first more =>
      simp only [isBareIdentifier, Bool.and_eq_true, Bool.or_eq_true, beq_iff_eq,
        List.all_eq_true, Char.isAlphanum] at bare
      intro c found
      rcases List.mem_cons.mp found with rfl | found
      · rcases bare.1 with letter | rfl
        · exact Nat.lt_of_le_of_lt (Text.toNat_of_isAlpha letter).2 (by decide)
        · decide
      · rcases bare.2 c found with (letter | digit) | rfl
        · exact Nat.lt_of_le_of_lt (Text.toNat_of_isAlpha letter).2 (by decide)
        · exact Nat.lt_of_le_of_lt (Text.toNat_of_isDigit digit).2 (by decide)
        · decide

namespace Name

@[simp]
theorem value_written (name : Name) : name.written.value = name.value := by
  unfold written writtenName
  split <;> rfl

/-- A name is written in quotes, or it is a bare word that is not reserved. -/
theorem written_cases (name : Name) :
    name.written = .quoted name.value '"' ∨
      (name.written = .plain name.value ∧
        Text.asciiLower (Text.upper name.value) ∉ reservedWords) := by
  unfold written writtenName
  cases quoted : name.quote.isSome || needsQuoting name.value with
  | true => exact .inl (if_pos rfl)
  | false =>
      obtain ⟨-, needless⟩ := Bool.or_eq_false_iff.mp quoted
      obtain ⟨bare, free⟩ := Bool.or_eq_false_iff.mp needless
      have ascii := toNat_lt_of_isBareIdentifier (by simpa using bare)
      refine .inr ⟨if_neg (by simp), ?_⟩
      rw [Text.asciiLower_upper ascii]
      simpa using free

/-- The keyword of a written name is no reserved word. -/
theorem written_keyword_ne (name : Name) {keyword : String}
    (reserved : Text.asciiLower keyword ∈ reservedWords) : name.written.keyword ≠ keyword := by
  rintro rfl
  rcases name.written_cases with same | ⟨same, free⟩
  · rw [same] at reserved
    exact absurd reserved (by decide : Text.asciiLower "" ∉ reservedWords)
  · rw [same] at reserved
    exact free reserved

end Name

end Sql
end SemanticLayer
