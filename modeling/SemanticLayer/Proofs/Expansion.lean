import SemanticLayer.Config.Settings
import SemanticLayer.Proofs.Outcomes
import SemanticLayer.Proofs.Scans

/-!
# Expansion of variables

A text is made of segments in just one way: plain characters, dollars that stand alone, and
references, which are bare names as long as they can be, or names in braces up to the first closing
brace or to the end of the text. Each reference becomes the value of its variable, which is not
looked into again, and texts that are cut between two segments are expanded apart.
-/

namespace SemanticLayer.Config

/-- A segment of a text as it is written. -/
inductive Segment where
  | plain (char : Char)
  | dollar
  | bare (name : List Char)
  | braced (name : List Char)
  | unclosed (name : List Char)
  deriving DecidableEq, Repr

namespace Segment

/-- The characters that a segment is written with. -/
def chars : Segment → List Char
  | plain c => [c]
  | dollar => ['$']
  | bare name => '$' :: name
  | braced name => '$' :: '\x7b' :: (name ++ ['\x7d'])
  | unclosed name => '$' :: '\x7b' :: name

/-- The name of the variable that a segment refers to. -/
def name? : Segment → Option String
  | plain _ | dollar => none
  | bare name | braced name | unclosed name => some (String.ofList name)

/-- Whether a segment ends in front of the given characters: a bare name goes as far as it can, one
in braces to the first closing brace, or to the end where there is none, and a dollar without a name
stands alone. -/
def Ends (rest : List Char) : Segment → Prop
  | plain c => c ≠ '$'
  | dollar => ∀ c ∈ rest.head?, c ≠ '\x7b' ∧ isVariableChar c = false
  | bare name =>
    (name ≠ [] ∧ ∀ c ∈ name, isVariableChar c = true) ∧
      ∀ c ∈ rest.head?, isVariableChar c = false
  | braced name => '\x7d' ∉ name
  | unclosed name => '\x7d' ∉ name ∧ rest = []

/-- The text that a segment becomes: the value of its variable, or itself. -/
def expansion (environment : String → Option String) (segment : Segment) : String :=
  segment.name?.elim (String.ofList segment.chars) fun name => (environment name).getD ""

/-- The piece that a segment is read as. -/
def piece : Segment → Piece
  | plain c => .plain c
  | dollar => .plain '$'
  | bare name | braced name | unclosed name => .ofName name

end Segment

/-- Whether a text is made of segments, each of which ends where the next one starts. -/
inductive Decomposes : List Segment → List Char → Prop
  | nil : Decomposes [] []
  | cons {segment : Segment} {segments : List Segment} {rest : List Char}
      (ends : segment.Ends rest) (later : Decomposes segments rest) :
      Decomposes (segment :: segments) (segment.chars ++ rest)

/-! ## One decomposition -/

namespace Segment

/-- The segment that a text starts with, and the characters behind it. -/
def first (c : Char) (rest : List Char) : Segment × List Char :=
  if c ≠ '$' then (plain c, rest)
  else if rest.head? = some '\x7b' then
    if '\x7d' ∈ rest.tail then
      (braced (rest.tail.takeWhile (· != '\x7d')), (rest.tail.dropWhile (· != '\x7d')).tail)
    else (unclosed rest.tail, [])
  else if rest.takeWhile isVariableChar = [] then (dollar, rest)
  else (bare (rest.takeWhile isVariableChar), rest.dropWhile isVariableChar)

theorem not_isVariableChar_brace : isVariableChar '\x7b' = false := by decide

/-- The characters of a name in braces. -/
theorem ne_brace_of_mem {name : List Char} (closed : '\x7d' ∉ name) :
    ∀ c ∈ name, (c != '\x7d') = true := by
  intro c found
  rw [bne_iff_ne]
  rintro rfl
  exact closed found

/-- A segment that ends in front of a text is the one that both start with. -/
theorem first_of_ends {segment : Segment} {rest : List Char} (ends : segment.Ends rest) :
    ∃ c more, segment.chars ++ rest = c :: more ∧ first c more = (segment, rest) := by
  cases segment with
  | plain c => exact ⟨c, rest, rfl, if_pos ends⟩
  | dollar =>
      refine ⟨'$', rest, rfl, ?_⟩
      have alone : rest.head? ≠ some '\x7b' := fun found => (ends _ found).1 rfl
      have none : rest.takeWhile isVariableChar = [] := by
        cases rest with
        | nil => rfl
        | cons c more => simp [(ends c rfl).2]
      rw [first, if_neg (by simp), if_neg alone, if_pos none]
  | bare name =>
      obtain ⟨⟨some, all⟩, ends⟩ := ends
      refine ⟨'$', name ++ rest, rfl, ?_⟩
      have taken := Text.takeWhile_of_stops all ends
      have dropped := Text.dropWhile_of_stops all ends
      have unbraced : (name ++ rest).head? ≠ Option.some '\x7b' := by
        obtain ⟨c, more, rfl⟩ := List.exists_cons_of_ne_nil some
        intro found
        obtain rfl : c = '\x7b' := Option.some.inj found
        have inName := all _ List.mem_cons_self
        rw [not_isVariableChar_brace] at inName
        cases inName
      rw [first, if_neg (by simp), if_neg unbraced, taken, dropped, if_neg some]
  | braced name =>
      refine ⟨'$', '\x7b' :: (name ++ '\x7d' :: rest), by simp [chars], ?_⟩
      have stops : ∀ c ∈ ('\x7d' :: rest).head?, (c != '\x7d') = false := by simp
      have taken := Text.takeWhile_of_stops (ne_brace_of_mem ends) stops
      have dropped := Text.dropWhile_of_stops (ne_brace_of_mem ends) stops
      simp [first, taken, dropped]
  | unclosed name =>
      obtain ⟨closed, rfl⟩ := ends
      exact ⟨'$', '\x7b' :: name, by simp [chars], by simp [first, closed]⟩

/-- A text that is not empty starts with a segment. -/
theorem exists_ends (c : Char) (rest : List Char) :
    ∃ (segment : Segment) (behind : List Char), segment.Ends behind ∧
      segment.chars ++ behind = c :: rest := by
  by_cases other : c = '$'
  · subst other
    by_cases brace : rest.head? = some '\x7b'
    · obtain ⟨more, rfl⟩ : ∃ more, rest = '\x7b' :: more := by
        cases rest with
        | nil => cases brace
        | cons d more => exact ⟨more, by rw [Option.some.inj brace]⟩
      by_cases closed : '\x7d' ∈ more
      · obtain ⟨name, behind, rfl, inside⟩ := List.eq_append_cons_of_mem closed
        exact ⟨braced name, behind, inside, by simp [chars]⟩
      · exact ⟨unclosed more, [], ⟨closed, rfl⟩, by simp [chars]⟩
    · have behind := Text.stops_dropWhile isVariableChar rest
      by_cases none : rest.takeWhile isVariableChar = []
      · have same : rest.dropWhile isVariableChar = rest := by
          conv => rhs; rw [← List.takeWhile_append_dropWhile (p := isVariableChar) (l := rest), none]
          rfl
        rw [same] at behind
        refine ⟨dollar, rest, fun c found => ⟨?_, behind c found⟩, rfl⟩
        rintro rfl
        exact brace found
      · refine ⟨bare (rest.takeWhile isVariableChar), rest.dropWhile isVariableChar,
          ⟨⟨none, List.all_eq_true.1 List.all_takeWhile⟩, behind⟩, ?_⟩
        rw [chars, List.cons_append, List.takeWhile_append_dropWhile]
  · exact ⟨plain c, rest, other, rfl⟩

/-- Where a segment ends is told by the first character behind it. -/
theorem ends_append {segment : Segment} {rest : List Char} (some : rest ≠ []) (behind : List Char) :
    segment.Ends (rest ++ behind) ↔ segment.Ends rest := by
  cases segment <;> simp [Ends, List.head?_append_of_ne_nil _ some, some]

/-! ## Pieces -/

theorem ofChars_bareName {more rest : List Char} (all : ∀ c ∈ more, isVariableChar c = true)
    (ends : ∀ c ∈ rest.head?, isVariableChar c = false) (name : List Char) :
    Piece.ofChars (.bareName name) (more ++ rest) =
      .ofName (name ++ more) :: Piece.ofChars .text rest := by
  induction more generalizing name with
  | nil =>
      cases rest with
      | nil => simp [Piece.ofChars]
      | cons c behind =>
          have other := ends c rfl
          rcases eq_or_ne c '$' with rfl | noDollar
          · simp [Piece.ofChars, other]
          · simp [Piece.ofChars, other, noDollar]
  | cons c more ih =>
      obtain ⟨here, later⟩ := List.forall_mem_cons.1 all
      rw [List.cons_append, Piece.ofChars, if_pos here, ih later, List.append_assoc]
      rfl

theorem ofChars_bracedName {more : List Char} (closed : '\x7d' ∉ more) (name rest : List Char) :
    Piece.ofChars (.bracedName name) (more ++ '\x7d' :: rest) =
      .ofName (name ++ more) :: Piece.ofChars .text rest := by
  induction more generalizing name with
  | nil => simp [Piece.ofChars]
  | cons c more ih =>
      obtain ⟨other, later⟩ := not_or.1 (List.mem_cons.not.1 closed)
      rw [List.cons_append, Piece.ofChars, if_neg (Ne.symm other), ih later, List.append_assoc]
      rfl

theorem ofChars_bracedName_end {more : List Char} (closed : '\x7d' ∉ more) (name : List Char) :
    Piece.ofChars (.bracedName name) more = [.ofName (name ++ more)] := by
  induction more generalizing name with
  | nil => simp [Piece.ofChars]
  | cons c more ih =>
      obtain ⟨other, later⟩ := not_or.1 (List.mem_cons.not.1 closed)
      rw [Piece.ofChars, if_neg (Ne.symm other), ih later, List.append_assoc]
      rfl

/-- A segment is cut off where it ends. -/
theorem ofChars_append {segment : Segment} {rest : List Char} (ends : segment.Ends rest) :
    Piece.ofChars .text (segment.chars ++ rest) = segment.piece :: Piece.ofChars .text rest := by
  cases segment with
  | plain c =>
      rw [chars, List.singleton_append, Piece.ofChars, if_neg ends]
      rfl
  | dollar =>
      rw [chars, List.singleton_append, Piece.ofChars, if_pos rfl]
      cases rest with
      | nil => rfl
      | cons c more =>
          obtain ⟨noBrace, noName⟩ := ends c rfl
          rcases eq_or_ne c '$' with rfl | noDollar
          · simp [Piece.ofChars, noName, piece]
          · simp [Piece.ofChars, noBrace, noName, noDollar, piece]
  | bare name =>
      obtain ⟨⟨some, all⟩, ends⟩ := ends
      obtain ⟨c, more, rfl⟩ := List.exists_cons_of_ne_nil some
      obtain ⟨here, later⟩ := List.forall_mem_cons.1 all
      have noBrace : c ≠ '\x7b' := by
        rintro rfl
        cases not_isVariableChar_brace.symm.trans here
      have cut := ofChars_bareName later ends [c]
      rw [chars, List.cons_append, Piece.ofChars, if_pos rfl, List.cons_append, Piece.ofChars,
        if_neg noBrace, if_pos here, cut]
      rfl
  | braced name =>
      have cut := ofChars_bracedName ends [] rest
      rw [List.nil_append] at cut
      simp [chars, Piece.ofChars, cut, piece]
  | unclosed name =>
      obtain ⟨closed, rfl⟩ := ends
      have cut := ofChars_bracedName_end closed []
      rw [List.nil_append] at cut
      simp [chars, Piece.ofChars, cut, piece]

end Segment

namespace Decomposes

variable {segments others : List Segment} {text : List Char}

/-- A text is made of some segments. -/
theorem exists_of_text (text : List Char) : ∃ segments, Decomposes segments text := by
  induction length : text.length using Nat.strongRecOn generalizing text with
  | ind size ih =>
      cases text with
      | nil => exact ⟨[], .nil⟩
      | cons c rest =>
          obtain ⟨segment, behind, ends, whole⟩ := Segment.exists_ends c rest
          have shorter : behind.length < size := by
            have lengths := congrArg List.length whole
            have some : 0 < segment.chars.length := by cases segment <;> simp [Segment.chars]
            rw [List.length_append, length] at lengths
            omega
          obtain ⟨segments, later⟩ := ih _ shorter behind rfl
          exact ⟨segment :: segments, whole ▸ .cons ends later⟩

/-- No text is made of segments in two ways. -/
theorem unique (first : Decomposes segments text) (second : Decomposes others text) :
    others = segments := by
  induction first generalizing others with
  | nil =>
      generalize none : ([] : List Char) = chars at second
      cases second with
      | nil => rfl
      | @cons segment _ _ _ _ => cases segment <;> cases none
  | cons ends _ ih =>
      obtain ⟨c, more, whole, starts⟩ := Segment.first_of_ends ends
      rw [whole] at second
      generalize same : c :: more = chars at second
      cases second with
      | nil => cases same
      | cons ends' later =>
          obtain ⟨d, more', whole', starts'⟩ := Segment.first_of_ends ends'
          rw [whole'] at same
          cases same
          rw [starts] at starts'
          cases starts'
          rw [ih later]

theorem cons_iff {segment : Segment} {rest : List Char} :
    Decomposes (segment :: segments) (segment.chars ++ rest) ↔
      segment.Ends rest ∧ Decomposes segments rest := by
  refine ⟨fun whole => ?_, fun parts => .cons parts.1 parts.2⟩
  generalize same : segment.chars ++ rest = chars at whole
  cases whole with
  | cons ends later => exact List.append_cancel_left same ▸ ⟨ends, later⟩

theorem ne_nil {segment : Segment} (whole : Decomposes (segment :: segments) text) : text ≠ [] := by
  cases whole with
  | cons _ _ => cases segment <;> simp [Segment.chars]

/-- The segments of a text start those of a longer one just if the last of them ends there. -/
theorem append_iff {front behind : List Char} (first : Decomposes segments front) :
    Decomposes (segments ++ others) (front ++ behind) ↔
      (∀ last ∈ segments.getLast?, last.Ends behind) ∧ Decomposes others behind := by
  induction first with
  | nil => simp
  | @cons segment segments rest ends later ih =>
      rw [List.cons_append, List.append_assoc, cons_iff, ih]
      cases segments with
      | nil =>
          cases later
          simp
      | cons next more =>
          rw [Segment.ends_append later.ne_nil, List.getLast?_cons_cons]
          exact and_iff_right ends

/-- The segments of a text are the pieces that it is cut into. -/
theorem ofChars_eq (whole : Decomposes segments text) :
    Piece.ofChars .text text = segments.map Segment.piece := by
  induction whole with
  | nil => rfl
  | cons ends _ ih => rw [Segment.ofChars_append ends, ih, List.map_cons]

end Decomposes

/-! ## What a text becomes -/

variable (environment : String → Option String)

/-- The names of the variables that segments refer to, from the left. -/
def Segment.names (segments : List Segment) : List String :=
  segments.filterMap name?

/-- The first of some names that is no variable. -/
def unknownName? (names : List String) : Option String :=
  names.find? fun name => (environment name).isNone

variable {environment} in
/-- A segment becomes its expansion, if it refers to nothing but a variable. -/
theorem Segment.value_piece {segment : Segment}
    (known : ∀ name ∈ segment.name?, (environment name).isSome = true) :
    Piece.value environment segment.piece = .ok (segment.expansion environment) := by
  cases segment with
  | plain c => rfl
  | dollar => rfl
  | bare name | braced name | unclosed name =>
      obtain ⟨value, found⟩ := Option.isSome_iff_exists.1 (known _ rfl)
      simp [Piece.value, piece, Piece.ofName, expansion, name?, found]

variable {environment} in
/-- A reference to what is no variable is refused for its name. -/
theorem Segment.value_piece_of_unknown {segment : Segment} {name : String}
    (named : segment.name? = some name) (unknown : environment name = none) :
    Piece.value environment segment.piece = .error name := by
  cases segment <;> cases named <;> simp [Piece.value, piece, Piece.ofName, unknown]

/-- What some segments become, one after the other: their expansions, unless one of them refers to
what is no variable. -/
theorem mapM_value_eq (segments : List Segment) :
    (segments.map Segment.piece).mapM (Piece.value environment) =
      (unknownName? environment (Segment.names segments)).elim
        (.ok (segments.map (Segment.expansion environment))) .error := by
  induction segments with
  | nil => rfl
  | cons segment rest ih =>
      rw [List.map_cons, List.mapM_cons, ih]
      cases named : segment.name? with
      | none =>
          have names : Segment.names (segment :: rest) = Segment.names rest :=
            List.filterMap_cons_none named
          rw [Result.bind_of_ok (Segment.value_piece (by simp [named])), names]
          cases unknownName? environment (Segment.names rest) <;> rfl
      | some name =>
          have names : Segment.names (segment :: rest) = name :: Segment.names rest :=
            List.filterMap_cons_some named
          cases found : environment name with
          | none =>
              have first : unknownName? environment (name :: Segment.names rest) = some name :=
                List.find?_cons_of_pos (by simp [found])
              rw [Result.bind_of_error (Segment.value_piece_of_unknown named found), names, first]
              rfl
          | some value =>
              have later : unknownName? environment (name :: Segment.names rest) =
                  unknownName? environment (Segment.names rest) :=
                List.find?_cons_of_neg (by simp [found])
              rw [Result.bind_of_ok (Segment.value_piece (by simp [named, found])), names, later]
              cases unknownName? environment (Segment.names rest) <;> rfl

/-- What a text becomes, told by its segments. -/
theorem Decomposes.expandVariables_eq {segments : List Segment} {text : String}
    (whole : Decomposes segments text.toList) :
    expandVariables environment text =
      (unknownName? environment (Segment.names segments)).elim
        (.ok (String.join (segments.map (Segment.expansion environment)))) .error := by
  rw [expandVariables, pieces, whole.ofChars_eq, mapM_value_eq]
  cases unknownName? environment (Segment.names segments) <;> rfl

/-- Texts that are cut between two segments are expanded apart. -/
theorem Decomposes.expandVariables_append {front behind : List Segment} {text other : String}
    (first : Decomposes front text.toList) (second : Decomposes behind other.toList)
    (ends : ∀ last ∈ front.getLast?, last.Ends other.toList) :
    expandVariables environment (text ++ other) = (do
      let start ← expandVariables environment text
      let rest ← expandVariables environment other
      pure (start ++ rest)) := by
  have both : Decomposes (front ++ behind) (text ++ other).toList := by
    rw [String.toList_append]
    exact first.append_iff.2 ⟨ends, second⟩
  have names : unknownName? environment (Segment.names (front ++ behind)) =
      (unknownName? environment (Segment.names front)).or
        (unknownName? environment (Segment.names behind)) := by
    rw [Segment.names, List.filterMap_append]
    exact List.find?_append
  rw [both.expandVariables_eq, first.expandVariables_eq, second.expandVariables_eq, names,
    List.map_append, String.join_append]
  cases unknownName? environment (Segment.names front) with
  | some name => rfl
  | none => cases unknownName? environment (Segment.names behind) <;> rfl

/-- A text is made of segments in one way. It becomes what they become from the left to the right,
each reference the value of its variable as it is, or it is refused for the first name that is no
variable. Cut behind a segment, and there only, it is expanded in two parts. -/
theorem variables_are_expanded_once (text : String) :
    ∃ segments, Decomposes segments text.toList ∧
      (∀ others, Decomposes others text.toList → others = segments) ∧
      expandVariables environment text =
        (unknownName? environment (Segment.names segments)).elim
          (.ok (String.join (segments.map (Segment.expansion environment)))) .error ∧
      (∀ database : Catalog.Database,
        Settings.expandUri environment { database with uri := text } =
          (unknownName? environment (Segment.names segments)).elim
            (.ok { database with
              uri := String.join (segments.map (Segment.expansion environment)) })
            fun name => .error (.missingVariable name)) ∧
      ∀ other : String,
        ((∃ later, Decomposes (segments ++ later) (text ++ other).toList) ↔
          ∀ last ∈ segments.getLast?, last.Ends other.toList) ∧
        ((∀ last ∈ segments.getLast?, last.Ends other.toList) →
          expandVariables environment (text ++ other) = (do
            let start ← expandVariables environment text
            let rest ← expandVariables environment other
            pure (start ++ rest))) := by
  obtain ⟨segments, whole⟩ := Decomposes.exists_of_text text.toList
  have expanded := whole.expandVariables_eq environment
  refine ⟨segments, whole, fun others again => whole.unique again, expanded, fun database => ?_,
    fun other => ?_⟩
  · rw [Settings.expandUri, expanded]
    cases unknownName? environment (Segment.names segments) <;> rfl
  · obtain ⟨later, behind⟩ := Decomposes.exists_of_text other.toList
    refine ⟨?_, whole.expandVariables_append environment behind⟩
    rw [String.toList_append]
    constructor
    · rintro ⟨others, both⟩
      exact (whole.append_iff.1 both).1
    · exact fun ends => ⟨later, whole.append_iff.2 ⟨ends, behind⟩⟩

/-- Two variables, the value of the first of which looks like a reference to the second. -/
def portVariables : String → Option String :=
  fun name => if name = "HOST" then some "$PORT" else if name = "PORT" then some "5432" else none

/-- An address is cut behind its last reference. What stands for the first one is kept as it is. -/
theorem variables_are_expanded_once_address :
    ∃ segments : List Segment, (∀ last ∈ segments.getLast?, last.Ends "/$".toList) ∧
      expandVariables portVariables ("$\x7bHOST\x7d:$PORT" ++ "/$") = (do
        let start ← expandVariables portVariables "$\x7bHOST\x7d:$PORT"
        let rest ← expandVariables portVariables "/$"
        pure (start ++ rest)) ∧
      expandVariables portVariables ("$\x7bHOST\x7d:$PORT" ++ "/$") = .ok "$PORT:5432/$" := by
  obtain ⟨segments, -, only, -, -, cut⟩ :=
    variables_are_expanded_once portVariables "$\x7bHOST\x7d:$PORT"
  have port : "PORT".toList ≠ [] ∧ ∀ c ∈ "PORT".toList, isVariableChar c = true :=
    ⟨by decide, List.all_eq_true.1 (by decide)⟩
  have whole : Decomposes [.braced "HOST".toList, .plain ':', .bare "PORT".toList]
      "$\x7bHOST\x7d:$PORT".toList := by
    have last : (Segment.bare "PORT".toList).Ends [] := ⟨port, by simp⟩
    have middle : (Segment.plain ':').Ends "$PORT".toList := by simp [Segment.Ends]
    have first : (Segment.braced "HOST".toList).Ends ":$PORT".toList := by simp [Segment.Ends]
    exact .cons first (.cons middle (.cons last .nil))
  have same := only _ whole
  subst same
  have ends : ∀ last ∈ [Segment.braced "HOST".toList, .plain ':', .bare "PORT".toList].getLast?,
      last.Ends "/$".toList := by
    rintro last ⟨⟩
    exact ⟨port, by simp; decide⟩
  have apart := (cut "/$").2 ends
  exact ⟨_, ends, apart, by rw [apart]; decide +kernel⟩

end SemanticLayer.Config
