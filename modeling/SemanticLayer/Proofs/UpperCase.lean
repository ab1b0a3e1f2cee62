import SemanticLayer.Text.UpperCase

/-!
# Upper case written twice

The tables of upper case map to code points that they leave as they are, so a text in upper case is
its own upper case.
-/

namespace SemanticLayer
namespace Text

/-- Whether a run leaves a code point as it is. -/
def CaseRun.misses (run : CaseRun) (code : Nat) : Bool :=
  Nat.blt run.last code || Nat.blt code run.first ||
    (run.step == 2 && (code + run.first) % 2 == 1)

/-- Whether a code point is its own upper case. -/
def isUpperCode (code : Nat) : Bool :=
  (Nat.blt code 0x61 || Nat.blt 0x7A code) && upperExpansions.all (fun entry => entry.1 != code) &&
    upperRuns.all fun run => run.misses code

/-- Whether the upper case of a run lies apart from the code points of another run. -/
def CaseRun.apart (run other : CaseRun) : Bool :=
  Nat.blt (run.last + run.shift).toNat other.first ||
    Nat.blt other.last (run.first + run.shift).toNat ||
    (other.step == 2 && (run.step == 2 || run.first == run.last) &&
      ((run.first + run.shift).toNat + other.first) % 2 == 1)

/-- Whether the upper case of a run is its own upper case. -/
def CaseRun.rises (run : CaseRun) : Bool :=
  decide (0 ≤ run.first + run.shift) &&
    (Nat.blt (run.last + run.shift).toNat 0x61 || Nat.blt 0x7A (run.first + run.shift).toNat) &&
    (upperExpansions.all fun entry =>
      Nat.blt (run.last + run.shift).toNat entry.1 ||
        Nat.blt entry.1 (run.first + run.shift).toNat) &&
    upperRuns.all run.apart

theorem upperRuns_rise : upperRuns.all CaseRun.rises = true := by
  decide +kernel

theorem upperExpansions_rise :
    (upperExpansions.all fun entry => entry.2.all isUpperCode) = true := by
  decide +kernel

theorem upperChar_of_isUpperCode {c : Char} (isUpper : isUpperCode c.toNat = true) :
    upperChar c = [c] := by
  simp only [isUpperCode, Bool.and_eq_true, Bool.or_eq_true, Nat.blt_eq, List.all_eq_true,
    bne_iff_ne] at isUpper
  obtain ⟨⟨letters, single⟩, misses⟩ := isUpper
  unfold upperChar
  split
  next ascii =>
    have all : ∀ n : Fin 0x80, n.val < 0x61 ∨ 0x7A < n.val →
        (Char.ofNat n).toUpper = Char.ofNat n := by decide
    have same := all ⟨c.toNat, ascii⟩ letters
    rw [Char.ofNat_toNat] at same
    rw [same]
  next =>
    have alone : upperExpansions.lookup c.toNat = none :=
      List.lookup_eq_none_iff.mpr fun entry found => by simpa using (single entry found).symm
    have missed : (upperRuns.find? fun run =>
        run.first ≤ c.toNat && c.toNat ≤ run.last && (c.toNat - run.first) % run.step == 0) =
          none := by
      refine List.find?_eq_none.mpr fun run found => ?_
      have miss := misses run found
      simp only [CaseRun.misses, Bool.or_eq_true, Nat.blt_eq, Bool.and_eq_true, beq_iff_eq] at miss
      simp only [Bool.and_eq_true, decide_eq_true_eq, beq_iff_eq, not_and]
      intro low high
      rcases miss with (after | before) | ⟨even, odd⟩
      · omega
      · omega
      · rw [even] at high
        omega
    rw [alone, missed]

/-- The code points that a run maps to are their own upper case. -/
theorem CaseRun.isUpperCode_of_rises {run : CaseRun} (rises : run.rises = true) {code : Nat}
    (low : run.first ≤ code) (high : code ≤ run.last)
    (step : (code - run.first) % run.step = 0) : isUpperCode (code + run.shift).toNat = true := by
  simp only [CaseRun.rises, Bool.and_eq_true, Bool.or_eq_true, Nat.blt_eq, decide_eq_true_eq,
    List.all_eq_true] at rises
  obtain ⟨⟨⟨positive, letters⟩, expansions⟩, apart⟩ := rises
  simp only [isUpperCode, Bool.and_eq_true, Bool.or_eq_true, Nat.blt_eq, List.all_eq_true,
    bne_iff_ne]
  refine ⟨⟨by omega, fun entry found => ?_⟩, fun other found => ?_⟩
  · have := expansions entry found
    omega
  · have apart := apart other found
    simp only [CaseRun.apart, CaseRun.misses, Bool.or_eq_true, Nat.blt_eq, Bool.and_eq_true,
      beq_iff_eq] at apart ⊢
    rcases apart with (after | before) | ⟨⟨even, stride | single⟩, odd⟩
    · omega
    · omega
    · rw [stride] at step
      omega
    · omega

/-- What upper case writes is its own upper case. -/
theorem upperChar_of_mem {c d : Char} (found : d ∈ upperChar c) : upperChar d = [d] := by
  -- A code that is no character stands for the character zero.
  have ofCode {code : Nat} (isUpper : isUpperCode code = true) :
      upperChar (Char.ofNat code) = [Char.ofNat code] := by
    refine upperChar_of_isUpperCode ?_
    by_cases valid : code.isValidChar
    · rw [Char.ofNat, dif_pos valid]
      exact isUpper
    · rw [Char.ofNat, dif_neg valid]
      decide +kernel
  unfold upperChar at found
  split at found
  next ascii =>
    have all : ∀ n : Fin 0x80, (Char.ofNat n).toUpper.toNat < 0x80 ∧
        (Char.ofNat n).toUpper.toUpper = (Char.ofNat n).toUpper := by decide
    obtain rfl : d = c.toUpper := by simpa using found
    obtain ⟨small, same⟩ := all ⟨c.toNat, ascii⟩
    rw [Char.ofNat_toNat] at small same
    rw [upperChar, if_pos small, same]
  next high =>
    split at found
    next codes several =>
      obtain ⟨code, isCode, rfl⟩ := List.mem_map.mp found
      obtain ⟨front, back, whole, -⟩ := List.lookup_eq_some_iff.mp several
      exact ofCode (List.all_eq_true.mp (List.all_eq_true.mp upperExpansions_rise
        (c.toNat, codes) (by simp [whole])) code isCode)
    next alone =>
      split at found
      next run search =>
        obtain rfl : d = Char.ofNat (c.toNat + run.shift).toNat := by simpa using found
        have bounds := List.find?_some search
        simp only [Bool.and_eq_true, decide_eq_true_eq, beq_iff_eq] at bounds
        obtain ⟨⟨low, last⟩, step⟩ := bounds
        exact ofCode (CaseRun.isUpperCode_of_rises
          (List.all_eq_true.mp upperRuns_rise run (List.mem_of_find?_eq_some search)) low last step)
      next missed =>
        obtain rfl : d = c := by simpa using found
        rw [upperChar, if_neg high, alone, missed]

/-- A text of characters that upper case writes is its own upper case. -/
theorem upper_of_mem {text : String} (each : ∀ d ∈ text.toList, ∃ c, d ∈ upperChar c) :
    upper text = text := by
  have same : ∀ chars : List Char, (∀ d ∈ chars, ∃ c, d ∈ upperChar c) →
      chars.flatMap upperChar = chars := by
    intro chars
    induction chars with
    | nil => simp
    | cons d rest ih =>
        intro each
        obtain ⟨c, found⟩ := each d List.mem_cons_self
        simp [upperChar_of_mem found, ih fun e inside => each e (List.mem_cons_of_mem _ inside)]
  rw [upper, same _ each, String.ofList_toList]

/-- Upper case written in upper case stays. -/
theorem upper_upper (text : String) : upper (upper text) = upper text := by
  refine upper_of_mem fun d found => ?_
  obtain ⟨c, -, inside⟩ := List.mem_flatMap.mp (by simpa [upper] using found)
  exact ⟨c, inside⟩

end Text
end SemanticLayer
