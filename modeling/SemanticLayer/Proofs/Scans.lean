/-!
# Scans

Where a scan over characters stops: at the end of what it takes, if what stands behind is not taken.
-/

namespace SemanticLayer.Text

variable {takes : Char → Bool} {front behind : List Char}

/-- A scan takes what it is in front of, up to what it stops at. -/
theorem takeWhile_of_stops (all : ∀ c ∈ front, takes c = true)
    (stops : ∀ c ∈ behind.head?, takes c = false) : (front ++ behind).takeWhile takes = front := by
  rw [List.takeWhile_append_of_pos all]
  cases behind with
  | nil => simp
  | cons c rest => simp [stops c rfl]

/-- A scan leaves what it stops at, and all behind. -/
theorem dropWhile_of_stops (all : ∀ c ∈ front, takes c = true)
    (stops : ∀ c ∈ behind.head?, takes c = false) : (front ++ behind).dropWhile takes = behind := by
  rw [List.dropWhile_append_of_pos all]
  cases behind with
  | nil => simp
  | cons c rest => simp [stops c rfl]

/-- What a scan leaves starts with something that it stops at. -/
theorem stops_dropWhile (takes : Char → Bool) (chars : List Char) :
    ∀ c ∈ (chars.dropWhile takes).head?, takes c = false := by
  intro c found
  have stops := List.head?_dropWhile_not takes chars
  rw [Option.mem_def.1 found] at stops
  simpa using stops

end SemanticLayer.Text
