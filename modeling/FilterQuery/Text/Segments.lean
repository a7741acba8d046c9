/-!
# Dotted paths

A dotted path is a text cut at every `.`.  Cutting never gives an empty list,
no piece holds the separator, and joining the pieces with the separator gives
the text back.
-/

namespace FilterQuery.Text

/-- The pieces of a text between the occurrences of a separator. -/
def splitAt (separator : Char) : List Char → List (List Char)
  | [] => [[]]
  | c :: rest =>
      if c = separator then [] :: splitAt separator rest
      else
        match splitAt separator rest with
        | [] => [[c]]
        | piece :: pieces => (c :: piece) :: pieces

/-- The segments of a dotted path, in order. -/
def segments (path : String) : List String :=
  (splitAt '.' path.toList).map String.ofList

/-- The dotted path with the given segments. -/
def dotted (segments : List String) : String :=
  ".".intercalate segments

theorem splitAt_ne_nil (separator : Char) (text : List Char) :
    splitAt separator text ≠ [] := by
  cases text with
  | nil => simp [splitAt]
  | cons c rest =>
      rw [splitAt]
      split
      · simp
      · split <;> simp

/-- No piece holds the separator. -/
theorem separator_not_mem_of_mem_splitAt {separator : Char} {text piece : List Char}
    (h : piece ∈ splitAt separator text) : separator ∉ piece := by
  induction text generalizing piece with
  | nil => simp_all [splitAt]
  | cons c rest ih =>
      rw [splitAt] at h
      split at h
      · rcases List.mem_cons.mp h with rfl | h
        · simp
        · exact ih h
      · rename_i hc
        split at h
        · simp_all [Ne.symm hc]
        · rename_i first others hsplit
          rcases List.mem_cons.mp h with rfl | h
          · have hfirst : separator ∉ first := ih (by rw [hsplit]; simp)
            simp [hfirst, Ne.symm hc]
          · exact ih (by rw [hsplit]; simp [h])

theorem segments_ne_nil (path : String) : segments path ≠ [] := by
  simp [segments, splitAt_ne_nil]

/-- No segment holds a dot. -/
theorem dot_not_mem_of_mem_segments {path segment : String} (h : segment ∈ segments path) :
    '.' ∉ segment.toList := by
  obtain ⟨piece, hpiece, rfl⟩ := List.mem_map.mp h
  simpa using separator_not_mem_of_mem_splitAt hpiece

/-! ## Cutting and joining -/

/-- Cutting is the library's `splitOn`. -/
theorem splitAt_eq_splitOn (separator : Char) (text : List Char) :
    splitAt separator text = text.splitOn separator := by
  induction text with
  | nil => rfl
  | cons c rest ih =>
      rw [splitAt, List.splitOn_cons_eq_if_modifyHead, ih]
      by_cases hc : c = separator
      · simp [hc]
      · simp only [hc, beq_iff_eq, if_false]
        obtain ⟨piece, pieces, hsplit⟩ :=
          List.exists_cons_of_ne_nil (List.splitOn_ne_nil separator rest)
        simp [hsplit]

/-- Joining the segments of a path gives the path back. -/
@[simp]
theorem dotted_segments (path : String) : dotted (segments path) = path := by
  apply String.toList_inj.mp
  simp [dotted, segments, splitAt_eq_splitOn]

/-- Different paths have different segments. -/
theorem segments_injective {path other : String} (h : segments path = segments other) :
    path = other := by
  rw [← dotted_segments path, h, dotted_segments]

/-- Cutting a joined path gives its segments back, if there are any and none of them holds
a dot. -/
theorem segments_dotted {path : List String} (hne : path ≠ [])
    (plain : ∀ segment ∈ path, '.' ∉ segment.toList) : segments (dotted path) = path := by
  have cut : List.splitOn '.' (['.'].intercalate (path.map String.toList)) =
      path.map String.toList := by
    apply List.splitOn_intercalate
    · simpa using plain
    · simpa using hne
  simp [segments, dotted, splitAt_eq_splitOn, cut]

end FilterQuery.Text
