import TypedExports.Text.Basic

/-!
# Search

`cut? mark s` cuts a text at the first place where a mark stands. The search walks the text once
and keeps what it has seen; `cut?_cons` is the equation by which the rest of the library reasons
about it, and `eq_append_of_cut?` says that nothing is lost.
-/

namespace TypedExports.Text

/-- The search, with the characters already seen in reverse order. -/
def cutFrom? (mark seen : Text) : Text → Option (Text × Text)
  | [] => (after? mark []).map (seen.reverse, ·)
  | c :: s =>
    match after? mark (c :: s) with
    | some rest => some (seen.reverse, rest)
    | none => cutFrom? mark (c :: seen) s

/-- What stands before and after the first occurrence of `mark`. -/
def cut? (mark s : Text) : Option (Text × Text) := cutFrom? mark [] s

theorem cutFrom?_eq (mark seen s : Text) :
    cutFrom? mark seen s = (cut? mark s).map fun cut => (seen.reverse ++ cut.1, cut.2) := by
  unfold cut?
  induction s generalizing seen with
  | nil => simp [cutFrom?, Function.comp_def]
  | cons c s ih =>
    simp only [cutFrom?]
    cases after? mark (c :: s) with
    | some rest => simp
    | none =>
      rw [ih, ih [c]]
      simp [Function.comp_def]

theorem cut?_nil (mark : Text) : cut? mark [] = (after? mark []).map ([], ·) := rfl

/-- A mark is found where the text starts with it, and otherwise behind the first character. -/
theorem cut?_cons (mark : Text) (c : Char) (s : Text) :
    cut? mark (c :: s) =
      match after? mark (c :: s) with
      | some rest => some ([], rest)
      | none => (cut? mark s).map fun cut => (c :: cut.1, cut.2) := by
  conv => lhs; unfold cut? cutFrom?
  split
  · simp_all
  · simp_all [cutFrom?_eq]

/-- The two sides of a cut and the mark between them are the whole text. -/
theorem eq_append_of_cut? {mark s before rest : Text} (h : cut? mark s = some (before, rest)) :
    s = before ++ mark ++ rest := by
  induction s generalizing before with
  | nil =>
    rw [cut?_nil, Option.map_eq_some_iff] at h
    obtain ⟨r, found, same⟩ := h
    cases same
    simpa using eq_append_of_after? found
  | cons c s ih =>
    rw [cut?_cons] at h
    split at h
    · next found =>
      cases h
      simpa using eq_append_of_after? found
    · rw [Option.map_eq_some_iff] at h
      obtain ⟨cut, found, same⟩ := h
      cases same
      simpa using ih found

end TypedExports.Text
