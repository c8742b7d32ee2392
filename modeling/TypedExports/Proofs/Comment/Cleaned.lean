import TypedExports.Proofs.Comment.Inline

/-!
# Cleaned lines

What is left of a line is not empty, neither starts nor ends with a blank,
and holds no line feed (`isCleaned_of_mem_lines`). Cleaning takes no notice
of blanks around a line, and it gives such a line back unless it starts with
a marker (`cleanLine_eq_self_iff`).
-/

namespace TypedExports.Comment

/-- What a line of a comment that was read is like. -/
structure IsCleaned (line : Text) : Prop where
  ne_nil : line ≠ []
  trimmed : Text.Trimmed line
  one_line : Text.lineFeed ∉ line

instance (line : Text) : Decidable (IsCleaned line) :=
  decidable_of_iff (line ≠ [] ∧ Text.trim line = line ∧ Text.lineFeed ∉ line)
    ⟨fun ⟨hne, htrim, hline⟩ => ⟨hne, Text.trim_eq_self_iff.mp htrim, hline⟩,
      fun ⟨hne, htrim, hline⟩ => ⟨hne, Text.trim_eq_self_iff.mpr htrim, hline⟩⟩

theorem isCleaned_of_mem_lines {raw line : Text} (h : line ∈ (parse raw).lines) :
    IsCleaned line := by
  obtain ⟨hmem, hne⟩ := List.mem_filter.mp h
  obtain ⟨written, hwritten, rfl⟩ := List.mem_map.mp hmem
  obtain ⟨hfeed, -⟩ := Text.mem_splitOn hwritten
  exact {
    ne_nil := of_decide_eq_true hne
    trimmed := Text.trimmed_trim _
    one_line := fun hin => hfeed ((cleanLine_isInfix written).subset hin) }

theorem cleanLine_eq_self_iff {line : Text} (h : Text.Trimmed line) :
    cleanLine line = line ↔ ¬ marker <+: line := by
  rw [← Text.dropMark_eq_self_iff (by decide : marker ≠ []), cleanLine, Text.trim_eq_self h]
  constructor
  · intro hsame
    -- the whole line is a piece of what is left without the marker
    have hle := (Text.trim_isInfix (Text.dropMark marker line)).length_le
    rw [hsame] at hle
    exact (Text.dropMark_isSuffix marker line).eq_of_length_le hle
  · intro hsame
    rw [hsame, Text.trim_eq_self h]

/-- Blanks around a line are not noticed. -/
theorem cleanLine_append {u w : Text} (hu : ∀ c ∈ u, Text.isBlank c = true)
    (hw : ∀ c ∈ w, Text.isBlank c = true) (line : Text) :
    cleanLine (u ++ line ++ w) = cleanLine line := by
  rw [cleanLine, cleanLine, Text.trim_append hu hw]

end TypedExports.Comment
