import TypedExports.Proofs.Comment.Cleaned
import TypedExports.Proofs.Comment.Field

/-!
# Tags without a value

A tag may be written with nothing behind it but blanks. `writtenValues` reads
the lines of a comment as they are written, without trimming their ends, and
such a tag has an empty value there. Cleaning a line trims its end, and with
it the space without which a keyword is no tag. So a comment has of the values
that are written those that are not empty (`values_parse`), and where one
value counts it is the first of those. It is the first that is written unless
that one is empty (`value?_parse`).
-/

namespace TypedExports.Comment

/-- A line without the blanks that it starts with, without one marker and the
blanks behind it. What the line ends with is kept. -/
def openedLine (line : Text) : Text :=
  Text.trimStart (Text.dropMark marker (Text.trimStart line))

/-- The values of the tag on the lines as they are written. -/
def writtenValues (raw : Text) (tag : Tag) : List Text :=
  (rawLines raw).filterMap fun line => tag.value? (openedLine line)

/-! ## Cleaning a line trims its end -/

theorem trimEnd_marker (s : Text) : Text.trimEnd (marker ++ s) = marker ++ Text.trimEnd s := by
  refine Text.trimEnd_append_of_last ?_ s
  intro c hc
  cases hc
  decide

/-- The marker of a line does not depend on what the line ends with. -/
theorem trim_dropMark_trimEnd (s : Text) :
    Text.trim (Text.dropMark marker (Text.trimEnd s)) = Text.trim (Text.dropMark marker s) := by
  by_cases hmarked : marker <+: s
  · obtain ⟨rest, rfl⟩ := hmarked
    rw [trimEnd_marker, Text.dropMark_append, Text.dropMark_append, Text.trim_trimEnd]
  · have hend : ¬ marker <+: Text.trimEnd s := fun h =>
      hmarked (h.trans (Text.trimEnd_isPrefix s))
    rw [Text.dropMark_eq_self hmarked, Text.dropMark_eq_self hend, Text.trim_trimEnd]

theorem cleanLine_eq_trimEnd (line : Text) : cleanLine line = Text.trimEnd (openedLine line) :=
  trim_dropMark_trimEnd (Text.trimStart line)

theorem value?_cleanLine (tag : Tag) (line : Text) :
    tag.value? (cleanLine line) = (tag.value? (openedLine line)).filter (· ≠ []) := by
  rw [cleanLine_eq_trimEnd, Tag.value?_trimEnd]

/-! ## The values that are left -/

theorem values_parse (raw : Text) (tag : Tag) :
    (parse raw).values tag = (writtenValues raw tag).filter (· ≠ []) := by
  rw [values, parse, writtenValues, List.filter_filterMap, List.filterMap_filter,
    List.filterMap_map]
  refine List.filterMap_congr fun line _ => ?_
  rw [Function.comp_apply, ← value?_cleanLine]
  by_cases hclean : cleanLine line = []
  · -- a line that is dropped had no tag
    rw [hclean]
    cases tag <;> rfl
  · exact if_pos (decide_eq_true hclean)

/-- **Tags without a value.** The value of a tag is the first written one that
is not empty. So it is the first written one, or absent where none is written,
exactly if the first written one is not empty. -/
theorem value?_parse (raw : Text) (tag : Tag) :
    (parse raw).value? tag = (writtenValues raw tag).find? (· ≠ []) ∧
      ((parse raw).value? tag = (writtenValues raw tag).head? ↔
        (writtenValues raw tag).head? ≠ some []) := by
  have hvalue : (parse raw).value? tag = (writtenValues raw tag).find? (· ≠ []) := by
    rw [value?, values_parse, List.head?_filter]
  refine ⟨hvalue, ?_⟩
  rw [hvalue]
  cases hwritten : writtenValues raw tag with
  | nil => simp
  | cons value values =>
      by_cases hne : value = []
      · have hnot : (value :: values).find? (· ≠ []) ≠ some [] := by
          intro hfind
          have := List.find?_some hfind
          simp at this
        simpa [hne] using hnot
      · simp [hne]

/-- A comment with a blank brief description in front of one that is not, and
a blank return type. -/
def blankTags : Text := "/**\n * @brief \n * @brief x\n * @tsreturn \t\n */".toList

/-- A blank value is written first and does not count. -/
theorem value?_parse_blankTags :
    (writtenValues blankTags .brief).head? = some [] ∧
      (parse blankTags).value? .brief = some ['x'] ∧
      (writtenValues blankTags .returnType).head? = some [] ∧
      (parse blankTags).value? .returnType = none := by
  decide

end TypedExports.Comment
