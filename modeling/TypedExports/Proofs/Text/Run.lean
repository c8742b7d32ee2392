import Mathlib.Data.List.TakeWhile
import TypedExports.Text.Basic

/-!
# Runs of one class

The longest run of characters of a class that a text starts with ends at the
first character outside the class. What stands behind that character has no
say in it.
-/

namespace TypedExports.Text

variable {p : Char → Bool} {c : Char} {u : Text}

theorem takeWhile_run (hu : ∀ x ∈ u, p x = true) (hc : p c = false) (v : Text) :
    (u ++ c :: v).takeWhile p = u := by
  rw [List.takeWhile_append_of_pos hu]
  simp [hc]

theorem dropWhile_run (hu : ∀ x ∈ u, p x = true) (hc : p c = false) (v : Text) :
    (u ++ c :: v).dropWhile p = c :: v := by
  rw [List.dropWhile_append_of_pos hu]
  simp [hc]

theorem takeWhile_stop (hc : p c = false) (u v : Text) :
    (u ++ c :: v).takeWhile p = u.takeWhile p := by
  rw [List.takeWhile_append]
  split
  · next hlen => simp [hc, (List.takeWhile_prefix p).eq_of_length hlen]
  · rfl

/-- A text with a character outside the class has its run whatever follows. -/
theorem takeWhile_append_of_mem (hmem : c ∈ u) (hc : p c = false) (v : Text) :
    (u ++ v).takeWhile p = u.takeWhile p := by
  obtain ⟨a, b, rfl⟩ := List.append_of_mem hmem
  rw [List.append_assoc, List.cons_append, takeWhile_stop hc, takeWhile_stop hc]

end TypedExports.Text
