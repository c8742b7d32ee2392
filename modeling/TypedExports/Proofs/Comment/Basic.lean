import Mathlib.Data.List.Basic
import TypedExports.Comment.Basic
import TypedExports.Proofs.Text.Search
import TypedExports.Proofs.Text.Trim

/-!
# Delimiters and cleaned lines

The delimiters as marks of two characters, and what is taken off a comment
that carries them and off each of its lines.
-/

namespace TypedExports.Comment

@[simp] theorem length_opener : opener.length = 2 := rfl

@[simp] theorem length_closer : closer.length = 2 := rfl

theorem closer_infix_append_iff {a b : Text} :
    closer <:+: a ++ b ↔
      closer <:+: a ∨ closer <:+: b ∨ (a.getLast? = some '*' ∧ b.head? = some '/') :=
  Text.pair_infix_append_iff

theorem not_closer_append {a b : Text} (ha : ¬ closer <:+: a) (hb : ¬ closer <:+: b)
    (hseam : a.getLast? ≠ some '*' ∨ b.head? ≠ some '/') : ¬ closer <:+: a ++ b := by
  intro hinfix
  rcases closer_infix_append_iff.mp hinfix with hinfix | hinfix | ⟨hlast, hhead⟩
  · exact ha hinfix
  · exact hb hinfix
  · rcases hseam with hseam | hseam
    · exact hseam hlast
    · exact hseam hhead

theorem trimmed_delimited (body : Text) : Text.Trimmed (opener ++ body ++ closer) := by
  constructor
  · intro c hc
    cases hc
    decide
  · intro c hc
    rw [List.getLast?_append_of_ne_nil _ (by decide : closer ≠ [])] at hc
    cases hc
    decide

/-- A delimited comment loses its delimiters and nothing else. -/
theorem rawLines_delimited (body : Text) :
    rawLines (opener ++ body ++ closer) = Text.lines body := by
  rw [rawLines, Text.trim_eq_self (trimmed_delimited body), List.append_assoc,
    Text.dropMark_append, Text.dropEndMark_append]

/-- A line loses the blanks around it, its marker, and the blanks behind the
marker. -/
theorem cleanLine_marked {u v w x : Text} (hu : ∀ c ∈ u, Text.isBlank c = true)
    (hv : ∀ c ∈ v, Text.isBlank c = true) (hw : ∀ c ∈ w, Text.isBlank c = true)
    (hx : Text.Trimmed x) (hne : x ≠ []) : cleanLine (u ++ '*' :: (v ++ x) ++ w) = x := by
  have htrimmed : Text.Trimmed ('*' :: (v ++ x)) := by
    constructor
    · intro c hc
      cases hc
      decide
    · intro c hc
      rw [← List.cons_append, List.getLast?_append_of_ne_nil _ hne] at hc
      exact hx.last c hc
  rw [cleanLine, Text.trim_append hu hw, Text.trim_eq_self htrimmed]
  have hmark : Text.dropMark marker ('*' :: (v ++ x)) = v ++ x :=
    Text.dropMark_append marker (v ++ x)
  rw [hmark]
  have := Text.trim_append hv (v := []) (by simp) x
  rwa [List.append_nil, Text.trim_eq_self hx] at this

end TypedExports.Comment
