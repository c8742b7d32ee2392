import TypedExports.Text.CodePoints

/-!
# Blank characters

The characters with the Unicode property `White_Space`. They are what is trimmed off a line, what
separates a name from the text after it, and what may stand between a name and its parenthesis.
-/

namespace TypedExports.Text

/-- The code points with the property `White_Space`. -/
def blankCodePoints : CodePoints :=
  [(0x09, 0x0D), (0x20, 0x20), (0x85, 0x85), (0xA0, 0xA0), (0x1680, 0x1680), (0x2000, 0x200A),
    (0x2028, 0x2029), (0x202F, 0x202F), (0x205F, 0x205F), (0x3000, 0x3000)]

/-- Whether the character is blank. -/
def isBlank (c : Char) : Bool := blankCodePoints.has c

example : blankCodePoints.ascending = true ∧ blankCodePoints.size = 25 := by decide

/-- The four blanks of ASCII that the standard library knows are among them. -/
theorem isBlank_of_isWhitespace {c : Char} (h : c.isWhitespace = true) : isBlank c = true := by
  simp only [Char.isWhitespace, Bool.or_eq_true, decide_eq_true_eq] at h
  rcases h with ((rfl | rfl) | rfl) | rfl <;> decide

end TypedExports.Text
