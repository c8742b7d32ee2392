import TypedExports.Text.Basic

/-!
# Block comments

A comment is read as its cleaned lines. The delimiters go first, one at each end; then each line
loses the blanks around it, one leading star, and the blanks behind that star; lines of which
nothing is left are dropped. A second star, or a second delimiter, is content.
-/

namespace TypedExports

/-- The cleaned lines of a block comment, in order. -/
structure Comment where
  lines : List Text
  deriving DecidableEq, Repr

namespace Comment

def opener : Text := "/*".toList

def closer : Text := "*/".toList

/-- What may start each line of a block comment. -/
def marker : Text := ['*']

/-- A text that is a comment without its delimiters, in its lines as written. -/
def rawLines (raw : Text) : List Text :=
  Text.lines (Text.dropEndMark closer (Text.dropMark opener (Text.trim raw)))

/-- A line without the blanks around it and without one marker. -/
def cleanLine (line : Text) : Text := Text.trim (Text.dropMark marker (Text.trim line))

/-- Reads a comment. The text need not be delimited. -/
def parse (raw : Text) : Comment :=
  ⟨((rawLines raw).map cleanLine).filter (· ≠ [])⟩

example : parse "/**\n *\n * first\n   *   second  \n\n */".toList =
    ⟨["first".toList, "second".toList]⟩ := by decide

/-- Only one marker goes, and the delimiters do not share a star. -/
example : parse "/*\n ** bold\n */".toList = ⟨["* bold".toList]⟩ ∧
    parse "/*/".toList = ⟨["/".toList]⟩ := by decide

end Comment

end TypedExports
