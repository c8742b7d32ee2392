import TypedExports.Comment.Basic
import TypedExports.Text.Search

/-!
# Comments in a header

`Block.cut?` takes the first complete comment off a text. An opener that is never closed is no
comment, and none can follow it: whatever closes a later one would have closed it first.
-/

namespace TypedExports

/-- A complete comment and the text that leads up to it. -/
structure Block where
  lead : Text
  body : Text
  deriving DecidableEq, Repr

namespace Block

def comment (block : Block) : Text := Comment.opener ++ block.body ++ Comment.closer

/-- Everything the block takes up: what leads up to the comment, and the comment. -/
def text (block : Block) : Text := block.lead ++ block.comment

/-- The first complete comment of a text, and what follows it. -/
def cut? (s : Text) : Option (Block × Text) := do
  let (lead, inside) ← Text.cut? Comment.opener s
  let (body, rest) ← Text.cut? Comment.closer inside
  return (⟨lead, body⟩, rest)

/-- The block and what follows it are the whole text. -/
theorem eq_append_of_cut? {s rest : Text} {block : Block} (h : cut? s = some (block, rest)) :
    s = block.text ++ rest := by
  simp only [cut?, Option.bind_eq_bind, Option.bind_eq_some_iff, Option.pure_def,
    Option.some.injEq, Prod.mk.injEq] at h
  obtain ⟨⟨lead, inside⟩, opened, ⟨body, rest'⟩, closed, rfl, rfl⟩ := h
  rw [Text.eq_append_of_cut? opened]
  dsimp only at closed ⊢
  rw [Text.eq_append_of_cut? closed]
  simp [text, comment]

theorem length_rest_lt_of_cut? {s rest : Text} {block : Block}
    (h : cut? s = some (block, rest)) : rest.length < s.length := by
  rw [eq_append_of_cut? h]
  simp [text, comment, Comment.opener]
  omega

end Block

end TypedExports
