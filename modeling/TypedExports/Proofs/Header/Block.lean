import TypedExports.Header.Block
import TypedExports.Proofs.Comment.Basic
import TypedExports.Proofs.Text.Run

/-!
# The next comment

The search for the next comment is local like the two searches that it is
made of. Neither the text behind a comment nor the body of the comment has a
say in finding it (`cut?_replace`).
-/

namespace TypedExports

namespace Block

theorem cut?_eq_some_iff {s rest : Text} {block : Block} :
    cut? s = some (block, rest) ↔
      Text.cut? Comment.opener s =
        some (block.lead, block.body ++ Comment.closer ++ rest) ∧
      ¬ Comment.closer <:+: block.body := by
  simp only [cut?, Option.bind_eq_bind, Option.bind_eq_some_iff, Option.pure_def,
    Option.some.injEq, Prod.mk.injEq]
  constructor
  · rintro ⟨⟨lead, inside⟩, hopen, ⟨body, rest'⟩, hclose, rfl, rfl⟩
    dsimp only at hclose ⊢
    rw [hopen, Text.eq_append_of_cut? hclose]
    exact ⟨rfl, Text.not_pair_infix_of_cut? hclose⟩
  · rintro ⟨hopen, hbody⟩
    exact ⟨_, hopen, _, Text.cut?_pair (by decide) hbody rest, rfl, rfl⟩

theorem not_closer_of_cut? {s rest : Text} {block : Block} (h : cut? s = some (block, rest)) :
    ¬ Comment.closer <:+: block.body :=
  (cut?_eq_some_iff.mp h).2

/-- A text without a complete comment: behind the first opener, if there is
one, no closer stands. -/
theorem cut?_eq_none_iff {s : Text} :
    cut? s = none ↔
      ∀ lead inside, Text.cut? Comment.opener s = some (lead, inside) →
        ¬ Comment.closer <:+: inside := by
  simp only [cut?, Option.bind_eq_bind, Option.bind_eq_none_iff, Option.pure_def, reduceCtorEq,
    imp_false, ← Option.eq_none_iff_forall_ne_some, Text.cut?_eq_none_iff, Prod.forall]

/-- **Locality.** The comment is found whatever its body and the text behind
it are. -/
theorem cut?_replace {s rest body : Text} {block : Block} (h : cut? s = some (block, rest))
    (hbody : ¬ Comment.closer <:+: body) (t : Text) :
    cut? (({ block with body := body } : Block).text ++ t) =
      some ({ block with body := body }, t) := by
  obtain ⟨hopen, _⟩ := cut?_eq_some_iff.mp h
  rw [Text.eq_append_of_cut? hopen] at hopen
  refine cut?_eq_some_iff.mpr ⟨?_, hbody⟩
  have := Text.cut?_local hopen (body ++ Comment.closer ++ t)
  simpa [text, comment] using this

/-- A text that neither holds an opener nor ends in its slash is passed
over. -/
theorem cut?_append_left {a : Text} (ha : ¬ Comment.opener <:+: a) (hlast : a.getLast? ≠ some '/')
    (s : Text) :
    cut? (a ++ s) =
      (cut? s).map fun found => ({ found.1 with lead := a ++ found.1.lead }, found.2) := by
  have hskip := Text.cut?_pair_append_left (x := '/') (y := '*') ha hlast s
  change Text.cut? Comment.opener (a ++ s) = (Text.cut? Comment.opener s).map _ at hskip
  rw [cut?, cut?, hskip]
  cases hopen : Text.cut? Comment.opener s with
  | none => rfl
  | some found =>
      obtain ⟨lead, inside⟩ := found
      simp only [Option.map_some, Option.bind_eq_bind, Option.bind_some, Option.pure_def]
      cases hclose : Text.cut? Comment.closer inside with
      | none => rfl
      | some cut => rfl

theorem getLast?_text (block : Block) : block.text.getLast? = some '/' := by
  simp [text, comment, Comment.closer]

theorem getLast?_append_text (u : Text) (block : Block) :
    (u ++ block.text).getLast? = some '/' := by
  rw [List.getLast?_append, getLast?_text, Option.some_or]

theorem takeWhile_text (block : Block) (v : Text) :
    (block.text ++ v).takeWhile Text.isBlank = block.lead.takeWhile Text.isBlank := by
  have hslash : Text.isBlank '/' = false := by decide
  rw [text, comment, Comment.opener, List.append_assoc, List.append_assoc, List.append_assoc]
  exact Text.takeWhile_stop hslash _ _

end Block

end TypedExports
