import Mathlib.Logic.Relation
import TypedExports.Proofs.Comment.Field

/-!
# Edits without effect

Tags are looked up one by one, each in lines of its own. So a comment may be
rearranged a good deal before it says anything else: neighbours may change
places unless they have the same tag, descriptions of different parameters
may change places, and lines without a tag may come and go. `Edit` lists these
edits, and `document_eq_of_edits` says that no sequence of them is noticed.
-/

namespace TypedExports.Comment

/-- An edit of the lines of a comment. -/
inductive Edit : Comment → Comment → Prop
  /-- neighbours that do not have the same tag change places -/
  | swap (before after : List Text) {line line' : Text}
      (happart : ∀ tag : Tag, ¬ (tag.Opens line ∧ tag.Opens line')) :
      Edit ⟨before ++ line :: line' :: after⟩ ⟨before ++ line' :: line :: after⟩
  /-- neighbours that describe different parameters change places -/
  | swapParams (before after : List Text) {line line' : Text} {field field' : Field}
      (hline : Tag.param.Carries line field) (hline' : Tag.param.Carries line' field')
      (hname : field.name ≠ field'.name) :
      Edit ⟨before ++ line :: line' :: after⟩ ⟨before ++ line' :: line :: after⟩
  /-- a line without a tag is put in -/
  | insert (before after : List Text) {line : Text} (hplain : ∀ tag : Tag, ¬ tag.Opens line) :
      Edit ⟨before ++ after⟩ ⟨before ++ line :: after⟩
  /-- a line without a tag is taken out -/
  | delete (before after : List Text) {line : Text} (hplain : ∀ tag : Tag, ¬ tag.Opens line) :
      Edit ⟨before ++ line :: after⟩ ⟨before ++ after⟩

/-! ## One edit -/

section

variable (before after : List Text) {line line' : Text}

theorem values_swap {tag : Tag} (happart : ¬ (tag.Opens line ∧ tag.Opens line')) :
    values ⟨before ++ line :: line' :: after⟩ tag =
      values ⟨before ++ line' :: line :: after⟩ tag := by
  -- a line without the tag adds nothing on either side of its neighbour
  have hpassed : ∀ {l l' : Text}, ¬ tag.Opens l →
      values ⟨before ++ l :: l' :: after⟩ tag = values ⟨before ++ l' :: l :: after⟩ tag := by
    intro l l' hl
    have hbehind := values_of_not_opens hl (before ++ [l']) after
    rw [List.append_assoc, List.append_assoc, List.singleton_append, List.singleton_append]
      at hbehind
    exact (values_of_not_opens hl before (l' :: after)).trans hbehind.symm
  rcases not_and_or.mp happart with hline | hline'
  · exact hpassed hline
  · exact (hpassed hline').symm

/-- The last field of a name stays the last one of that name. -/
theorem describe?_swap {field field' : Field} (hline : Tag.param.Carries line field)
    (hline' : Tag.param.Carries line' field') (hname : field.name ≠ field'.name) (name : Text) :
    describe? ⟨before ++ line :: line' :: after⟩ name =
      describe? ⟨before ++ line' :: line :: after⟩ name := by
  rw [describe?_eq_getLast?, describe?_eq_getLast?, fields_eq, fields_eq]
  have hfield := Tag.field?_eq_some_iff.mpr hline
  have hfield' := Tag.field?_eq_some_iff.mpr hline'
  simp only [List.filterMap_append, List.filterMap_cons_some hfield,
    List.filterMap_cons_some hfield', List.filter_append]
  by_cases heq : field.name = name
  · have hne : ¬ field'.name = name := fun heq' => hname (heq.trans heq'.symm)
    simp [heq, hne]
  · simp [List.filter_cons, heq]

end

theorem Edit.document_eq {comment comment' : Comment} (h : Edit comment comment') (name : Text) :
    comment.document name = comment'.document name := by
  cases h with
  | swap before after happart =>
      exact document_congr_values (fun tag => values_swap before after (happart tag)) name
  | swapParams before after hline hline' hname =>
      refine document_congr ?_ (fun param _ => ?_) name
      · intro tag htag
        refine values_swap before after fun hopens => ?_
        exact htag (hopens.1.eq hline.opens)
      · exact describe?_swap before after hline hline' hname param.name
  | insert before after hplain =>
      exact (document_congr_values (fun tag => values_of_not_opens (hplain tag) before after)
        name).symm
  | delete before after hplain =>
      exact document_congr_values (fun tag => values_of_not_opens (hplain tag) before after) name

/-! ## Any number of edits -/

/-- **Edits.** Comments that differ by edits document a function alike. -/
theorem document_eq_of_edits {comment comment' : Comment}
    (h : Relation.ReflTransGen Edit comment comment') (name : Text) :
    comment.document name = comment'.document name := by
  induction h with
  | refl => rfl
  | tail _ hedit ih => exact ih.trans (hedit.document_eq name)

/-- A comment with its lines out of order. -/
def untidy : Comment :=
  ⟨["@param b to".toList, "@param a\tfrom".toList, "see c".toList, "@tsparam a int".toList,
    "@brief x".toList]⟩

/-- The same in order, with a line whose keyword is too long for a tag. -/
def tidy : Comment :=
  ⟨["@param a\tfrom".toList, "@param b to".toList, "@brief x".toList, "@tsparam a int".toList,
    "@returns c".toList]⟩

theorem document_eq_of_edits_tidy :
    Relation.ReflTransGen Edit untidy tidy ∧
      untidy.document "f".toList = tidy.document "f".toList := by
  have hb : Tag.param.Carries "@param b to".toList ⟨"b".toList, "to".toList⟩ :=
    Tag.field?_eq_some_iff.mp (by decide)
  have ha : Tag.param.Carries "@param a\tfrom".toList ⟨"a".toList, "from".toList⟩ :=
    Tag.field?_eq_some_iff.mp (by decide)
  have hplain : ∀ tag : Tag, ¬ tag.Opens "see c".toList := by
    intro tag
    cases tag <;> decide
  have hlong : ∀ tag : Tag, ¬ tag.Opens "@returns c".toList := by
    intro tag
    cases tag <;> decide
  have happart : ∀ tag : Tag,
      ¬ (tag.Opens "@tsparam a int".toList ∧ tag.Opens "@brief x".toList) := by
    intro tag
    cases tag <;> decide
  have hedits : Relation.ReflTransGen Edit untidy tidy :=
    .head (.swapParams [] _ hb ha (by decide)) <|
    .head (.delete ["@param a\tfrom".toList, "@param b to".toList] _ hplain) <|
    .head (.swap ["@param a\tfrom".toList, "@param b to".toList] [] happart) <|
    .single (.insert ["@param a\tfrom".toList, "@param b to".toList, "@brief x".toList,
      "@tsparam a int".toList] [] hlong)
  exact ⟨hedits, document_eq_of_edits hedits _⟩

end TypedExports.Comment
