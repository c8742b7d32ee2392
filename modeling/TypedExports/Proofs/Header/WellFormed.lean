import TypedExports.Proofs.Comment.Cleaned
import TypedExports.Proofs.Comment.Tag
import TypedExports.Proofs.Header.Extracted

/-!
# Extracted functions are well-formed

Whatever the header, what is read from it could have been written into one.
The values of the tags are trimmed, and none is empty, because the line that
carried it was trimmed before; a value is cut into a name and a text that are
not empty either, for it does not start or end with the blanks between them.
So every extracted function is `WellFormed` (`wellFormed_of_mem_extract`).
-/

namespace TypedExports

/-! ## Values and fields -/

/-- A tag of a cleaned line has a value that is not empty. -/
theorem Tag.ne_nil_of_value? {tag : Tag} {line value : Text} (hline : Text.Trimmed line)
    (h : tag.value? line = some value) : value ≠ [] := by
  rintro rfl
  have hend := Tag.value?_trimEnd tag line
  rw [Text.trimEnd_eq_self hline.last, h] at hend
  cases hend

theorem Tag.isValue_of_value? {tag : Tag} {line value : Text} (hline : Text.Trimmed line)
    (hinline : Comment.IsInline line) (h : tag.value? line = some value) : IsValue value := by
  have hpiece := hinline.of_isInfix (Tag.isInfix_of_value? h)
  obtain ⟨rest, _, hvalue⟩ := Tag.value?_eq_some_iff.mp h
  exact {
    ne_nil := Tag.ne_nil_of_value? hline h
    trimmed := hvalue ▸ Text.trim_eq_self (Text.trimmed_trim rest)
    one_line := hpiece.one_line
    no_closer := hpiece.no_closer }

namespace Field

variable {value : Text} {field : Field}

/-- A trimmed value does not start with a blank, so there is a name in front of
its first one. -/
theorem Divides.name_ne_nil (h : Divides field value) (hvalue : Text.Trimmed value) :
    field.name ≠ [] := by
  intro hnil
  obtain ⟨blanks, hne, hblanks, hparts⟩ := h.parts
  rw [hnil, List.nil_append] at hparts
  obtain ⟨c, blanks, rfl⟩ := List.exists_cons_of_ne_nil hne
  have hhead := hvalue.head c (by rw [hparts]; rfl)
  rw [hblanks c List.mem_cons_self] at hhead
  cases hhead

/-- It does not end with one, so there is a text behind the blanks. -/
theorem Divides.text_ne_nil (h : Divides field value) (hvalue : Text.Trimmed value) :
    field.text ≠ [] := by
  intro hnil
  obtain ⟨blanks, hne, hblanks, hparts⟩ := h.parts
  rw [hnil, List.append_nil] at hparts
  have hend : value.getLast? = some (blanks.getLast hne) := by
    rw [hparts, List.getLast?_append_of_ne_nil _ hne, List.getLast?_eq_getLast_of_ne_nil hne]
  have hlast := hvalue.last _ hend
  rw [hblanks _ (List.getLast_mem hne)] at hlast
  cases hlast

theorem Divides.trimmed_text (h : Divides field value) (hvalue : Text.Trimmed value) :
    Text.Trimmed field.text := by
  refine ⟨h.text, fun c hc => hvalue.last c ?_⟩
  obtain ⟨blanks, _, _, hparts⟩ := h.parts
  rwa [hparts, List.getLast?_append_of_ne_nil _ (h.text_ne_nil hvalue)]

theorem isName_of_split? (hvalue : Tag.IsValue value) (h : split? value = some field) :
    IsName field.name := by
  have hdivides := divides_of_split? h
  exact {
    ne_nil := hdivides.name_ne_nil hvalue.isTrimmed
    no_blank := hdivides.name
    no_closer := fun hclose => hvalue.no_closer (hclose.trans (isInfix_of_split? h).1) }

theorem isValue_of_split? (hvalue : Tag.IsValue value) (h : split? value = some field) :
    Tag.IsValue field.text := by
  have hdivides := divides_of_split? h
  have hpiece := (isInfix_of_split? h).2
  exact {
    ne_nil := hdivides.text_ne_nil hvalue.isTrimmed
    trimmed := Text.trim_eq_self (hdivides.trimmed_text hvalue.isTrimmed)
    one_line := fun hmem => hvalue.one_line (hpiece.subset hmem)
    no_closer := fun hclose => hvalue.no_closer (hclose.trans hpiece) }

end Field

/-! ## Comments and headers -/

/-- A comment with trimmed lines that hold no closer documents a function that
can be written. -/
theorem Comment.wellFormed_document {comment : Comment} {stem name : Text}
    (hname : ∃ run, run ≠ [] ∧ (∀ c ∈ run, Text.isNameChar c = true) ∧ name = stem ++ run)
    (hlines : ∀ line ∈ comment.lines, Text.Trimmed line ∧ IsInline line) :
    (comment.document name).WellFormed stem := by
  have hvalues : ∀ tag : Tag, ∀ value ∈ comment.values tag, Tag.IsValue value := by
    intro tag value hmem
    obtain ⟨line, hline, hvalue⟩ := List.mem_filterMap.mp hmem
    obtain ⟨htrimmed, hinline⟩ := hlines line hline
    exact Tag.isValue_of_value? htrimmed hinline hvalue
  have hvalue : ∀ tag : Tag, ∀ value ∈ comment.value? tag, Tag.IsValue value :=
    fun tag value hmem => hvalues tag value (List.mem_of_mem_head? hmem)
  have hfields : ∀ tag : Tag, ∀ field ∈ comment.fields tag,
      Field.IsName field.name ∧ Tag.IsValue field.text := by
    intro tag field hmem
    obtain ⟨value, hvalue, hsplit⟩ := List.mem_filterMap.mp hmem
    have hisValue := hvalues tag value hvalue
    exact ⟨Field.isName_of_split? hisValue hsplit, Field.isValue_of_split? hisValue hsplit⟩
  have hparams : ∀ param ∈ comment.params, Field.IsName param.name ∧ Tag.IsValue param.type ∧
      param.description = comment.describe? param.name := by
    intro param hmem
    obtain ⟨field, hfield, rfl⟩ := List.mem_map.mp hmem
    obtain ⟨hname, htext⟩ := hfields .typedParam field hfield
    exact ⟨hname, htext, rfl⟩
  exact {
    name := hname
    brief := hvalue .brief
    category := hvalue .category
    returnType := hvalue .returnType
    returnDescription := hvalue .returned
    paramName := fun param hmem => (hparams param hmem).1
    paramType := fun param hmem => (hparams param hmem).2.1
    paramDescription := by
      intro param hmem text htext
      rw [(hparams param hmem).2.2] at htext
      exact (hfields .param _ (mem_fields_of_describe? htext)).2
    agreeing := by
      -- both are described by what the comment says of the one name
      intro p hp q hq hname
      rw [(hparams p hp).2.2, (hparams q hq).2.2, hname] }

/-- **Well-formedness.** Every function that is extracted from a header is one
that a header can document under the stem: no text of it is empty, blank at an
end or able to end a line or a comment, and its name is the stem and a run of
name characters. -/
theorem Header.wellFormed_of_mem_extract {stem header : Text} {f : ExportedFunction}
    (h : f ∈ extract stem header) : f.WellFormed stem := by
  obtain ⟨body, before, name, call, _, hbody, hshape, rfl⟩ := exists_comment_of_mem_extract h
  obtain ⟨run, hname, hne, hrun⟩ := hshape.spelled
  refine Comment.wellFormed_document ⟨run, hne, hrun, hname⟩ fun line hline => ?_
  exact ⟨(Comment.isCleaned_of_mem_lines hline).trimmed, Comment.isInline_of_mem_lines hbody hline⟩

/-- A function whose texts hold stars, slashes and a return, with two
parameters of one name. -/
def crammed : ExportedFunction where
  name := "H_1".toList
  brief := some "a * /".toList
  category := some "b\rc".toList
  params := [⟨"*p".toList, "int".toList, some "to /".toList⟩,
    ⟨"*p".toList, "long *".toList, some "to /".toList⟩, ⟨"q".toList, "/*".toList, none⟩]
  returnDescription := some "@brief".toList

/-- A header that documents it, with tags that lack a value or a text. -/
def crammedHeader : Text :=
  "/**\r\n * @category\n@brief \t a * /\u2003\r\n * @category b\rc\n ** @brief x\n".toList ++
    "@tsparam *p\tint\n@param *p from\n@tsparam *p  long * \n@param *p\u00a0 to /\n".toList ++
    "@tsparam q /*\n@param q \n*@return @brief\n@tsreturn \n*/\nint H_1 (*/)".toList

theorem Header.wellFormed_of_mem_extract_crammed :
    crammed ∈ extract "H_".toList crammedHeader ∧ crammed.WellFormed "H_".toList := by
  have hmem : crammed ∈ extract "H_".toList crammedHeader := by decide +kernel
  exact ⟨hmem, wellFormed_of_mem_extract hmem⟩

end TypedExports
