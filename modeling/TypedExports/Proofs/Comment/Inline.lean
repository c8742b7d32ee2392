import TypedExports.Comment.Tag
import TypedExports.Proofs.Comment.Basic
import TypedExports.Proofs.Text.Lines

/-!
# What is read from a comment stays inside a line

Everything that a comment says of a function is a piece of one line of its
body: cleaning, taking the tag off and cutting a field only ever take text
away. So when the body holds no closer, nothing that is read from it can end
a line or a comment (`document_everyText_inline`).
-/

namespace TypedExports

/-! ## Pieces of a line -/

theorem Tag.isInfix_of_value? {tag : Tag} {line value : Text} (h : tag.value? line = some value) :
    value <:+: line := by
  obtain ⟨rest, hrest, rfl⟩ := Option.map_eq_some_iff.mp h
  rw [Text.eq_append_of_after? hrest]
  exact (Text.trim_isInfix rest).trans (List.suffix_append _ rest).isInfix

theorem Field.isInfix_of_split? {value : Text} {field : Field} (h : split? value = some field) :
    field.name <:+: value ∧ field.text <:+: value := by
  unfold split? at h
  split at h
  · cases h
  · cases h
    constructor
    · exact (List.takeWhile_prefix _).isInfix
    · exact ((Text.trimStart_isSuffix _).trans (List.dropWhile_suffix _)).isInfix

namespace Comment

theorem cleanLine_isInfix (line : Text) : cleanLine line <:+: line := by
  have hmark : Text.dropMark marker (Text.trim line) <:+: Text.trim line :=
    (Text.dropMark_isSuffix marker _).isInfix
  exact (Text.trim_isInfix _).trans (hmark.trans (Text.trim_isInfix line))

/-- The lines of a delimited comment are the cleaned lines of its body of
which something is left. -/
theorem mem_lines_parse_iff {body line : Text} :
    line ∈ (parse (opener ++ body ++ closer)).lines ↔
      line ≠ [] ∧ ∃ raw ∈ Text.lines body, cleanLine raw = line := by
  rw [parse, rawLines_delimited, List.mem_filter, List.mem_map]
  simp [and_comm]

variable {comment : Comment} {tag : Tag}

theorem exists_line_of_mem_values {value : Text} (h : value ∈ comment.values tag) :
    ∃ line ∈ comment.lines, value <:+: line := by
  obtain ⟨line, hline, hvalue⟩ := List.mem_filterMap.mp h
  exact ⟨line, hline, Tag.isInfix_of_value? hvalue⟩

theorem exists_line_of_mem_fields {field : Field} (h : field ∈ comment.fields tag) :
    ∃ line ∈ comment.lines, field.name <:+: line ∧ field.text <:+: line := by
  obtain ⟨value, hvalue, hsplit⟩ := List.mem_filterMap.mp h
  obtain ⟨line, hline, hpiece⟩ := exists_line_of_mem_values hvalue
  obtain ⟨hname, htext⟩ := Field.isInfix_of_split? hsplit
  exact ⟨line, hline, hname.trans hpiece, htext.trans hpiece⟩

theorem mem_fields_of_describe? {name text : Text} (h : comment.describe? name = some text) :
    ⟨name, text⟩ ∈ comment.fields .param := by
  obtain ⟨field, hfind, rfl⟩ := Option.map_eq_some_iff.mp h
  have hname := List.find?_some hfind
  rw [decide_eq_true_eq] at hname
  subst hname
  exact List.mem_reverse.mp (List.mem_of_find?_eq_some hfind)

theorem exists_line_of_describe? {name text : Text} (h : comment.describe? name = some text) :
    ∃ line ∈ comment.lines, text <:+: line := by
  obtain ⟨line, hline, _, htext⟩ := exists_line_of_mem_fields (mem_fields_of_describe? h)
  exact ⟨line, hline, htext⟩

/-- What holds of every piece of every line holds of all that the comment
says. -/
theorem document_everyText {P : Text → Prop} (comment : Comment) (name : Text)
    (h : ∀ line ∈ comment.lines, ∀ value, value <:+: line → P value) :
    (comment.document name).EveryText P := by
  have hvalue : ∀ (tag : Tag) (value : Text), value ∈ comment.value? tag → P value := by
    intro tag value hmem
    obtain ⟨line, hline, hpiece⟩ := exists_line_of_mem_values (List.mem_of_mem_head? hmem)
    exact h line hline value hpiece
  have hparam : ∀ param ∈ comment.params, P param.name ∧ P param.type ∧
      ∀ text ∈ param.description, P text := by
    intro param hmem
    obtain ⟨field, hfield, rfl⟩ := List.mem_map.mp hmem
    obtain ⟨line, hline, hname, htext⟩ := exists_line_of_mem_fields hfield
    refine ⟨h line hline _ hname, h line hline _ htext, ?_⟩
    intro text hdescribed
    obtain ⟨line, hline, hpiece⟩ := exists_line_of_describe? hdescribed
    exact h line hline text hpiece
  exact {
    brief := hvalue .brief
    category := hvalue .category
    returnType := hvalue .returnType
    returnDescription := hvalue .returned
    paramName := fun param hmem => (hparam param hmem).1
    paramType := fun param hmem => (hparam param hmem).2.1
    paramDescription := fun param hmem => (hparam param hmem).2.2 }

/-! ## Texts that stay inside a line -/

/-- A text that can end neither the line nor the comment that it is put in. -/
structure IsInline (value : Text) : Prop where
  one_line : Text.lineFeed ∉ value
  no_closer : ¬ closer <:+: value

theorem IsInline.of_isInfix {value text : Text} (h : IsInline text) (hpiece : value <:+: text) :
    IsInline value :=
  ⟨fun hmem => h.one_line (hpiece.subset hmem), fun hclose => h.no_closer (hclose.trans hpiece)⟩

theorem IsInline.append {a b : Text} (ha : IsInline a) (hb : IsInline b)
    (hseam : a.getLast? ≠ some '*' ∨ b.head? ≠ some '/') : IsInline (a ++ b) := by
  refine ⟨?_, not_closer_append ha.no_closer hb.no_closer hseam⟩
  rw [List.mem_append, not_or]
  exact ⟨ha.one_line, hb.one_line⟩

theorem IsInline.space_cons {value : Text} (h : IsInline value) : IsInline (' ' :: value) :=
  IsInline.append (a := [' ']) ⟨by decide, by decide⟩ h (Or.inl (by decide))

instance (value : Text) : Decidable (IsInline value) :=
  decidable_of_iff (Text.lineFeed ∉ value ∧ ¬ closer <:+: value)
    ⟨fun ⟨hline, hclose⟩ => ⟨hline, hclose⟩, fun ⟨hline, hclose⟩ => ⟨hline, hclose⟩⟩

theorem isInline_of_mem_lines {body line : Text} (hbody : ¬ closer <:+: body)
    (hline : line ∈ (parse (opener ++ body ++ closer)).lines) : IsInline line := by
  obtain ⟨_, raw, hraw, rfl⟩ := mem_lines_parse_iff.mp hline
  obtain ⟨hfeed, hpiece⟩ := Text.mem_splitOn hraw
  have hinline : IsInline raw := ⟨hfeed, fun hclose => hbody (hclose.trans hpiece)⟩
  exact hinline.of_isInfix (cleanLine_isInfix raw)

theorem document_everyText_inline {body : Text} (hbody : ¬ closer <:+: body) (name : Text) :
    ((parse (opener ++ body ++ closer)).document name).EveryText IsInline :=
  document_everyText _ name fun _ hline _ hpiece =>
    (isInline_of_mem_lines hbody hline).of_isInfix hpiece

end Comment

end TypedExports
