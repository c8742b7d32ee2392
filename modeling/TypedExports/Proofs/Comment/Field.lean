import TypedExports.Comment.Tag
import TypedExports.Proofs.Text.Run
import TypedExports.Proofs.Text.Trim

/-!
# Lines with a tag and a field

`Opens` and `Carries` say which lines have a tag, and which have one with a
field, without mention of how they are read: what the line starts with, where
its name ends, where its text begins. Reading a line finds a field exactly
when the line carries it (`field?_eq_some_iff`). No keyword with its space
starts another one, so a line has one tag at most (`Opens.eq`).
-/

namespace TypedExports

/-! ## Fields of a value -/

/-- The value is the name, a run of blanks, and the text: the name ends at
the first blank, and the text starts behind all of the run. -/
structure Field.Divides (field : Field) (value : Text) : Prop where
  parts : ∃ blanks, blanks ≠ [] ∧ (∀ c ∈ blanks, Text.isBlank c = true) ∧
    value = field.name ++ blanks ++ field.text
  name : ∀ c ∈ field.name, Text.isBlank c = false
  text : ∀ c ∈ field.text.head?, Text.isBlank c = false

namespace Field

variable {value : Text} {field : Field}

theorem divides_of_split? (h : split? value = some field) : field.Divides value := by
  unfold split? at h
  cases hrest : value.dropWhile (!Text.isBlank ·) with
  | nil =>
      rw [hrest] at h
      cases h
  | cons c rest =>
      rw [hrest] at h
      cases h
      have hc : Text.isBlank c = true := by
        have hhead := List.head?_dropWhile_not (!Text.isBlank ·) value
        rw [hrest] at hhead
        simpa using hhead
      refine ⟨⟨(c :: rest).takeWhile Text.isBlank, ?_, ?_, ?_⟩, ?_, ?_⟩
      · rw [List.takeWhile_cons_of_pos hc]
        exact List.cons_ne_nil _ _
      · exact fun d hd => List.mem_takeWhile_imp hd
      · rw [List.append_assoc, Text.trimStart, List.takeWhile_append_dropWhile, ← hrest,
          List.takeWhile_append_dropWhile]
      · intro d hd
        simpa using List.mem_takeWhile_imp hd
      · exact Text.head_dropWhile_isBlank (c :: rest)

theorem Divides.split? (h : field.Divides value) : split? value = some field := by
  obtain ⟨⟨blanks, hne, hblanks, rfl⟩, hname, htext⟩ := h
  obtain ⟨c, blanks, rfl⟩ := List.exists_cons_of_ne_nil hne
  have hclass : ∀ d ∈ field.name, (!Text.isBlank d) = true := by
    intro d hd
    rw [hname d hd]
    rfl
  have hc : (!Text.isBlank c) = false := by
    rw [hblanks c List.mem_cons_self]
    rfl
  have hstart : Text.trimStart (c :: (blanks ++ field.text)) = field.text := by
    rw [← List.cons_append, Text.trimStart_append hblanks, Text.trimStart_eq_self htext]
  rw [List.append_assoc, List.cons_append, Field.split?, Text.dropWhile_run hclass hc,
    Text.takeWhile_run hclass hc]
  simp only [hstart]

/-- A value is cut into a field exactly where the field divides it. -/
theorem split?_eq_some_iff : split? value = some field ↔ field.Divides value :=
  ⟨divides_of_split?, Divides.split?⟩

theorem split?_isSome_iff : (split? value).isSome = true ↔ ∃ c ∈ value, Text.isBlank c = true := by
  constructor
  · intro hsome
    obtain ⟨field, hfield⟩ := Option.isSome_iff_exists.mp hsome
    obtain ⟨blanks, hne, hblanks, rfl⟩ := (divides_of_split? hfield).parts
    obtain ⟨c, blanks, rfl⟩ := List.exists_cons_of_ne_nil hne
    exact ⟨c, by simp, hblanks c List.mem_cons_self⟩
  · rintro ⟨c, hc, hblank⟩
    unfold split?
    cases hrest : value.dropWhile (!Text.isBlank ·) with
    | nil =>
        have hnot := List.dropWhile_eq_nil_iff.mp hrest c hc
        rw [hblank] at hnot
        cases hnot
    | cons d rest => rfl

end Field

/-! ## Tags of a line -/

namespace Tag

variable {tag other : Tag} {line : Text} {field : Field}

/-- The line starts with the tag's keyword and one space. -/
def Opens (tag : Tag) (line : Text) : Prop := tag.lead <+: line

instance (tag : Tag) (line : Text) : Decidable (tag.Opens line) :=
  inferInstanceAs (Decidable (tag.lead <+: line))

/-- What follows the tag on its line, trimmed, is divided by the field. -/
def Carries (tag : Tag) (line : Text) (field : Field) : Prop :=
  ∃ rest, line = tag.lead ++ rest ∧ field.Divides (Text.trim rest)

/-- What follows the tag on its line, trimmed, has a blank in it. -/
def HoldsField (tag : Tag) (line : Text) : Prop :=
  ∃ rest, line = tag.lead ++ rest ∧ ∃ c ∈ Text.trim rest, Text.isBlank c = true

/-- The field of the tag on a line that carries one. -/
def field? (tag : Tag) (line : Text) : Option Field := (tag.value? line).bind Field.split?

theorem head?_lead_append (tag : Tag) (v : Text) : (tag.lead ++ v).head? = some '@' := by
  cases tag <;> rfl

theorem value?_lead (tag : Tag) (v : Text) : tag.value? (tag.lead ++ v) = some (Text.trim v) := by
  rw [value?, Text.after?_append, Option.map_some]

theorem value?_lead_of_ne {tag other : Tag} (h : tag ≠ other) (v : Text) :
    tag.value? (other.lead ++ v) = none := by
  rw [value?, Option.map_eq_none_iff]
  cases tag <;> cases other <;> first | exact absurd rfl h | rfl

theorem value?_eq_some_iff {value : Text} :
    tag.value? line = some value ↔ ∃ rest, line = tag.lead ++ rest ∧ value = Text.trim rest := by
  rw [value?, Option.map_eq_some_iff]
  simp only [Text.after?_eq_some_iff, eq_comm (a := value)]

theorem opens_iff : tag.Opens line ↔ ∃ rest, line = tag.lead ++ rest := by
  constructor
  · rintro ⟨rest, rfl⟩
    exact ⟨rest, rfl⟩
  · rintro ⟨rest, rfl⟩
    exact ⟨rest, rfl⟩

theorem value?_eq_none_iff : tag.value? line = none ↔ ¬ tag.Opens line := by
  rw [Option.eq_none_iff_forall_ne_some, opens_iff]
  constructor
  · rintro hnone ⟨rest, hrest⟩
    exact hnone _ (value?_eq_some_iff.mpr ⟨rest, hrest, rfl⟩)
  · intro hnot value hvalue
    obtain ⟨rest, hrest, _⟩ := value?_eq_some_iff.mp hvalue
    exact hnot ⟨rest, hrest⟩

theorem trimEnd_lead (tag : Tag) : Text.trimEnd tag.lead = tag.keyword := by
  cases tag <;> decide

/-- Without the blanks that a line ends with, it keeps its tag only if a value
stands there: the space behind the keyword is one of those blanks. -/
theorem value?_trimEnd (tag : Tag) (line : Text) :
    tag.value? (Text.trimEnd line) = (tag.value? line).filter (· ≠ []) := by
  by_cases hopens : tag.Opens line
  · obtain ⟨rest, rfl⟩ := opens_iff.mp hopens
    rw [value?_lead]
    by_cases hblank : ∀ c ∈ rest, Text.isBlank c = true
    · have hnot : ¬ tag.Opens tag.keyword := by
        cases tag <;> decide
      rw [Text.trimEnd_append hblank, trimEnd_lead, value?_eq_none_iff.mpr hnot,
        Text.trim_eq_nil_iff.mpr hblank]
      rfl
    · have hend : Text.trimEnd rest ≠ [] := fun hnil => hblank (Text.trimEnd_eq_nil_iff.mp hnil)
      have hvalue : Text.trim rest ≠ [] := fun hnil => hblank (Text.trim_eq_nil_iff.mp hnil)
      rw [Text.trimEnd_append_of_ne_nil hend, value?_lead, Text.trim_trimEnd, Option.filter_some,
        if_pos (decide_eq_true hvalue)]
  · have hend : ¬ tag.Opens (Text.trimEnd line) := fun h =>
      hopens (h.trans (Text.trimEnd_isPrefix line))
    rw [value?_eq_none_iff.mpr hopens, value?_eq_none_iff.mpr hend]
    rfl

/-- A line has one tag at most. -/
theorem Opens.eq (h : tag.Opens line) (hother : other.Opens line) : tag = other := by
  obtain ⟨rest, rfl⟩ := opens_iff.mp h
  by_contra hne
  exact value?_eq_none_iff.mp (value?_lead_of_ne (Ne.symm hne) rest) hother

theorem field?_eq_some_iff : tag.field? line = some field ↔ tag.Carries line field := by
  rw [field?, Option.bind_eq_some_iff]
  constructor
  · rintro ⟨value, hvalue, hfield⟩
    obtain ⟨rest, hrest, rfl⟩ := value?_eq_some_iff.mp hvalue
    exact ⟨rest, hrest, Field.split?_eq_some_iff.mp hfield⟩
  · rintro ⟨rest, hrest, hdivides⟩
    exact ⟨_, value?_eq_some_iff.mpr ⟨rest, hrest, rfl⟩, Field.split?_eq_some_iff.mpr hdivides⟩

theorem Carries.opens (h : tag.Carries line field) : tag.Opens line := by
  obtain ⟨rest, hrest, _⟩ := h
  exact opens_iff.mpr ⟨rest, hrest⟩

theorem field?_isSome_iff : (tag.field? line).isSome = true ↔ tag.HoldsField line := by
  constructor
  · intro hsome
    obtain ⟨field, hfield⟩ := Option.isSome_iff_exists.mp hsome
    obtain ⟨rest, hrest, hdivides⟩ := field?_eq_some_iff.mp hfield
    refine ⟨rest, hrest, Field.split?_isSome_iff.mp ?_⟩
    rw [hdivides.split?]
    rfl
  · rintro ⟨rest, hrest, hblank⟩
    rw [field?, value?_eq_some_iff.mpr ⟨rest, hrest, rfl⟩]
    exact Field.split?_isSome_iff.mpr hblank

instance (tag : Tag) (line : Text) : Decidable (tag.HoldsField line) :=
  decidable_of_iff _ field?_isSome_iff

end Tag

/-! ## What a line adds to a comment -/

namespace Comment

variable {comment comment' : Comment} {tag : Tag} {line : Text}

theorem fields_eq (comment : Comment) (tag : Tag) :
    comment.fields tag = comment.lines.filterMap tag.field? := by
  rw [fields, values, List.filterMap_filterMap]
  rfl

theorem values_append_cons (before after : List Text) :
    values ⟨before ++ line :: after⟩ tag =
      values ⟨before⟩ tag ++ (tag.value? line).toList ++ values ⟨after⟩ tag := by
  rw [values, values, values, List.append_cons, List.filterMap_append, List.filterMap_append]
  cases htag : tag.value? line <;> simp [htag]

/-- A line without the tag adds no value. -/
theorem values_of_not_opens (h : ¬ tag.Opens line) (before after : List Text) :
    values ⟨before ++ line :: after⟩ tag = values ⟨before ++ after⟩ tag := by
  rw [values_append_cons, Tag.value?_eq_none_iff.mpr h, values, values, values,
    List.filterMap_append, Option.toList_none, List.append_nil]

/-- Only the last field of a name counts for its description. -/
theorem describe?_eq_getLast? (comment : Comment) (name : Text) :
    comment.describe? name =
      ((comment.fields .param).filter (·.name = name)).getLast?.map Field.text := by
  rw [describe?, List.getLast?_filter]

/-- What a comment says rests on its values and on the descriptions of the
names that have a type. -/
theorem document_congr
    (hvalues : ∀ tag, tag ≠ .param → comment.values tag = comment'.values tag)
    (hdescribe : ∀ param ∈ comment.params,
      comment.describe? param.name = comment'.describe? param.name) (name : Text) :
    comment.document name = comment'.document name := by
  have hvalue : ∀ tag, tag ≠ .param → comment.value? tag = comment'.value? tag := by
    intro tag htag
    rw [value?, value?, hvalues tag htag]
  have hparams : comment.params = comment'.params := by
    rw [params, params, fields, fields, ← hvalues .typedParam (by decide)]
    refine List.map_congr_left fun field hfield => ?_
    have hmem : ⟨field.name, field.text, comment.describe? field.name⟩ ∈ comment.params :=
      List.mem_map_of_mem hfield
    rw [hdescribe _ hmem]
  rw [document, document, hparams, hvalue .brief (by decide), hvalue .category (by decide),
    hvalue .returnType (by decide), hvalue .returned (by decide)]

theorem document_congr_values (h : ∀ tag, comment.values tag = comment'.values tag)
    (name : Text) : comment.document name = comment'.document name := by
  refine document_congr (fun tag _ => h tag) (fun param _ => ?_) name
  rw [describe?, describe?, fields, fields, h]

end Comment

end TypedExports
