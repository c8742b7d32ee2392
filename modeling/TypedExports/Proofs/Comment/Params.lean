import Mathlib.Data.List.Forall2
import Mathlib.Data.List.Induction
import Std.Data.HashMap.Lemmas
import TypedExports.Proofs.Comment.Field

/-!
# Parameters and their descriptions

A comment speaks of a parameter in two places: one line gives its type,
another its description, and either may come first. `document_params` says how
the two are joined. There is one parameter for each typed line that has a
field, in line order, and its description is that of the last line with a
field of its name. A line about a parameter that adds no field, or only one
for a name that has no type, might as well not be there.

A table that is filled line by line, in which a description replaces an
earlier one of the same name, gives the same (`params_eq_described`).
-/

namespace TypedExports

namespace Comment

/-! ## The lines that count -/

/-- The last line that describes the name describes it with the text. -/
def LastText (comment : Comment) (name text : Text) : Prop :=
  ∃ before line after, comment.lines = before ++ line :: after ∧
    Tag.param.Carries line ⟨name, text⟩ ∧
    ∀ later ∈ after, ∀ other, ¬ Tag.param.Carries later ⟨name, other⟩

/-- What the comment says of the name: the text of the last line that
describes it, or nothing if no line does. -/
structure Describes (comment : Comment) (name : Text) (description : Option Text) : Prop where
  some_iff : ∀ text, description = some text ↔ comment.LastText name text
  none_iff : description = none ↔
    ∀ line ∈ comment.lines, ∀ text, ¬ Tag.param.Carries line ⟨name, text⟩

/-- A line about a parameter that describes none of the comment's. -/
structure Idle (comment : Comment) (line : Text) : Prop where
  starts : Tag.param.keyword <+: line
  undeclared : ∀ field, Tag.param.Carries line field →
    ∀ param ∈ comment.params, param.name ≠ field.name

/-! ## The last description -/

variable {comment comment' : Comment} {name text : Text}

/-- Whether the line describes the name. -/
def describesName (name line : Text) : Bool := (Tag.param.field? line).any (·.name = name)

theorem describesName_iff {line : Text} :
    describesName name line = true ↔ ∃ text, Tag.param.Carries line ⟨name, text⟩ := by
  rw [describesName, Option.any_eq_true]
  constructor
  · rintro ⟨field, hfield, hname⟩
    rw [decide_eq_true_eq] at hname
    subst hname
    exact ⟨field.text, Tag.field?_eq_some_iff.mp hfield⟩
  · rintro ⟨text, hcarries⟩
    exact ⟨⟨name, text⟩, Tag.field?_eq_some_iff.mpr hcarries, decide_eq_true rfl⟩

theorem describe?_eq_bind (comment : Comment) (name : Text) :
    comment.describe? name =
      ((comment.lines.reverse.find? (describesName name)).bind Tag.param.field?).map
        Field.text := by
  rw [describe?, fields_eq, ← List.filterMap_reverse, List.find?_filterMap]
  rfl

theorem describe?_eq_some_iff :
    comment.describe? name = some text ↔ comment.LastText name text := by
  rw [describe?_eq_bind, Option.map_eq_some_iff]
  simp only [Option.bind_eq_some_iff, List.find?_eq_some_iff_append]
  constructor
  · rintro ⟨field, ⟨line, ⟨hline, as, bs, hlines, has⟩, hfield⟩, rfl⟩
    refine ⟨bs.reverse, line, as.reverse, ?_, ?_, ?_⟩
    · rw [← List.reverse_reverse comment.lines, hlines]
      simp
    · rw [describesName, hfield, Option.any_some, decide_eq_true_eq] at hline
      subst hline
      exact Tag.field?_eq_some_iff.mp hfield
    · intro later hlater other hcarries
      have hnot := has later (List.mem_reverse.mp hlater)
      rw [describesName_iff.mpr ⟨other, hcarries⟩] at hnot
      cases hnot
  · rintro ⟨before, line, after, hlines, hcarries, hafter⟩
    refine ⟨⟨name, text⟩, ⟨line, ⟨describesName_iff.mpr ⟨text, hcarries⟩, after.reverse,
      before.reverse, ?_, ?_⟩, Tag.field?_eq_some_iff.mpr hcarries⟩, rfl⟩
    · rw [hlines]
      simp
    · intro later hlater
      rw [Bool.not_eq_true', ← Bool.not_eq_true, describesName_iff]
      rintro ⟨other, hother⟩
      exact hafter later (List.mem_reverse.mp hlater) other hother

theorem describe?_eq_none_iff :
    comment.describe? name = none ↔
      ∀ line ∈ comment.lines, ∀ text, ¬ Tag.param.Carries line ⟨name, text⟩ := by
  rw [describe?, Option.map_eq_none_iff, List.find?_eq_none]
  constructor
  · intro hnone line hline text hcarries
    have hmem : (⟨name, text⟩ : Field) ∈ comment.fields .param := by
      rw [fields_eq]
      exact List.mem_filterMap.mpr ⟨line, hline, Tag.field?_eq_some_iff.mpr hcarries⟩
    exact hnone _ (List.mem_reverse.mpr hmem) (decide_eq_true rfl)
  · intro hnot field hfield hname
    rw [List.mem_reverse, fields_eq] at hfield
    obtain ⟨line, hline, hfield⟩ := List.mem_filterMap.mp hfield
    rw [decide_eq_true_eq] at hname
    subst hname
    exact hnot line hline field.text (Tag.field?_eq_some_iff.mp hfield)

theorem describes_describe? (comment : Comment) (name : Text) :
    comment.Describes name (comment.describe? name) :=
  ⟨fun _ => describe?_eq_some_iff, describe?_eq_none_iff⟩

/-! ## The table of descriptions -/

def typedParams (comment : Comment) : List Param :=
  (comment.fields .typedParam).map fun field => ⟨field.name, field.text, none⟩

section Table

variable [Hashable Text]

/-- The table may hash the names in any way. -/
def descriptionTable (comment : Comment) : Std.HashMap Text Text :=
  (comment.fields .param).foldl (fun table field => table.insert field.name field.text) ∅

variable [LawfulHashable Text]

theorem getElem?_descriptionTable (comment : Comment) (name : Text) :
    comment.descriptionTable[name]? = comment.describe? name := by
  rw [descriptionTable, describe?]
  induction comment.fields .param using List.reverseRecOn with
  | nil => exact Std.HashMap.getElem?_empty
  | append_singleton fields field ih =>
      rw [List.foldl_append, List.foldl_cons, List.foldl_nil, Std.HashMap.getElem?_insert, ih,
        List.reverse_append, List.reverse_singleton, List.singleton_append]
      by_cases hname : field.name = name
      · simp [hname]
      · simp [hname]

/-- Looking the typed parameters up in the table describes them. -/
theorem params_eq_described (comment : Comment) :
    comment.params = comment.typedParams.map fun param =>
      { param with description := comment.descriptionTable[param.name]? } := by
  rw [params, typedParams, List.map_map]
  refine List.map_congr_left fun field _ => ?_
  rw [Function.comp_apply, getElem?_descriptionTable]

end Table

/-! ## One parameter for each line -/

/-- The fields of a tag stand in the order of the lines that hold one. -/
theorem forall₂_fields (tag : Tag) (lines : List Text) :
    List.Forall₂ tag.Carries (lines.filter tag.HoldsField) (lines.filterMap tag.field?) := by
  induction lines with
  | nil => exact List.Forall₂.nil
  | cons line lines ih =>
      cases hfield : tag.field? line with
      | none =>
          have hnot : ¬ tag.HoldsField line := by
            rw [← Tag.field?_isSome_iff, hfield]
            exact Bool.false_ne_true
          rw [List.filter_cons_of_neg (by simpa using hnot), List.filterMap_cons_none hfield]
          exact ih
      | some field =>
          have hholds : tag.HoldsField line := by
            rw [← Tag.field?_isSome_iff, hfield]
            rfl
          rw [List.filter_cons_of_pos (by simpa using hholds), List.filterMap_cons_some hfield]
          exact List.Forall₂.cons (Tag.field?_eq_some_iff.mp hfield) ih

theorem forall₂_params (comment : Comment) :
    List.Forall₂ (fun line param => Tag.typedParam.Carries line ⟨param.name, param.type⟩ ∧
        comment.Describes param.name param.description)
      (comment.lines.filter Tag.typedParam.HoldsField) comment.params := by
  rw [params, fields_eq, List.forall₂_map_right_iff]
  refine (forall₂_fields .typedParam comment.lines).imp fun line field hcarries => ?_
  exact ⟨hcarries, describes_describe? comment field.name⟩

/-! ## Lines without effect -/

/-- A line that starts with the keyword has no other tag. -/
theorem Idle.not_opens {line : Text} (h : comment.Idle line) {tag : Tag} (htag : tag ≠ .param) :
    ¬ tag.Opens line := by
  intro hopens
  have hlength : Tag.param.keyword.length ≤ tag.lead.length := by
    cases tag <;> decide
  have hprefix := List.prefix_of_prefix_length_le h.starts hopens hlength
  revert hprefix
  cases tag with
  | param => exact absurd rfl htag
  | brief | category | typedParam | returnType | returned => decide

theorem document_of_idle {before after : List Text} {line : Text}
    (h : Idle ⟨before ++ line :: after⟩ line) (name : Text) :
    document ⟨before ++ line :: after⟩ name = document ⟨before ++ after⟩ name := by
  refine document_congr ?_ ?_ name
  · intro tag htag
    exact values_of_not_opens (h.not_opens htag) before after
  · intro param hparam
    rw [describe?_eq_getLast?, describe?_eq_getLast?, fields_eq, fields_eq]
    dsimp only
    rw [List.filterMap_append, List.filterMap_append]
    cases hfield : Tag.param.field? line with
    | none => rw [List.filterMap_cons_none hfield]
    | some field =>
        have hne := h.undeclared field (Tag.field?_eq_some_iff.mp hfield) param hparam
        rw [List.filterMap_cons_some hfield, List.filter_append, List.filter_append,
          List.filter_cons_of_neg (by simpa using Ne.symm hne)]

/-- **Parameters.** The parameters are those of the typed lines that hold a
field, in line order, each described by the last line that has its name. A
line about a parameter that describes none of them has no effect. -/
theorem document_params (comment : Comment) (name : Text) :
    List.Forall₂ (fun line param => Tag.typedParam.Carries line ⟨param.name, param.type⟩ ∧
        comment.Describes param.name param.description)
      (comment.lines.filter Tag.typedParam.HoldsField) (comment.document name).params ∧
    ∀ before line after, comment.lines = before ++ line :: after → comment.Idle line →
      document ⟨before ++ after⟩ name = comment.document name := by
  refine ⟨forall₂_params comment, ?_⟩
  intro before line after hlines hidle
  obtain ⟨lines⟩ := comment
  subst hlines
  exact (document_of_idle hidle name).symm

/-- A comment with a bare line behind a good one, and a line for a name that
has no type. -/
def overdescribed : Comment :=
  ⟨["@param a from".toList, "@tsparam a int".toList, "@param a".toList, "@param b to".toList]⟩

theorem document_params_overdescribed :
    overdescribed.Idle "@param a".toList ∧ overdescribed.Idle "@param b to".toList ∧
      document ⟨["@param a from".toList, "@tsparam a int".toList, "@param b to".toList]⟩
        "f".toList = overdescribed.document "f".toList ∧
      document ⟨["@param a from".toList, "@tsparam a int".toList, "@param a".toList]⟩
        "f".toList = overdescribed.document "f".toList := by
  have hbare : overdescribed.Idle "@param a".toList := by
    refine ⟨by decide, fun field hcarries => ?_⟩
    have hnone : Tag.param.field? "@param a".toList = none := by decide
    rw [Tag.field?_eq_some_iff.mpr hcarries] at hnone
    cases hnone
  have hundeclared : overdescribed.Idle "@param b to".toList := by
    refine ⟨by decide, fun field hcarries => ?_⟩
    have hsome : Tag.param.field? "@param b to".toList = some ⟨"b".toList, "to".toList⟩ := by
      decide
    rw [Tag.field?_eq_some_iff.mpr hcarries] at hsome
    cases hsome
    decide
  obtain ⟨_, heffect⟩ := document_params overdescribed "f".toList
  exact ⟨hbare, hundeclared,
    heffect ["@param a from".toList, "@tsparam a int".toList] _ ["@param b to".toList] rfl hbare,
    heffect ["@param a from".toList, "@tsparam a int".toList, "@param a".toList] _ [] rfl
      hundeclared⟩

end Comment

end TypedExports
