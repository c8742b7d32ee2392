import TypedExports.Interface.Member

/-!
# The lines of a member

A documentation block as an opening line, inner lines with a content behind
a star, and a closing line. The contents are the brief description and,
behind a spacer, the details: one for each parameter, and one for the
returned value if it is shown.
-/

namespace TypedExports.Interface.Member

variable {f : ExportedFunction}

/-! ## Contents -/

/-- What stands behind the star on the line about a parameter. -/
def paramContent (param : Param) : Text :=
  " @param ".toList ++ param.name ++ ' ' :: param.description.getD []

/-- What stands behind the star on the line about the returned value. -/
def returnContent (returned : Text) : Text := " @returns ".toList ++ returned

/-- The contents below the brief description, the spacer apart. -/
def details (f : ExportedFunction) : List Text :=
  f.params.map paramContent ++ ((shownReturn? f).map returnContent).toList

/-- The details behind their spacer, which stands only where there are any. -/
def spaced (details : List Text) : List Text := if details = [] then [] else [] :: details

theorem head?_paramContent (param : Param) : (paramContent param).head? = some ' ' := rfl

theorem head?_returnContent (returned : Text) : (returnContent returned).head? = some ' ' := rfl

theorem detailLines_eq (f : ExportedFunction) :
    detailLines f = (spaced (details f)).map docLine := by
  have hlines : f.params.map paramLine ++ ((shownReturn? f).map fun returned =>
      docLine (" @returns ".toList ++ returned)).toList = (details f).map docLine := by
    rw [details, List.map_append, List.map_map]
    cases shownReturn? f <;> rfl
  rw [detailLines, hlines, spaced]
  simp only [List.map_eq_nil_iff]
  split <;> rfl

theorem docLines_of_none (h : shownBrief? f = none) : docLines f = [] := by
  rw [docLines, h]

theorem docLines_of_some {brief : Text} (h : shownBrief? f = some brief) :
    docLines f = (indent ++ "/**".toList) ::
      ((' ' :: brief) :: spaced (details f)).map docLine ++ [docLine ['/']] := by
  rw [docLines, h, List.map_cons, ← detailLines_eq]

theorem exists_brief_of_docLines (h : docLines f ≠ []) : ∃ brief, shownBrief? f = some brief := by
  cases hbrief : shownBrief? f with
  | none => exact absurd (docLines_of_none hbrief) h
  | some brief => exact ⟨brief, rfl⟩

theorem content_cases {brief content : Text}
    (h : content ∈ (' ' :: brief) :: spaced (details f)) :
    content = ' ' :: brief ∨ content = [] ∨ (∃ param ∈ f.params, content = paramContent param) ∨
      ∃ returned, shownReturn? f = some returned ∧ content = returnContent returned := by
  rw [List.mem_cons] at h
  refine h.imp_right fun hspaced => ?_
  unfold spaced at hspaced
  split at hspaced
  · exact absurd hspaced List.not_mem_nil
  · rw [List.mem_cons] at hspaced
    refine hspaced.imp_right fun hdetail => ?_
    rw [details, List.mem_append, List.mem_map, Option.mem_toList, Option.map_eq_some_iff]
      at hdetail
    rcases hdetail with ⟨param, hparam, rfl⟩ | ⟨returned, hreturned, rfl⟩
    · exact Or.inl ⟨param, hparam, rfl⟩
    · exact Or.inr ⟨returned, hreturned, rfl⟩

/-- None of them makes a closer with the star in front of it. -/
theorem head?_content_ne {brief content : Text}
    (h : content ∈ (' ' :: brief) :: spaced (details f)) : content.head? ≠ some '/' := by
  have hblank : some ' ' ≠ some '/' := by decide
  rcases content_cases h with rfl | rfl | ⟨param, -, rfl⟩ | ⟨returned, -, rfl⟩
  · exact hblank
  · exact (Option.some_ne_none '/').symm
  · rwa [head?_paramContent]
  · rwa [head?_returnContent]

theorem docLines_cases {line : Text} (h : line ∈ docLines f) :
    line = indent ++ "/**".toList ∨ ∃ content, line = docLine content ∧
      (content = ['/'] ∨ ∃ brief, shownBrief? f = some brief ∧
        content ∈ (' ' :: brief) :: spaced (details f)) := by
  cases hbrief : shownBrief? f with
  | none =>
      rw [docLines_of_none hbrief] at h
      cases h
  | some brief =>
      rw [docLines_of_some hbrief, List.mem_append, List.mem_cons, List.mem_map,
        List.mem_singleton] at h
      rcases h with (rfl | ⟨content, hcontent, rfl⟩) | rfl
      · exact Or.inl rfl
      · exact Or.inr ⟨content, rfl, Or.inr ⟨brief, rfl, hcontent⟩⟩
      · exact Or.inr ⟨['/'], rfl, Or.inl rfl⟩

/-! ## Texts -/

/-- The texts of the function that its documentation block shows. -/
def shownTexts (f : ExportedFunction) : List Text :=
  (shownBrief? f).toList ++
    f.params.flatMap (fun param => [param.name, param.description.getD []]) ++
    (shownReturn? f).toList

theorem mem_returnDescription {returned : Text} (h : shownReturn? f = some returned) :
    returned ∈ f.returnDescription := by
  unfold shownReturn? at h
  split at h
  · cases h
  · exact Option.eq_some_of_filter_eq_some h

theorem forall_mem_shownTexts {P : Text → Prop} (h : f.EveryText P) (hnil : P []) :
    ∀ text ∈ shownTexts f, P text := by
  intro text hmem
  rw [shownTexts, List.mem_append, List.mem_append, List.mem_flatMap] at hmem
  rcases hmem with (hmem | ⟨param, hparam, hmem⟩) | hmem
  · exact h.brief text (Option.eq_some_of_filter_eq_some (Option.mem_toList.mp hmem))
  · rw [List.mem_cons, List.mem_singleton] at hmem
    rcases hmem with rfl | rfl
    · exact h.paramName param hparam
    · cases hdescribed : param.description with
      | none => exact hnil
      | some described => exact h.paramDescription param hparam described hdescribed
  · exact h.returnDescription text (mem_returnDescription (Option.mem_toList.mp hmem))

theorem brief_mem_shownTexts {brief : Text} (h : shownBrief? f = some brief) :
    brief ∈ shownTexts f := by
  simp [shownTexts, h]

theorem param_mem_shownTexts {param : Param} (h : param ∈ f.params) :
    param.name ∈ shownTexts f ∧ param.description.getD [] ∈ shownTexts f := by
  have hflat : ∀ text ∈ [param.name, param.description.getD []], text ∈ shownTexts f := by
    intro text htext
    rw [shownTexts, List.mem_append, List.mem_append, List.mem_flatMap]
    exact Or.inl (Or.inr ⟨param, h, htext⟩)
  exact ⟨hflat _ List.mem_cons_self, hflat _ (List.mem_cons_of_mem _ List.mem_cons_self)⟩

theorem returned_mem_shownTexts {returned : Text} (h : shownReturn? f = some returned) :
    returned ∈ shownTexts f := by
  simp [shownTexts, h]

/-! ## Line feeds -/

theorem lineFeed_mem_paramContent_iff {param : Param} : Text.lineFeed ∈ paramContent param ↔
    Text.lineFeed ∈ param.name ∨ Text.lineFeed ∈ param.description.getD [] := by
  have hmark : Text.lineFeed ∉ " @param ".toList := by decide
  have hblank : Text.lineFeed ≠ ' ' := by decide
  have hname : Text.lineFeed ∈ " @param ".toList ++ param.name ↔ Text.lineFeed ∈ param.name :=
    List.mem_append.trans (or_iff_right hmark)
  have hdescription : Text.lineFeed ∈ ' ' :: param.description.getD [] ↔
      Text.lineFeed ∈ param.description.getD [] :=
    List.mem_cons.trans (or_iff_right hblank)
  exact List.mem_append.trans (or_congr hname hdescription)

theorem lineFeed_mem_returnContent_iff {returned : Text} :
    Text.lineFeed ∈ returnContent returned ↔ Text.lineFeed ∈ returned := by
  have hmark : Text.lineFeed ∉ " @returns ".toList := by decide
  exact List.mem_append.trans (or_iff_right hmark)

/-- The lines of the block are lines if its texts hold no line feed. -/
theorem lineFeed_not_mem_docLines (h : ∀ text ∈ shownTexts f, Text.lineFeed ∉ text) :
    ∀ line ∈ docLines f, Text.lineFeed ∉ line := by
  have hcontent : ∀ {brief content : Text}, shownBrief? f = some brief →
      content ∈ (' ' :: brief) :: spaced (details f) → Text.lineFeed ∉ content := by
    intro brief content hbrief hmem
    rcases content_cases hmem with rfl | rfl | ⟨param, hparam, rfl⟩ | ⟨returned, hreturned, rfl⟩
    · rw [List.mem_cons, not_or]
      exact ⟨by decide, h brief (brief_mem_shownTexts hbrief)⟩
    · exact List.not_mem_nil
    · obtain ⟨hname, hdescription⟩ := param_mem_shownTexts hparam
      rw [lineFeed_mem_paramContent_iff, not_or]
      exact ⟨h _ hname, h _ hdescription⟩
    · rw [lineFeed_mem_returnContent_iff]
      exact h returned (returned_mem_shownTexts hreturned)
  intro line hline
  rcases docLines_cases hline with rfl | ⟨content, rfl, rfl | ⟨brief, hbrief, hmem⟩⟩
  · decide
  · decide
  · rw [docLine, List.mem_append, not_or]
    exact ⟨by decide, hcontent hbrief hmem⟩

end TypedExports.Interface.Member
