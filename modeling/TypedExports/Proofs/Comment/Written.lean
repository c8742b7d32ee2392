import TypedExports.Header.Written
import TypedExports.Proofs.Comment.Tag

/-!
# Written comments are read back

The comment that is written for a function is a list of tags with their
values. Reading it gives the tags again (`parse_written`), each value under
its tag (`values_tags`), and so everything that is known of the function
(`WellFormed.document`).
-/

namespace TypedExports

/-! ## The comment as tags and values -/

/-- The values, each under the tag. -/
def Tag.under (tag : Tag) (values : List Text) : List (Tag × Text) := values.map (tag, ·)

/-- The values under a tag. -/
def Tag.valuesIn (tag : Tag) (tags : List (Tag × Text)) : List Text :=
  tags.filterMap fun t => if t.1 = tag then some t.2 else none

theorem Tag.valuesIn_append (tag : Tag) (tags tags' : List (Tag × Text)) :
    tag.valuesIn (tags ++ tags') = tag.valuesIn tags ++ tag.valuesIn tags' :=
  List.filterMap_append

theorem Tag.valuesIn_under (tag other : Tag) (values : List Text) :
    tag.valuesIn (other.under values) = if other = tag then values else [] := by
  rw [valuesIn, under, List.filterMap_map]
  by_cases h : other = tag
  · simp [h]
  · simp [h]

namespace ExportedFunction

/-- The parameters with their types. -/
def typedFields (f : ExportedFunction) : List Field :=
  f.params.map fun param => ⟨param.name, param.type⟩

/-- The parameters that are described, with their descriptions. -/
def describedFields (f : ExportedFunction) : List Field :=
  f.params.filterMap fun param => param.description.map fun text => ⟨param.name, text⟩

/-- The tags of the comment in the order in which they are written. -/
def tags (f : ExportedFunction) : List (Tag × Text) :=
  Tag.brief.under f.brief.toList ++ Tag.category.under f.category.toList ++
    Tag.returnType.under f.returnType.toList ++ Tag.returned.under f.returnDescription.toList ++
    Tag.typedParam.under (f.typedFields.map Field.written) ++
    Tag.param.under (f.describedFields.map Field.written)

theorem flatMap_describedFields (f : ExportedFunction) :
    f.describedFields.flatMap (fun field => Tag.param.line field.written) =
      f.params.flatMap fun param =>
        (param.description.map fun text =>
          Tag.param.line (Field.written ⟨param.name, text⟩)).getD [] := by
  unfold describedFields
  induction f.params with
  | nil => rfl
  | cons param params ih =>
      rw [List.flatMap_cons, ← ih, List.filterMap_cons]
      cases param.description <;> simp

theorem writtenTags_eq (f : ExportedFunction) :
    f.writtenTags = f.tags.flatMap fun t => t.1.line t.2 := by
  have hoption : ∀ (o : Option Text) (line : Text → Text),
      (o.map line).getD [] = o.toList.flatMap line := by
    intro o line
    cases o <;> simp
  rw [writtenTags, writtenParams, ← flatMap_describedFields]
  simp only [tags, Tag.under, typedFields, hoption, List.flatMap_append, List.flatMap_map,
    List.append_assoc]

variable {stem : Text} {f : ExportedFunction}

theorem WellFormed.typedField (h : f.WellFormed stem) {field : Field}
    (hfield : field ∈ f.typedFields) : Field.IsName field.name ∧ Tag.IsValue field.text := by
  obtain ⟨param, hparam, rfl⟩ := List.mem_map.mp hfield
  exact ⟨h.paramName param hparam, h.paramType param hparam⟩

theorem WellFormed.describedField (h : f.WellFormed stem) {field : Field}
    (hfield : field ∈ f.describedFields) : Field.IsName field.name ∧ Tag.IsValue field.text := by
  obtain ⟨param, hparam, hmap⟩ := List.mem_filterMap.mp hfield
  obtain ⟨text, htext, rfl⟩ := Option.map_eq_some_iff.mp hmap
  exact ⟨h.paramName param hparam, h.paramDescription param hparam text htext⟩

theorem WellFormed.isValue (h : f.WellFormed stem) : ∀ t ∈ f.tags, Tag.IsValue t.2 := by
  intro t ht
  simp only [tags, Tag.under, List.mem_append, List.mem_map, Option.mem_toList] at ht
  rcases ht with ((((⟨v, hv, rfl⟩ | ⟨v, hv, rfl⟩) | ⟨v, hv, rfl⟩) | ⟨v, hv, rfl⟩) |
    ⟨_, ⟨field, hfield, rfl⟩, rfl⟩) | ⟨_, ⟨field, hfield, rfl⟩, rfl⟩
  · exact h.brief v hv
  · exact h.category v hv
  · exact h.returnType v hv
  · exact h.returnDescription v hv
  · exact Field.isValue_written (h.typedField hfield).1 (h.typedField hfield).2
  · exact Field.isValue_written (h.describedField hfield).1 (h.describedField hfield).2

end ExportedFunction

/-! ## Reading the comment -/

namespace Comment

/-- The comment around written tags, between its delimiters. -/
def writtenBody (tags : List (Tag × Text)) : Text :=
  "*\n".toList ++ (tags.flatMap fun t => t.1.line t.2) ++ [' ']

theorem lines_writtenTags {tags : List (Tag × Text)}
    (h : ∀ t ∈ tags, Text.lineFeed ∉ t.2) :
    Text.lines ((tags.flatMap fun t => t.1.line t.2) ++ [' ']) =
      (tags.map fun t => " * ".toList ++ t.1.lead ++ t.2) ++ [[' ']] := by
  induction tags with
  | nil => rfl
  | cons t tags ih =>
      have hline : Text.lineFeed ∉ " * ".toList ++ t.1.lead ++ t.2 := by
        have hlead : Text.lineFeed ∉ " * ".toList ++ t.1.lead := by
          cases t.1 <;> decide
        rw [List.mem_append, not_or]
        exact ⟨hlead, h t List.mem_cons_self⟩
      rw [List.flatMap_cons, Tag.line, List.append_assoc, List.append_assoc,
        List.singleton_append, Text.lines, List.splitOn_append_cons_self_of_not_mem hline,
        ← Text.lines, ih fun t ht => h t (List.mem_cons_of_mem _ ht)]
      rfl

theorem cleanLine_tag {t : Tag × Text} (h : Tag.IsValue t.2) :
    cleanLine (" * ".toList ++ t.1.lead ++ t.2) = t.1.lead ++ t.2 := by
  have hne : t.1.lead ++ t.2 ≠ [] := by simp [h.ne_nil]
  have htrimmed : Text.Trimmed (t.1.lead ++ t.2) := by
    constructor
    · intro c hc
      rw [Tag.head?_lead_append] at hc
      cases hc
      decide
    · intro c hc
      rw [List.getLast?_append_of_ne_nil _ h.ne_nil] at hc
      exact h.isTrimmed.last c hc
  have := cleanLine_marked Text.isBlank_of_mem_space Text.isBlank_of_mem_space
    (List.forall_mem_nil _) htrimmed hne
  simpa using this

/-- The lines of a written comment are its tags. -/
theorem parse_written {tags : List (Tag × Text)} (h : ∀ t ∈ tags, Tag.IsValue t.2) :
    parse (opener ++ writtenBody tags ++ closer) = ⟨tags.map fun t => t.1.lead ++ t.2⟩ := by
  have hlines : Text.lines (writtenBody tags) =
      ['*'] :: ((tags.map fun t => " * ".toList ++ t.1.lead ++ t.2) ++ [[' ']]) := by
    have hstar : Text.lineFeed ∉ ['*'] := by decide
    rw [← lines_writtenTags fun t ht => (h t ht).one_line, writtenBody, List.append_assoc,
      Text.lines, Text.lines]
    exact List.splitOn_append_cons_self_of_not_mem hstar _
  have hclean : (tags.map fun t => " * ".toList ++ t.1.lead ++ t.2).map cleanLine =
      tags.map fun t => t.1.lead ++ t.2 := by
    rw [List.map_map]
    exact List.map_congr_left fun t ht => cleanLine_tag (h t ht)
  -- no tag is dropped as an empty line; the first line and the last one are
  have hkept : (tags.map fun t => t.1.lead ++ t.2).filter (· ≠ []) =
      tags.map fun t => t.1.lead ++ t.2 := by
    rw [List.filter_eq_self]
    intro line hline
    obtain ⟨t, ht, rfl⟩ := List.mem_map.mp hline
    simp [(h t ht).ne_nil]
  have hstar : cleanLine ['*'] = [] := by decide
  have hblank : cleanLine [' '] = [] := by decide
  rw [parse, rawLines_delimited, hlines, List.map_cons, List.map_append, hclean, hstar,
    List.map_singleton, hblank, List.filter_cons_of_neg (by simp), List.filter_append, hkept]
  simp

theorem not_closer_line {t : Tag × Text} (h : Tag.IsValue t.2) :
    ¬ closer <:+: t.1.line t.2 := by
  have hlead : ¬ closer <:+: " * ".toList ++ t.1.lead := by
    cases t.1 <;> decide
  have hlast : (" * ".toList ++ t.1.lead).getLast? ≠ some '*' := by
    cases t.1 <;> decide
  rw [Tag.line]
  refine not_closer_append ?_ (by decide) (Or.inr (by decide))
  exact not_closer_append hlead h.no_closer (Or.inl hlast)

/-- Nothing in a written comment ends it early. -/
theorem not_closer_writtenBody {tags : List (Tag × Text)} (h : ∀ t ∈ tags, Tag.IsValue t.2) :
    ¬ closer <:+: writtenBody tags := by
  have htags : ¬ closer <:+: (tags.flatMap fun t => t.1.line t.2) ++ [' '] := by
    induction tags with
    | nil => decide
    | cons t tags ih =>
        rw [List.flatMap_cons, List.append_assoc]
        refine not_closer_append (not_closer_line (h t List.mem_cons_self)) ?_ (Or.inl ?_)
        · exact ih fun t ht => h t (List.mem_cons_of_mem _ ht)
        · rw [Tag.line, List.getLast?_concat]
          decide
  rw [writtenBody, List.append_assoc]
  exact not_closer_append (by decide) htags (Or.inl (by decide))

/-- The values of a tag are those written under it. -/
theorem values_tags {tags : List (Tag × Text)} (h : ∀ t ∈ tags, Tag.IsValue t.2) (tag : Tag) :
    values ⟨tags.map fun t => t.1.lead ++ t.2⟩ tag = tag.valuesIn tags := by
  rw [values, List.filterMap_map, Tag.valuesIn]
  refine List.filterMap_congr fun t ht => ?_
  by_cases htag : t.1 = tag
  · rw [if_pos htag, Function.comp_apply, ← htag, Tag.value?_lead, (h t ht).trimmed]
  · rw [if_neg htag, Function.comp_apply, Tag.value?_lead_of_ne (Ne.symm htag)]

end Comment

theorem Field.filterMap_split?_written {fields : List Field}
    (h : ∀ field ∈ fields, IsName field.name ∧ Tag.IsValue field.text) :
    (fields.map written).filterMap split? = fields := by
  rw [List.filterMap_map]
  conv => rhs; rw [← List.filterMap_some (l := fields)]
  refine List.filterMap_congr fun field hfield => ?_
  obtain ⟨hname, htext⟩ := h field hfield
  exact split?_written hname.no_blank htext.isTrimmed

namespace ExportedFunction

/-! ## The comment documents the function -/

/-- The comment that is written for the function, as its lines. -/
def writtenComment (f : ExportedFunction) : Comment := ⟨f.tags.map fun t => t.1.lead ++ t.2⟩

variable {stem : Text} {f : ExportedFunction}

theorem WellFormed.values (h : f.WellFormed stem) (tag : Tag) :
    f.writtenComment.values tag = tag.valuesIn f.tags :=
  Comment.values_tags h.isValue tag

theorem WellFormed.fields_eq (h : f.WellFormed stem) {tag : Tag} {fields : List Field}
    (hvalues : tag.valuesIn f.tags = fields.map Field.written)
    (hfields : ∀ field ∈ fields, Field.IsName field.name ∧ Tag.IsValue field.text) :
    f.writtenComment.fields tag = fields := by
  rw [Comment.fields, h.values, hvalues]
  exact Field.filterMap_split?_written hfields

theorem WellFormed.fields_typedParam (h : f.WellFormed stem) :
    f.writtenComment.fields .typedParam = f.typedFields :=
  h.fields_eq (by simp [tags, Tag.valuesIn_append, Tag.valuesIn_under]) fun _ => h.typedField

theorem WellFormed.fields_param (h : f.WellFormed stem) :
    f.writtenComment.fields .param = f.describedFields :=
  h.fields_eq (by simp [tags, Tag.valuesIn_append, Tag.valuesIn_under]) fun _ => h.describedField

/-- Parameters of one name agree, so it does not matter which of their
descriptions counts. -/
theorem WellFormed.describe? (h : f.WellFormed stem) {param : Param} (hparam : param ∈ f.params) :
    f.writtenComment.describe? param.name = param.description := by
  have hagree : ∀ field ∈ f.describedFields.reverse, field.name = param.name →
      param.description = some field.text := by
    intro field hfield hname
    obtain ⟨other, hother, hmap⟩ := List.mem_filterMap.mp (List.mem_reverse.mp hfield)
    obtain ⟨text, htext, rfl⟩ := Option.map_eq_some_iff.mp hmap
    rw [h.agreeing param hparam other hother hname.symm]
    exact htext
  rw [Comment.describe?, h.fields_param]
  -- the last description of the name counts, and it is the parameter's own
  cases hfind : f.describedFields.reverse.find? (·.name = param.name) with
  | some field =>
      have hname := List.find?_some hfind
      rw [Option.map_some, hagree field (List.mem_of_find?_eq_some hfind) (by simpa using hname)]
  | none =>
      cases hdesc : param.description with
      | none => rfl
      | some text =>
          have hmem : (⟨param.name, text⟩ : Field) ∈ f.describedFields :=
            List.mem_filterMap.mpr ⟨param, hparam, by rw [hdesc]; rfl⟩
          have := List.find?_eq_none.mp hfind _ (List.mem_reverse.mpr hmem)
          simp at this

/-- **The written comment documents the function.** -/
theorem WellFormed.document (h : f.WellFormed stem) : f.writtenComment.document f.name = f := by
  have hparams : f.writtenComment.params = f.params := by
    rw [Comment.params, h.fields_typedParam, typedFields, List.map_map]
    conv => rhs; rw [← List.map_id f.params]
    refine List.map_congr_left fun param hparam => ?_
    simp only [Function.comp_apply, h.describe? hparam, id]
  simp only [Comment.document, hparams, Comment.value?, h.values, tags, Tag.valuesIn_append,
    Tag.valuesIn_under, reduceCtorEq, if_false, if_true, List.nil_append, List.append_nil,
    Option.head?_toList]

end ExportedFunction

end TypedExports
