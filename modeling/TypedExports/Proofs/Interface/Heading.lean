import TypedExports.Interface.Document
import TypedExports.Proofs.Catalogue
import TypedExports.Proofs.Comment.Field
import TypedExports.Proofs.Header.Extracted
import TypedExports.Proofs.Header.Pairing
import TypedExports.Proofs.Text.Lines
import TypedExports.Proofs.Text.Run

/-!
# Headings

A heading is a comment that goes on to the end of its line, and the language
of the interface has four characters that end a line. Only the line feed ends
a line of a header. So a category never holds a line feed, but it may hold one
of the other three, which the heading then shows as it is: what follows it is
no longer part of the comment (`exists_terminator_unsafeHeader`). Each of them
is a blank, so it stands inside of the category, and inside of a line of the
header without the blanks around that line (`headings_terminators`).

Headings are known by their place among the lines of the file: one stands in
front of the memory object, and one is the first line of each section but that
of the memory functions.
-/

namespace TypedExports

/-! ## Characters that end a line -/

namespace Text

/-- The characters that end a line of the generated language. -/
def lineTerminators : CodePoints := [(0x0A, 0x0A), (0x0D, 0x0D), (0x2028, 0x2029)]

def endsLine (c : Char) : Bool := lineTerminators.has c

example : lineTerminators.ascending = true ∧ lineTerminators.size = 4 := by decide

/-- What a comment that starts with two slashes takes in. -/
def lineComment (s : Text) : Text := s.takeWhile (!endsLine ·)

/-- No character of a text that is known to be without one ends a line. -/
theorem not_mem_of_endsLine {s : Text} {c : Char} (hs : s.all (!endsLine ·) = true)
    (hc : endsLine c = true) : c ∉ s := by
  intro hmem
  have := List.all_eq_true.mp hs c hmem
  rw [hc] at this
  cases this

theorem isBlank_of_endsLine {c : Char} (h : endsLine c = true) : isBlank c = true := by
  simp only [endsLine, lineTerminators, isBlank, blankCodePoints, CodePoints.has, List.any_cons,
    List.any_nil, Bool.or_eq_true, Bool.and_eq_true, decide_eq_true_eq, Bool.false_eq_true,
    or_false] at h ⊢
  omega

/-- A comment takes in all of its line as long as nothing else ends the line. -/
theorem lineComment_eq_iff {s rest : Text} :
    lineComment (s ++ lineFeed :: rest) = s ↔ ∀ c ∈ s, endsLine c = false := by
  constructor
  · intro h c hc
    rw [← h] at hc
    simpa using List.mem_takeWhile_imp hc
  · intro h
    have hfeed : (!endsLine lineFeed) = false := by decide
    exact takeWhile_run (by simpa using h) hfeed rest

end Text

namespace Interface

/-- The category is stated in a comment that documents something: it is the
trimmed rest of the first of the cleaned lines that open with the tag. -/
def Stated (stem header category : Text) : Prop :=
  ∃ pairing ∈ Header.pairings stem header, ∃ before rest after,
    (Comment.parse (Text.slice header pairing.commentStart pairing.commentEnd)).lines =
      before ++ (Tag.category.lead ++ rest) :: after ∧
    (∀ line ∈ before, ¬ Tag.category.Opens line) ∧ category = Text.trim rest

/-- The category is stated, and the character stands inside of it. -/
structure Encloses (stem header category : Text) (c : Char) : Prop where
  stated : Stated stem header category
  inner : ∃ before after, before ≠ [] ∧ after ≠ [] ∧ category = before ++ c :: after

variable {stem header category : Text} {c : Char}

/-! ## Where headings stand -/

/-- The lines in front of a section, if these are the sections before it. -/
def linesBefore (name : Text) (provenance : Provenance)
    (before : List (Section ExportedFunction)) : List Text :=
  provenance.lines ++ prologue name ++ before.flatMap sectionLines

/-- The lines behind the heading of a section, if these are the sections behind
it. -/
def linesBehind (s : Section ExportedFunction) (after : List (Section ExportedFunction)) :
    List Text :=
  s.members.flatMap Member.lines ++ [] :: (after.flatMap sectionLines ++ [['\x7d']])

/-- The text of the file from the heading of a section on. -/
def textFrom (s : Section ExportedFunction) (after : List (Section ExportedFunction)) : Text :=
  "// ".toList ++ s.category ++ Text.lineFeed :: Text.unlines (linesBehind s after)

theorem lines_eq_of_sections {functions : List ExportedFunction} {s : Section ExportedFunction}
    {before after : List (Section ExportedFunction)} (name : Text) (provenance : Provenance)
    (hsections : Catalogue.sections id functions = before ++ s :: after)
    (hmemory : s.category ≠ memoryCategory) :
    lines name functions provenance =
      linesBefore name provenance before ++ heading s.category :: linesBehind s after := by
  rw [lines, body, hsections, List.flatMap_append, List.flatMap_cons, sectionLines, headingLines,
    if_neg hmemory, linesBefore, linesBehind]
  simp only [List.append_assoc, List.cons_append, List.nil_append]

theorem document_eq_of_sections {functions : List ExportedFunction}
    {s : Section ExportedFunction} {before after : List (Section ExportedFunction)} (name : Text)
    (provenance : Provenance)
    (hsections : Catalogue.sections id functions = before ++ s :: after)
    (hmemory : s.category ≠ memoryCategory) :
    document name functions provenance =
      Text.unlines (linesBefore name provenance before) ++
        Text.lineFeed :: (Member.indent ++ textFrom s after) := by
  have hbefore : linesBefore name provenance before ≠ [] := by simp [linesBefore, prologue]
  have hbehind : linesBehind s after ≠ [] := by simp [linesBehind]
  rw [document, lines_eq_of_sections name provenance hsections hmemory,
    Text.unlines_append hbefore (List.cons_ne_nil _ _), Text.unlines_cons hbehind, heading,
    textFrom]
  simp only [List.append_assoc]

/-- The heading of the memory functions stands in front of the memory object. -/
theorem exists_prologue_eq (name : Text) :
    ∃ front, prologue name = front ++
      [heading memoryCategory, Member.indent ++ "memory: WebAssembly.Memory;".toList, []] :=
  ⟨_, (List.append_assoc _ [_, _, _, _, _, _] _).symm⟩

/-! ## What a category encloses -/

theorem mem_heading_iff (hc : Text.endsLine c = true) : c ∈ heading category ↔ c ∈ category := by
  have hmark : c ∉ Member.indent ++ "// ".toList :=
    Text.not_mem_of_endsLine (by decide) hc
  exact List.mem_append.trans (or_iff_right hmark)

/-- The category that a comment gives stands behind its tag. -/
theorem exists_lines_of_value? {comment : Comment} {value : Text}
    (h : comment.value? .category = some value) :
    ∃ before rest after, comment.lines = before ++ (Tag.category.lead ++ rest) :: after ∧
      (∀ line ∈ before, ¬ Tag.category.Opens line) ∧ value = Text.trim rest := by
  rw [Comment.value?, Comment.values, List.head?_filterMap, List.findSome?_eq_some_iff] at h
  obtain ⟨before, line, after, hlines, hvalue, hnone⟩ := h
  obtain ⟨rest, rfl, rfl⟩ := Tag.value?_eq_some_iff.mp hvalue
  exact ⟨before, rest, after, hlines,
    fun line hline => Tag.value?_eq_none_iff.mp (hnone line hline), rfl⟩

theorem stated_of_mem_extract {f : ExportedFunction} (hf : f ∈ Header.extract stem header) :
    f.effectiveCategory = ExportedFunction.defaultCategory ∨
      Stated stem header f.effectiveCategory := by
  obtain ⟨pairing, hpairing, _, hdocuments⟩ := Header.exists_pairing_of_mem_extract hf
  obtain ⟨name, _, rfl⟩ := hdocuments.declared
  rw [ExportedFunction.effectiveCategory, Comment.document]
  generalize hcomment :
    Comment.parse (Text.slice header pairing.commentStart pairing.commentEnd) = comment
  cases hcategory : comment.value? .category with
  | none => exact Or.inl rfl
  | some value =>
      refine Or.inr ⟨pairing, hpairing, ?_⟩
      rw [hcomment]
      exact exists_lines_of_value? hcategory

theorem Stated.trimmed (h : Stated stem header category) : Text.Trimmed category := by
  obtain ⟨_, _, _, rest, _, _, _, rfl⟩ := h
  exact Text.trimmed_trim rest

theorem Encloses.mem (h : Encloses stem header category c) : c ∈ category := by
  obtain ⟨_, _, _, _, rfl⟩ := h.inner
  simp

/-- Blanks around a line of the header are not part of the category. -/
theorem Encloses.exists_line (h : Encloses stem header category c) :
    ∃ line ∈ Text.lines header, c ∈ Text.trim line := by
  have hmem := h.mem
  obtain ⟨pairing, hpairing, before, rest, after, hlines, _, rfl⟩ := h.stated
  obtain ⟨_, f, _, hdocuments⟩ := (Header.reads_scan stem [] header).exists_documents hpairing
  obtain ⟨body, hslice, hpiece⟩ := hdocuments.comment.exists_slice_eq
  have hline : Tag.category.lead ++ rest ∈
      (Comment.parse (Comment.opener ++ body ++ Comment.closer)).lines := by
    rw [← hslice]
    exact hlines ▸ List.mem_append_right _ List.mem_cons_self
  obtain ⟨l, hl, hinfix⟩ := Header.exists_line_of_mem_lines hpiece hline
  have hrest : rest <:+: l := (List.suffix_append _ rest).isInfix.trans hinfix
  have htrim := Text.infix_trim (Text.trimmed_trim rest) ((Text.trim_isInfix rest).trans hrest)
  exact ⟨l, hl, htrim.subset hmem⟩

/-- A category under which functions are listed encloses the characters that
end a line, as far as it holds any. -/
theorem mem_iff_encloses {s : Section ExportedFunction}
    (hs : s ∈ Catalogue.sections id (Header.extract stem header)) (hc : Text.endsLine c = true) :
    c ∈ s.category ↔ Encloses stem header s.category c := by
  refine ⟨fun hmem => ?_, Encloses.mem⟩
  obtain ⟨⟨f, hf, hcategory⟩, _⟩ := Catalogue.mem_of_mem_sections hs
  rw [← hcategory] at hmem ⊢
  rcases stated_of_mem_extract hf with hdefault | hstated
  · rw [id_eq, hdefault] at hmem
    exact absurd hmem (Text.not_mem_of_endsLine (by decide) hc)
  · exact ⟨hstated, hstated.trimmed.exists_inner (Text.isBlank_of_endsLine hc) hmem⟩

/-- **Headings.** The memory object has a heading without a character that ends
a line. Behind it, each section but that of the memory functions starts with
its heading. This holds no line feed. It holds another character that ends a
line exactly where the category encloses one, and all of it is one comment
exactly if the category encloses none. No category does if no line of the header
holds such a character, apart from the blanks around the line. -/
theorem headings_terminators (stem header name : Text) (provenance : Provenance) :
    (∃ front, prologue name = front ++
      [heading memoryCategory, Member.indent ++ "memory: WebAssembly.Memory;".toList, []]) ∧
    (∀ c ∈ heading memoryCategory, Text.endsLine c = false) ∧
    ∀ before s after,
      Catalogue.sections id (Header.extract stem header) = before ++ s :: after →
      s.category ≠ memoryCategory →
      lines name (Header.extract stem header) provenance =
          linesBefore name provenance before ++ heading s.category :: linesBehind s after ∧
        document name (Header.extract stem header) provenance =
          Text.unlines (linesBefore name provenance before) ++
            Text.lineFeed :: (Member.indent ++ textFrom s after) ∧
        Text.lineFeed ∉ heading s.category ∧
        (∀ c, Text.endsLine c = true →
          (c ∈ heading s.category ↔ Encloses stem header s.category c)) ∧
        (Text.lineComment (textFrom s after) = "// ".toList ++ s.category ↔
          ∀ c, Text.endsLine c = true → ¬ Encloses stem header s.category c) ∧
        ((∀ l ∈ Text.lines header, ∀ c ∈ Text.trim l, Text.endsLine c = false) →
          ∀ c ∈ heading s.category, Text.endsLine c = false) := by
  refine ⟨exists_prologue_eq name, fun c hc => ?memory, ?_⟩
  case memory =>
    by_contra hnot
    rw [Bool.not_eq_false] at hnot
    exact Text.not_mem_of_endsLine (by decide) hnot hc
  intro before s after hsections hmemory
  have hs : s ∈ Catalogue.sections id (Header.extract stem header) := by
    rw [hsections]
    exact List.mem_append_right _ List.mem_cons_self
  have hencloses : ∀ c, Text.endsLine c = true →
      (c ∈ heading s.category ↔ Encloses stem header s.category c) := fun c hc =>
    (mem_heading_iff hc).trans (mem_iff_encloses hs hc)
  refine ⟨lines_eq_of_sections name provenance hsections hmemory,
    document_eq_of_sections name provenance hsections hmemory, ?feed, hencloses, ?comment, ?header⟩
  case feed =>
    intro hfeed
    -- a line feed ends a line of the header, too
    obtain ⟨l, hl, hinside⟩ := ((hencloses _ (by decide)).mp hfeed).exists_line
    exact (Text.mem_splitOn hl).1 ((Text.trim_isInfix l).subset hinside)
  case comment =>
    rw [textFrom, Text.lineComment_eq_iff]
    constructor
    · intro hnone c hc hinside
      have hmem := List.mem_append_right "// ".toList hinside.mem
      rw [hnone c hmem] at hc
      cases hc
    · intro hnone c hmem
      by_contra hc
      rw [Bool.not_eq_false] at hc
      exact hnone c hc ((hencloses c hc).mp (List.mem_append_right Member.indent hmem))
  case header =>
    intro hheader c hmem
    by_contra hc
    rw [Bool.not_eq_false] at hc
    obtain ⟨l, hl, hinside⟩ := ((hencloses c hc).mp hmem).exists_line
    rw [hheader l hl c hinside] at hc
    cases hc

/-- A header whose categories enclose a return and both separators. The return
in front of a line feed and the separator at the end of a line are not part of
them. -/
def unsafeHeader : Text :=
  "/**\n@category a\rb\r\n*/\nH_1()\n/**\n@category c\u2028d\n*/\nH_2()\n/**\n".toList ++
    "@category e\u2029f\u2029\n*/\nH_3()".toList

/-- The section of a category that only one function has. -/
def lonelySection (name category : Text) : Section ExportedFunction :=
  ⟨category, [{ name, category := some category }]⟩

def returnSection : Section ExportedFunction := lonelySection "H_1".toList "a\rb".toList

def lineSection : Section ExportedFunction := lonelySection "H_2".toList "c\u2028d".toList

def paragraphSection : Section ExportedFunction := lonelySection "H_3".toList "e\u2029f".toList

def unsafeProvenance : Provenance := ⟨⟨2025, 3, 14, 9, 26, 53, 0⟩, none, {}⟩

theorem members_eq_singleton {functions : List ExportedFunction} {f : ExportedFunction}
    (h : functions.filter (·.effectiveCategory = category) = [f]) :
    Catalogue.members id functions category = [f] := by
  rw [Catalogue.members]
  change (functions.filter (·.effectiveCategory = category)).mergeSort _ = _
  rw [h, List.mergeSort_singleton]

theorem sections_unsafeHeader :
    Catalogue.sections id (Header.extract "H_".toList unsafeHeader) =
      [returnSection, lineSection, paragraphSection] := by
  have hextract : Header.extract "H_".toList unsafeHeader =
      [{ name := "H_1".toList, category := some "a\rb".toList },
        { name := "H_2".toList, category := some "c\u2028d".toList },
        { name := "H_3".toList, category := some "e\u2029f".toList }] := by decide +kernel
  have hcategories : Catalogue.categories ["a\rb".toList, "c\u2028d".toList, "e\u2029f".toList] =
      ["a\rb".toList, "c\u2028d".toList, "e\u2029f".toList] := by
    rw [Catalogue.categories, List.mergeSort_of_pairwise (by decide)]
    decide
  rw [hextract, Catalogue.sections]
  change (Catalogue.categories ["a\rb".toList, "c\u2028d".toList, "e\u2029f".toList]).map _ = _
  rw [hcategories, List.map_cons, List.map_cons, List.map_cons, List.map_nil,
    members_eq_singleton (by rfl), members_eq_singleton (by rfl), members_eq_singleton (by rfl)]
  rfl

theorem headings_terminators_unsafeHeader :
    Catalogue.sections id (Header.extract "H_".toList unsafeHeader) =
        [returnSection] ++ lineSection :: [paragraphSection] ∧
      lineSection.category ≠ memoryCategory ∧
      lines defaultName (Header.extract "H_".toList unsafeHeader) unsafeProvenance =
        linesBefore defaultName unsafeProvenance [returnSection] ++
          heading lineSection.category :: linesBehind lineSection [paragraphSection] ∧
      document defaultName (Header.extract "H_".toList unsafeHeader) unsafeProvenance =
        Text.unlines (linesBefore defaultName unsafeProvenance [returnSection]) ++
          Text.lineFeed :: (Member.indent ++ textFrom lineSection [paragraphSection]) ∧
      '\u2028' ∈ heading lineSection.category ∧
      Encloses "H_".toList unsafeHeader lineSection.category '\u2028' ∧
      Text.lineComment (textFrom lineSection [paragraphSection]) ≠
        "// ".toList ++ lineSection.category := by
  have hmemory : lineSection.category ≠ memoryCategory := by decide
  obtain ⟨_, _, hheadings⟩ :=
    headings_terminators "H_".toList unsafeHeader defaultName unsafeProvenance
  obtain ⟨hlines, hdocument, _, hencloses, hcomment, _⟩ :=
    hheadings [returnSection] lineSection [paragraphSection] sections_unsafeHeader hmemory
  have hmem : '\u2028' ∈ heading lineSection.category := by decide
  have hinside := (hencloses '\u2028' (by decide)).mp hmem
  exact ⟨sections_unsafeHeader, hmemory, hlines, hdocument, hmem, hinside,
    fun hall => hcomment.mp hall '\u2028' (by decide) hinside⟩

/-- A heading of the file holds the character, which ends its line too early. -/
def Breaks (stem header name : Text) (provenance : Provenance) (c : Char) : Prop :=
  ∃ before s after,
    Catalogue.sections id (Header.extract stem header) = before ++ s :: after ∧
    s.category ≠ memoryCategory ∧
    lines name (Header.extract stem header) provenance =
      linesBefore name provenance before ++ heading s.category :: linesBehind s after ∧
    c ∈ heading s.category ∧ Text.endsLine c = true ∧
    Text.lineComment (textFrom s after) ≠ "// ".toList ++ s.category

theorem breaks_of_sections {name : Text} {provenance : Provenance}
    {before after : List (Section ExportedFunction)} {s : Section ExportedFunction}
    (hsections : Catalogue.sections id (Header.extract stem header) = before ++ s :: after)
    (hmemory : s.category ≠ memoryCategory) (hmem : c ∈ s.category)
    (hc : Text.endsLine c = true) : Breaks stem header name provenance c := by
  refine ⟨before, s, after, hsections, hmemory,
    lines_eq_of_sections name provenance hsections hmemory, (mem_heading_iff hc).mpr hmem, hc, ?_⟩
  intro hall
  have hnot := Text.lineComment_eq_iff.mp hall c (List.mem_append_right _ hmem)
  rw [hc] at hnot
  cases hnot

/-- Its headings end before their lines do, one at each character that can end
them. -/
theorem exists_terminator_unsafeHeader :
    Breaks "H_".toList unsafeHeader defaultName unsafeProvenance '\r' ∧
      Breaks "H_".toList unsafeHeader defaultName unsafeProvenance '\u2028' ∧
      Breaks "H_".toList unsafeHeader defaultName unsafeProvenance '\u2029' := by
  have hreturn : Catalogue.sections id (Header.extract "H_".toList unsafeHeader) =
      [] ++ returnSection :: [lineSection, paragraphSection] := sections_unsafeHeader
  have hline : Catalogue.sections id (Header.extract "H_".toList unsafeHeader) =
      [returnSection] ++ lineSection :: [paragraphSection] := sections_unsafeHeader
  have hparagraph : Catalogue.sections id (Header.extract "H_".toList unsafeHeader) =
      [returnSection, lineSection] ++ paragraphSection :: [] := sections_unsafeHeader
  exact ⟨breaks_of_sections hreturn (by decide) (by decide) (by decide),
    breaks_of_sections hline (by decide) (by decide) (by decide),
    breaks_of_sections hparagraph (by decide) (by decide) (by decide)⟩

end Interface

end TypedExports
