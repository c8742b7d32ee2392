import Mathlib.Data.List.Forall2
import TypedExports.Interface.Document
import TypedExports.Proofs.Catalogue
import TypedExports.Proofs.Interface.Member
import TypedExports.Proofs.Text.Lines
import TypedExports.Proofs.Text.Run
import TypedExports.Text.Word

/-!
# The interface can be read back

What stands behind the indent tells the lines of a generated file apart: a
character of a name in a signature, a blank in the inner lines of a
documentation block, a slash where a block starts and in a heading. So the
lines of a member, of the members of a section and of a section can each be
told from what follows them, and equal files have the same sections with the
same members (`document_readable`).
-/

namespace TypedExports.Interface

namespace Member

variable {f g : ExportedFunction} {fs gs : List ExportedFunction}

/-- A function whose name is one and whose other texts are of one line each. -/
structure Legible (f : ExportedFunction) : Prop where
  name_ne_nil : f.name ≠ []
  name_chars : ∀ c ∈ f.name, Text.isNameChar c = true
  one_line : f.EveryText (Text.lineFeed ∉ ·)

instance (f : ExportedFunction) : Decidable (Legible f) :=
  decidable_of_iff
    (f.name ≠ [] ∧ f.name.all Text.isNameChar = true ∧ f.EveryText (Text.lineFeed ∉ ·))
    ⟨fun ⟨hne, hchars, hline⟩ => ⟨hne, List.all_eq_true.mp hchars, hline⟩,
      fun h => ⟨h.name_ne_nil, List.all_eq_true.mpr h.name_chars, h.one_line⟩⟩

/-- The members of the two functions say the same: name, brief description
and signature, and what the documentation block says if there is one. -/
structure Agrees (f g : ExportedFunction) : Prop where
  name : f.name = g.name
  brief : f.brief.getD [] = g.brief.getD []
  signature : Member.signature f = Member.signature g
  params : f.brief.getD [] ≠ [] → f.params.length = g.params.length
  returned : f.brief.getD [] ≠ [] → shownReturn? f = shownReturn? g

/-! ## What stands behind the indent -/

/-- The first character behind the indent. -/
def mark? (line : Text) : Option Char := (Text.after? indent line).bind List.head?

/-- Whether the line is an indent with a character of a name behind it. -/
def opensWithName (line : Text) : Bool := (mark? line).any Text.isNameChar

theorem mark?_indent (s : Text) : mark? (indent ++ s) = s.head? := by
  rw [mark?, Text.after?_append]
  rfl

theorem mark?_docLine (content : Text) : mark? (docLine content) = some ' ' := by
  rw [docLine, List.append_assoc, mark?_indent]
  rfl

theorem exists_signature_eq (f : ExportedFunction) :
    ∃ rest, signature f = indent ++ (f.name ++ '(' :: rest) := by
  refine ⟨(", ".toList).intercalate (f.params.map declared) ++
    ("): ".toList ++ (f.effectiveReturnType ++ [';'])), ?_⟩
  simp only [signature, List.append_assoc, List.cons_append]

theorem Legible.opensWithName_signature (hf : Legible f) : opensWithName (signature f) = true := by
  obtain ⟨rest, hsignature⟩ := exists_signature_eq f
  rw [opensWithName, hsignature, mark?_indent]
  cases hname : f.name with
  | nil => exact absurd hname hf.name_ne_nil
  | cons c cs => exact hf.name_chars c (hname ▸ List.mem_cons_self)

/-- The name ends at the bracket, which is no character of a name. -/
theorem Legible.name_eq (hf : Legible f) (hg : Legible g) (h : signature f = signature g) :
    f.name = g.name := by
  obtain ⟨rest, hsignature⟩ := exists_signature_eq f
  obtain ⟨rest', hsignature'⟩ := exists_signature_eq g
  rw [hsignature, hsignature', List.append_cancel_left_eq] at h
  have hbracket : Text.isNameChar '(' = false := by decide
  rw [← Text.takeWhile_run hf.name_chars hbracket rest, h,
    Text.takeWhile_run hg.name_chars hbracket rest']

/-! ## The details of a block -/

theorem paramContent_ne_returnContent (param : Param) (returned : Text) :
    paramContent param ≠ returnContent returned := by
  intro h
  have hthird : (paramContent param)[2]? = some 'p' := rfl
  have hthird' : (returnContent returned)[2]? = some 'r' := rfl
  rw [h, hthird'] at hthird
  exact absurd hthird (by decide)

theorem returnContent_inj {a b : Text} (h : returnContent a = returnContent b) : a = b :=
  List.append_cancel_left h

/-- Details for parameters in front of one for the returned value, if any. -/
theorem details_inj {params params' : List Param} {returned returned' : Option Text}
    (h : params.map paramContent ++ (returned.map returnContent).toList =
      params'.map paramContent ++ (returned'.map returnContent).toList) :
    params.length = params'.length ∧ returned = returned' := by
  induction params generalizing params' with
  | nil =>
      cases params' with
      | nil =>
          refine ⟨rfl, ?_⟩
          cases returned <;> cases returned'
          · rfl
          · cases h
          · cases h
          · rw [returnContent_inj (List.cons.inj h).1]
      | cons param params' =>
          cases returned with
          | none => cases h
          | some returned =>
              exact absurd (List.cons.inj h).1.symm (paramContent_ne_returnContent param returned)
  | cons param params ih =>
      cases params' with
      | nil =>
          cases returned' with
          | none => cases h
          | some returned' =>
              exact absurd (List.cons.inj h).1 (paramContent_ne_returnContent param returned')
      | cons param' params' =>
          obtain ⟨hlength, hreturned⟩ := ih (List.cons.inj h).2
          exact ⟨congrArg Nat.succ hlength, hreturned⟩

theorem spaced_inj {details details' : List Text} (h : spaced details = spaced details') :
    details = details' := by
  unfold spaced at h
  split at h <;> split at h
  · next hnil hnil' => rw [hnil, hnil']
  · cases h
  · cases h
  · exact (List.cons.inj h).2

theorem docLine_inj {a b : Text} (h : docLine a = docLine b) : a = b :=
  List.append_cancel_left h

/-- The closing line is none of the lines above it, so that a block can be
told from what follows it. -/
theorem docLines_append_inj {brief brief' : Text} (hbrief : shownBrief? f = some brief)
    (hbrief' : shownBrief? g = some brief') {rest rest' : List Text}
    (h : docLines f ++ rest = docLines g ++ rest') :
    brief = brief' ∧ details f = details g ∧ rest = rest' := by
  have hclose (f : ExportedFunction) (brief : Text) :
      docLine ['/'] ∉ ((' ' :: brief) :: spaced (details f)).map docLine := by
    intro hmem
    obtain ⟨content, hcontent, heq⟩ := List.mem_map.mp hmem
    exact head?_content_ne hcontent (docLine_inj heq ▸ rfl)
  rw [docLines_of_some hbrief, docLines_of_some hbrief', List.append_assoc,
    List.append_assoc] at h
  obtain ⟨hinner, hrest⟩ :=
    Text.append_cons_inj (List.cons.inj h).2 (hclose f brief) (hclose g brief')
  obtain ⟨hfirst, hspaced⟩ :=
    List.cons.inj ((List.map_inj_right fun _ _ => docLine_inj).mp hinner)
  exact ⟨(List.cons.inj hfirst).2, spaced_inj hspaced, hrest⟩

/-! ## Members one after another -/

theorem getD_shownBrief? (f : ExportedFunction) : (shownBrief? f).getD [] = f.brief.getD [] := by
  unfold shownBrief?
  cases f.brief with
  | none => rfl
  | some brief => cases brief <;> rfl

theorem lines_append (f : ExportedFunction) (rest : List Text) :
    lines f ++ rest = docLines f ++ signature f :: rest := by
  rw [lines, List.append_assoc]
  rfl

theorem Legible.signature_ne (hf : Legible f) {line : Text} (h : opensWithName line = false) :
    signature f ≠ line := by
  intro heq
  have hname := hf.opensWithName_signature
  rw [heq, h] at hname
  cases hname

theorem opensWithName_opening : opensWithName (indent ++ "/**".toList) = false := by
  decide

theorem opensWithName_heading (category : Text) : opensWithName (heading category) = false := by
  rw [opensWithName, heading, List.append_assoc, mark?_indent]
  rfl

/-- The first line of a member is none of those that end the members before
it, start a section or end the interface. -/
theorem Legible.exists_lines_eq_cons (hf : Legible f) :
    ∃ first others, lines f = first :: others ∧
      first ≠ [] ∧ first ≠ ['\x7d'] ∧ ∀ category, first ≠ heading category := by
  cases hbrief : shownBrief? f with
  | none =>
      refine ⟨signature f, [], ?_, hf.signature_ne rfl, hf.signature_ne rfl,
        fun category => hf.signature_ne (opensWithName_heading category)⟩
      rw [lines, docLines_of_none hbrief, List.nil_append]
  | some brief =>
      refine ⟨indent ++ "/**".toList, _, by rw [lines, docLines_of_some hbrief]; rfl, by decide,
        by decide, fun category h => ?_⟩
      rw [heading, List.append_assoc] at h
      have hsecond : some '*' = some '/' := congrArg (·[1]?) (List.append_cancel_left h)
      exact absurd hsecond (by decide)

/-- The lines of a member can be told from what follows them. -/
theorem Legible.lines_append_inj (hf : Legible f) (hg : Legible g) {rest rest' : List Text}
    (h : lines f ++ rest = lines g ++ rest') : Agrees f g ∧ rest = rest' := by
  rw [lines_append, lines_append] at h
  cases hbrief : shownBrief? f with
  | none =>
      have hnil : f.brief.getD [] = [] := by rw [← getD_shownBrief?, hbrief, Option.getD_none]
      rw [docLines_of_none hbrief] at h
      cases hbrief' : shownBrief? g with
      | none =>
          have hnil' : g.brief.getD [] = [] := by
            rw [← getD_shownBrief?, hbrief', Option.getD_none]
          rw [docLines_of_none hbrief'] at h
          obtain ⟨hsignature, hrest⟩ := List.cons.inj h
          exact ⟨{
            name := hf.name_eq hg hsignature
            brief := hnil.trans hnil'.symm
            signature := hsignature
            params := fun hne => absurd hnil hne
            returned := fun hne => absurd hnil hne }, hrest⟩
      | some brief' =>
          rw [docLines_of_some hbrief'] at h
          exact absurd (List.cons.inj h).1 (hf.signature_ne opensWithName_opening)
  | some brief =>
      cases hbrief' : shownBrief? g with
      | none =>
          rw [docLines_of_some hbrief, docLines_of_none hbrief'] at h
          exact absurd (List.cons.inj h).1.symm (hg.signature_ne opensWithName_opening)
      | some brief' =>
          obtain ⟨rfl, hdetails, h⟩ := docLines_append_inj hbrief hbrief' h
          obtain ⟨hlength, hreturned⟩ := details_inj hdetails
          obtain ⟨hsignature, hrest⟩ := List.cons.inj h
          exact ⟨{
            name := hf.name_eq hg hsignature
            brief := by rw [← getD_shownBrief? f, ← getD_shownBrief? g, hbrief, hbrief']
            signature := hsignature
            params := fun _ => hlength
            returned := fun _ => hreturned }, hrest⟩

theorem Legible.lines_append_ne (hf : Legible f) (rest rest' : List Text) :
    lines f ++ rest ≠ [] :: rest' := by
  intro h
  obtain ⟨first, others, hlines, hne, -⟩ := hf.exists_lines_eq_cons
  rw [hlines] at h
  exact hne (List.cons.inj h).1

/-- The members up to the empty line behind them. -/
theorem flatMap_lines_inj (hfs : ∀ f ∈ fs, Legible f) (hgs : ∀ g ∈ gs, Legible g)
    {rest rest' : List Text}
    (h : fs.flatMap lines ++ [] :: rest = gs.flatMap lines ++ [] :: rest') :
    List.Forall₂ Agrees fs gs ∧ rest = rest' := by
  induction fs generalizing gs with
  | nil =>
      cases gs with
      | nil => exact ⟨List.Forall₂.nil, (List.cons.inj h).2⟩
      | cons g gs =>
          rw [List.flatMap_cons, List.append_assoc] at h
          exact absurd h.symm ((hgs g List.mem_cons_self).lines_append_ne _ _)
  | cons f fs ih =>
      rw [List.forall_mem_cons] at hfs
      cases gs with
      | nil =>
          rw [List.flatMap_cons, List.append_assoc] at h
          exact absurd h (hfs.1.lines_append_ne _ _)
      | cons g gs =>
          rw [List.forall_mem_cons] at hgs
          rw [List.flatMap_cons, List.flatMap_cons, List.append_assoc, List.append_assoc] at h
          obtain ⟨hagrees, h⟩ := hfs.1.lines_append_inj hgs.1 h
          obtain ⟨hmembers, hrest⟩ := ih hfs.2 hgs.2 h
          exact ⟨List.Forall₂.cons hagrees hmembers, hrest⟩

/-! ## Which lines are signatures -/

theorem opensWithName_docLine (content : Text) : opensWithName (docLine content) = false := by
  rw [opensWithName, mark?_docLine]
  decide

theorem filter_docLines (f : ExportedFunction) : (docLines f).filter opensWithName = [] := by
  rw [List.filter_eq_nil_iff]
  intro line hline
  rw [Bool.not_eq_true]
  rcases docLines_cases hline with rfl | ⟨content, rfl, -⟩
  · exact opensWithName_opening
  · exact opensWithName_docLine content

theorem filter_flatMap_lines (hfs : ∀ f ∈ fs, Legible f) :
    (fs.flatMap lines).filter opensWithName = fs.map signature := by
  induction fs with
  | nil => rfl
  | cons f fs ih =>
      rw [List.forall_mem_cons] at hfs
      have hsignature : [signature f].filter opensWithName = [signature f] := by
        rw [List.filter_singleton, hfs.1.opensWithName_signature]
        rfl
      rw [List.flatMap_cons, List.filter_append, ih hfs.2, lines, List.filter_append,
        filter_docLines, hsignature]
      rfl

/-! ## Line feeds -/

theorem Legible.lineFeed_not_mem_signature (hf : Legible f) : Text.lineFeed ∉ signature f := by
  have hname : Text.lineFeed ∉ f.name := by
    intro hmem
    have hchar := hf.name_chars _ hmem
    exact absurd hchar (by decide)
  have hparams : Text.lineFeed ∉ (", ".toList).intercalate (f.params.map declared) := by
    refine Text.not_mem_intercalate (by decide) ?_
    intro piece hpiece
    obtain ⟨param, hparam, rfl⟩ := List.mem_map.mp hpiece
    rw [declared, List.mem_append, List.mem_append, not_or, not_or]
    exact ⟨⟨hf.one_line.paramName param hparam, by decide⟩, hf.one_line.paramType param hparam⟩
  have htype := hf.one_line.effectiveReturnType (by decide)
  have hlead : Text.lineFeed ∉ indent ++ f.name ++ '(' ::
      (", ".toList).intercalate (f.params.map declared) := by
    rw [List.mem_append, List.mem_append, List.mem_cons, not_or, not_or, not_or]
    exact ⟨⟨by decide, hname⟩, by decide, hparams⟩
  rw [signature, List.mem_append, List.mem_append, List.mem_append, not_or, not_or, not_or]
  exact ⟨⟨⟨hlead, by decide⟩, htype⟩, by decide⟩

theorem Legible.lineFeed_not_mem_lines (hf : Legible f) :
    ∀ line ∈ lines f, Text.lineFeed ∉ line := by
  intro line hline
  rw [lines, List.mem_append, List.mem_singleton] at hline
  rcases hline with hline | rfl
  · have hshown := forall_mem_shownTexts hf.one_line List.not_mem_nil
    exact lineFeed_not_mem_docLines hshown line hline
  · exact hf.lineFeed_not_mem_signature

end Member

open Member (Legible)

/-! ## Sections one after another -/

variable {s t : Section ExportedFunction} {ss ts : List (Section ExportedFunction)}
  {fs gs : List ExportedFunction}

/-- Two sections of one category whose members say the same. -/
structure SectionAgrees (s t : Section ExportedFunction) : Prop where
  category : s.category = t.category
  members : List.Forall₂ Member.Agrees s.members t.members

theorem sectionLines_append (s : Section ExportedFunction) (rest : List Text) :
    sectionLines s ++ rest =
      headingLines s.category ++ (s.members.flatMap Member.lines ++ [] :: rest) := by
  simp [sectionLines]

theorem heading_inj {a b : Text} (h : heading a = heading b) : a = b :=
  List.append_cancel_left h

/-- No section whose heading stands in the preamble starts with a heading. -/
theorem members_ne_heading (hfs : ∀ f ∈ fs, Legible f) (category : Text)
    (rest rest' : List Text) :
    fs.flatMap Member.lines ++ [] :: rest ≠ heading category :: rest' := by
  intro h
  cases fs with
  | nil => cases (List.cons.inj h).1
  | cons f fs =>
      obtain ⟨first, others, hlines, -, -, hheading⟩ :=
        (hfs f List.mem_cons_self).exists_lines_eq_cons
      rw [List.flatMap_cons, hlines] at h
      exact hheading category (List.cons.inj h).1

/-- The lines of a section can be told from what follows them. -/
theorem sectionLines_append_inj (hs : ∀ f ∈ s.members, Legible f)
    (ht : ∀ g ∈ t.members, Legible g) {rest rest' : List Text}
    (h : sectionLines s ++ rest = sectionLines t ++ rest') : SectionAgrees s t ∧ rest = rest' := by
  rw [sectionLines_append, sectionLines_append, headingLines, headingLines] at h
  by_cases hmemory : s.category = memoryCategory
  · by_cases hmemory' : t.category = memoryCategory
    · rw [if_pos hmemory, if_pos hmemory'] at h
      obtain ⟨hmembers, hrest⟩ := Member.flatMap_lines_inj hs ht h
      exact ⟨⟨hmemory.trans hmemory'.symm, hmembers⟩, hrest⟩
    · rw [if_pos hmemory, if_neg hmemory'] at h
      exact absurd h (members_ne_heading hs _ _ _)
  · by_cases hmemory' : t.category = memoryCategory
    · rw [if_neg hmemory, if_pos hmemory'] at h
      exact absurd h.symm (members_ne_heading ht _ _ _)
    · rw [if_neg hmemory, if_neg hmemory'] at h
      obtain ⟨hheading, h⟩ := List.cons.inj h
      obtain ⟨hmembers, hrest⟩ := Member.flatMap_lines_inj hs ht h
      exact ⟨⟨heading_inj hheading, hmembers⟩, hrest⟩

/-- No section starts with the line that closes the interface. -/
theorem sectionLines_append_ne (hs : ∀ f ∈ s.members, Legible f) (rest rest' : List Text) :
    sectionLines s ++ rest ≠ ['\x7d'] :: rest' := by
  intro h
  rw [sectionLines_append, headingLines] at h
  split at h
  · cases hmembers : s.members with
    | nil =>
        rw [hmembers] at h
        cases (List.cons.inj h).1
    | cons f fs =>
        obtain ⟨first, others, hlines, -, hbrace, -⟩ :=
          (hs f (hmembers ▸ List.mem_cons_self)).exists_lines_eq_cons
        rw [hmembers, List.flatMap_cons, hlines] at h
        exact hbrace (List.cons.inj h).1
  · cases (List.cons.inj h).1

theorem flatMap_sectionLines_inj (hss : ∀ s ∈ ss, ∀ f ∈ s.members, Legible f)
    (hts : ∀ t ∈ ts, ∀ g ∈ t.members, Legible g)
    (h : ss.flatMap sectionLines ++ [['\x7d']] = ts.flatMap sectionLines ++ [['\x7d']]) :
    List.Forall₂ SectionAgrees ss ts := by
  induction ss generalizing ts with
  | nil =>
      cases ts with
      | nil => exact List.Forall₂.nil
      | cons t ts =>
          rw [List.flatMap_cons, List.append_assoc] at h
          exact absurd h.symm (sectionLines_append_ne (hts t List.mem_cons_self) _ _)
  | cons s ss ih =>
      rw [List.forall_mem_cons] at hss
      cases ts with
      | nil =>
          rw [List.flatMap_cons, List.append_assoc] at h
          exact absurd h (sectionLines_append_ne hss.1 _ _)
      | cons t ts =>
          rw [List.forall_mem_cons] at hts
          rw [List.flatMap_cons, List.flatMap_cons, List.append_assoc, List.append_assoc] at h
          obtain ⟨hagrees, h⟩ := sectionLines_append_inj hss.1 hts.1 h
          exact List.Forall₂.cons hagrees (ih hss.2 hts.2 h)

/-! ## The file -/

/-- The lines behind the preamble: sections and closing brace. -/
def sectionsBody (functions : List ExportedFunction) : List Text :=
  (Catalogue.sections id functions).flatMap sectionLines ++ [['\x7d']]

theorem document_eq (name : Text) (functions : List ExportedFunction) (provenance : Provenance) :
    document name functions provenance =
      Text.unlines (provenance.lines ++ prologue name) ++
        Text.lineFeed :: Text.unlines (sectionsBody functions) := by
  have hpreamble : provenance.lines ++ prologue name ≠ [] := by
    intro h
    cases (List.append_eq_nil_iff.mp h).1
  have hbody : sectionsBody functions ≠ [] := by
    intro h
    cases (List.append_eq_nil_iff.mp h).2
  rw [← Text.unlines_append hpreamble hbody, document, lines, body, sectionsBody]
  simp only [List.append_assoc]

theorem legible_of_mem_sections (hfs : ∀ f ∈ fs, Legible f) :
    ∀ s ∈ Catalogue.sections id fs, ∀ f ∈ s.members, Legible f :=
  fun _ hs f hf => hfs f ((Catalogue.mem_of_mem_sections hs).2 f hf)

theorem lineFeed_not_mem_sectionsBody (hfs : ∀ f ∈ fs, Legible f) :
    ∀ line ∈ sectionsBody fs, Text.lineFeed ∉ line := by
  intro line hline
  rw [sectionsBody, List.mem_append, List.mem_flatMap, List.mem_singleton] at hline
  rcases hline with ⟨s, hs, hline⟩ | rfl
  · rw [sectionLines, List.mem_append, List.mem_append, List.mem_flatMap, List.mem_singleton]
      at hline
    rcases hline with (hline | ⟨f, hf, hline⟩) | rfl
    · rw [headingLines] at hline
      split at hline
      · cases hline
      · obtain rfl := List.mem_singleton.mp hline
        obtain ⟨f, hf, hcategory⟩ := (Catalogue.mem_of_mem_sections hs).1
        have hfeed := (hfs f hf).one_line.effectiveCategory (by decide)
        rw [heading, List.mem_append, not_or, ← hcategory]
        exact ⟨by decide, hfeed⟩
    · exact (legible_of_mem_sections hfs s hs f hf).lineFeed_not_mem_lines line hline
    · exact List.not_mem_nil
  · decide

theorem lines_unlines_sectionsBody (hfs : ∀ f ∈ fs, Legible f) :
    Text.lines (Text.unlines (sectionsBody fs)) = sectionsBody fs := by
  refine Text.lines_unlines ?_ (lineFeed_not_mem_sectionsBody hfs)
  intro h
  cases (List.append_eq_nil_iff.mp h).2

theorem filter_sectionLines (hs : ∀ f ∈ s.members, Legible f) :
    (sectionLines s).filter Member.opensWithName = s.members.map Member.signature := by
  have hheading : (headingLines s.category).filter Member.opensWithName = [] := by
    rw [headingLines]
    split
    · rfl
    · rw [List.filter_singleton, Member.opensWithName_heading]
      rfl
  have hend : [([] : Text)].filter Member.opensWithName = [] := rfl
  rw [sectionLines, List.filter_append, List.filter_append, hheading, hend,
    Member.filter_flatMap_lines hs, List.nil_append, List.append_nil]

theorem filter_sectionsBody (hfs : ∀ f ∈ fs, Legible f) :
    (sectionsBody fs).filter Member.opensWithName =
      ((Catalogue.sections id fs).flatMap Section.members).map Member.signature := by
  have hend : [(['\x7d'] : Text)].filter Member.opensWithName = [] := rfl
  have hsections := List.flatMap_congr fun s hs =>
    filter_sectionLines (legible_of_mem_sections hfs s hs)
  rw [sectionsBody, List.filter_append, List.filter_flatMap, hend, hsections, List.append_nil,
    List.map_flatMap]

/-- **The interface can be read back.** Two lists of functions that give the
same file have the same sections with the same members. Behind the preamble
the lines that open with a name are the signatures, one for each function. -/
theorem document_readable (name : Text) (provenance : Provenance)
    (hfs : ∀ f ∈ fs, Legible f) (hgs : ∀ g ∈ gs, Legible g) :
    (document name fs provenance = document name gs provenance →
      List.Forall₂ SectionAgrees (Catalogue.sections id fs) (Catalogue.sections id gs)) ∧
    ∃ rest, document name fs provenance =
        Text.unlines (provenance.lines ++ prologue name) ++ Text.lineFeed :: rest ∧
      (Text.lines rest).filter Member.opensWithName =
        ((Catalogue.sections id fs).flatMap Section.members).map Member.signature ∧
      ((Catalogue.sections id fs).flatMap Section.members).Perm fs ∧
      ((Text.lines rest).filter Member.opensWithName).length = fs.length := by
  have hperm := Catalogue.flatMap_members_perm id fs
  have hsignatures := filter_sectionsBody hfs
  rw [← lines_unlines_sectionsBody hfs] at hsignatures
  refine ⟨fun h => ?_, _, document_eq name fs provenance, hsignatures, hperm, ?_⟩
  · rw [document_eq, document_eq, List.append_cancel_left_eq] at h
    have hbody : sectionsBody fs = sectionsBody gs := by
      rw [← lines_unlines_sectionsBody hfs, (List.cons.inj h).2, lines_unlines_sectionsBody hgs]
    exact flatMap_sectionLines_inj (legible_of_mem_sections hfs) (legible_of_mem_sections hgs)
      hbody
  · rw [hsignatures, List.length_map, hperm.length_eq]

/-- A memory function whose brief description is the closing line of a block. -/
def closing : ExportedFunction where
  name := "H_2".toList
  brief := some "*/".toList
  category := some "Memory".toList
  params := [⟨"p".toList, "T".toList, some "@returns x".toList⟩]
  returnType := some "T".toList

/-- An undocumented function with one parameter whose type looks like two. -/
def oneParam : ExportedFunction where
  name := "H_1".toList
  params := [⟨"a".toList, "x, b: y".toList, none⟩]

/-- A function with the same member. -/
def twoParams : ExportedFunction where
  name := "H_1".toList
  brief := some []
  category := some "Other".toList
  params := [⟨"a".toList, "x".toList, none⟩, ⟨"b".toList, "y".toList, some "z".toList⟩]
  returnDescription := some "nothing".toList

/-- The start of a day. -/
def someDay : Provenance where
  generatedAt := { year := 2025, month := 1, day := 2, hour := 0, minute := 0, second := 0 }

theorem document_readable_imitations :
    (∀ f ∈ [oneParam, closing], Legible f) ∧ (∀ g ∈ [closing, twoParams], Legible g) ∧
      document defaultName [oneParam, closing] someDay =
        document defaultName [closing, twoParams] someDay ∧
      List.Forall₂ SectionAgrees (Catalogue.sections id [oneParam, closing])
        (Catalogue.sections id [closing, twoParams]) ∧
      ∃ rest, document defaultName [oneParam, closing] someDay =
          Text.unlines (someDay.lines ++ prologue defaultName) ++ Text.lineFeed :: rest ∧
        (Text.lines rest).filter Member.opensWithName =
          ((Catalogue.sections id [oneParam, closing]).flatMap Section.members).map
            Member.signature ∧
        ((Catalogue.sections id [oneParam, closing]).flatMap Section.members).Perm
          [oneParam, closing] ∧
        ((Text.lines rest).filter Member.opensWithName).length = 2 := by
  have hfs : ∀ f ∈ [oneParam, closing], Legible f := by decide
  have hgs : ∀ g ∈ [closing, twoParams], Legible g := by decide
  have hdocument : document defaultName [oneParam, closing] someDay =
      document defaultName [closing, twoParams] someDay := by decide +kernel
  obtain ⟨hsections, hlines⟩ := document_readable defaultName someDay hfs hgs
  exact ⟨hfs, hgs, hdocument, hsections hdocument, hlines⟩

end TypedExports.Interface
