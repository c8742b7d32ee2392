import TypedExports.Proofs.Header.Extracted
import TypedExports.Proofs.Header.Pairing
import TypedExports.Proofs.Interface.Member

/-!
# Documentation blocks are closed where they end

The texts of a documentation block come from a header, and none of them can
end a line or a comment. The block puts each of them behind a blank, so that
no closer arises on a seam either. So the block is one complete comment, and
the signature stands behind it (`docLines_closed`).
-/

namespace TypedExports.Interface.Member

variable {f : ExportedFunction}

/-! ## No line but the last closes the block -/

theorem isInline_docLine {content : Text} (h : Comment.IsInline content)
    (hhead : content.head? ≠ some '/') : Comment.IsInline (docLine content) :=
  Comment.IsInline.append (by decide) h (Or.inr hhead)

theorem isInline_paramContent {param : Param} (hname : Comment.IsInline param.name)
    (hdescription : Comment.IsInline (param.description.getD [])) :
    Comment.IsInline (paramContent param) := by
  have hlead : Comment.IsInline (" @param ".toList ++ param.name) :=
    Comment.IsInline.append (by decide) hname (Or.inl (by decide))
  unfold paramContent
  exact hlead.append hdescription.space_cons (Or.inr (by simp))

theorem isInline_returnContent {returned : Text} (h : Comment.IsInline returned) :
    Comment.IsInline (returnContent returned) :=
  Comment.IsInline.append (by decide) h (Or.inl (by decide))

/-- The lines below the opening one hold no closer, because each text in them
stands behind a blank. -/
theorem isInline_docLine_content (h : ∀ text ∈ shownTexts f, Comment.IsInline text)
    {brief content : Text} (hbrief : shownBrief? f = some brief)
    (hcontent : content ∈ (' ' :: brief) :: spaced (details f)) :
    Comment.IsInline (docLine content) := by
  refine isInline_docLine ?_ (head?_content_ne hcontent)
  rcases content_cases hcontent with rfl | rfl | ⟨param, hparam, rfl⟩ | ⟨returned, hreturned, rfl⟩
  · exact (h brief (brief_mem_shownTexts hbrief)).space_cons
  · decide
  · obtain ⟨hname, hdescription⟩ := param_mem_shownTexts hparam
    exact isInline_paramContent (h _ hname) (h _ hdescription)
  · exact isInline_returnContent (h returned (returned_mem_shownTexts hreturned))

/-! ## The block is one comment -/

/-- A block whose inner lines hold no closer is a complete comment, whatever
stands behind it. -/
theorem isComment_block {inner : List Text} (hinner : ∀ line ∈ inner, ¬ Comment.closer <:+: line)
    (rest : Text) :
    Header.IsComment
      (Text.unlines ((indent ++ "/**".toList) :: inner ++ [docLine ['/']]) ++ rest) indent.length
      (Text.unlines ((indent ++ "/**".toList) :: inner ++ [docLine ['/']])).length := by
  have hbody : ¬ Comment.closer <:+: Text.unlines (['*'] :: inner ++ [indent ++ [' ']]) := by
    intro hclose
    obtain ⟨line, hline, hclose⟩ :=
      (Text.pair_infix_unlines_iff (by decide) (by decide)).mp hclose
    rw [List.mem_append, List.mem_cons, List.mem_singleton] at hline
    rcases hline with (rfl | hline) | rfl
    · exact absurd hclose (by decide)
    · exact hinner line hline hclose
    · exact absurd hclose (by decide)
  have htext : Text.unlines ((indent ++ "/**".toList) :: inner ++ [docLine ['/']]) =
      indent ++ Comment.opener ++ Text.unlines (['*'] :: inner ++ [indent ++ [' ']]) ++
        Comment.closer := by
    have hopen : indent ++ "/**".toList = (indent ++ Comment.opener) ++ ['*'] := rfl
    have hclose : docLine ['/'] = (indent ++ [' ']) ++ Comment.closer := rfl
    rw [hopen, hclose, List.cons_append, Text.unlines_append_cons, ← List.cons_append,
      Text.unlines_concat_append, List.append_assoc _ _ Comment.closer]
  refine Header.isComment_iff.mpr ⟨indent, _, _, rest, ?_, Text.cut?_pair (by decide) hbody rest,
    rfl, ?_⟩
  · rw [htext]
    simp only [List.append_assoc]
    rfl
  · rw [htext]
    simp only [List.length_append, Comment.length_opener, Comment.length_closer]

/-- **Documentation blocks are closed where they end.** The block of an
extracted function is a complete comment: its first closer is the one on its
last line. Its texts hold no line feed, so that its lines are the lines of
the text, and the signature is the line behind it. -/
theorem docLines_closed {stem header : Text} (hf : f ∈ Header.extract stem header)
    (hdoc : docLines f ≠ []) :
    (∃ inner, docLines f = (indent ++ "/**".toList) :: inner ++ [indent ++ " */".toList]) ∧
    Header.IsComment (Text.unlines (docLines f)) indent.length
      (Text.unlines (docLines f)).length ∧
    (∀ text ∈ shownTexts f, Text.lineFeed ∉ text) ∧
    Text.lines (Text.unlines (docLines f)) = docLines f ∧
    Header.IsComment (Text.unlines (lines f)) indent.length (Text.unlines (docLines f)).length ∧
    Text.unlines (lines f) = Text.unlines (docLines f) ++ Text.lineFeed :: signature f := by
  have hshown := forall_mem_shownTexts (Header.everyText_inline_of_mem_extract hf) (by decide)
  have hfeeds : ∀ text ∈ shownTexts f, Text.lineFeed ∉ text :=
    fun text htext => (hshown text htext).one_line
  obtain ⟨brief, hbrief⟩ := exists_brief_of_docLines hdoc
  have hlines := docLines_of_some hbrief
  have hinner : ∀ line ∈ ((' ' :: brief) :: spaced (details f)).map docLine,
      ¬ Comment.closer <:+: line := by
    intro line hline
    obtain ⟨content, hcontent, rfl⟩ := List.mem_map.mp hline
    exact (isInline_docLine_content hshown hbrief hcontent).no_closer
  have hcomment := isComment_block hinner
  rw [← hlines] at hcomment
  have hmember : Text.unlines (lines f) =
      Text.unlines (docLines f) ++ Text.lineFeed :: signature f := by
    rw [lines, Text.unlines_append hdoc (List.cons_ne_nil _ _)]
    simp [Text.unlines]
  refine ⟨⟨_, hlines⟩, ?_, hfeeds, Text.lines_unlines hdoc (lineFeed_not_mem_docLines hfeeds), ?_,
    hmember⟩
  · have := hcomment []
    rwa [List.append_nil] at this
  · rw [hmember]
    exact hcomment _

/-- A function whose texts start and end with halves of a delimiter. -/
def starred : ExportedFunction where
  name := "H_1".toList
  brief := some "/** *".toList
  params := [⟨"*".toList, "/*".toList, some "/".toList⟩]
  returnType := some "x".toList
  returnDescription := some "/ *".toList

/-- The header that documents it. -/
def starredHeader : Text :=
  "/**\n@brief /** *\n@tsparam * /*\n@param *  /\n@tsreturn x\n@return / *\n*/\nH_1()".toList

theorem docLines_closed_starred :
    starred ∈ Header.extract "H_".toList starredHeader ∧ docLines starred ≠ [] ∧
      (∃ inner, docLines starred =
        (indent ++ "/**".toList) :: inner ++ [indent ++ " */".toList]) ∧
      Header.IsComment (Text.unlines (docLines starred)) indent.length
        (Text.unlines (docLines starred)).length ∧
      (∀ text ∈ shownTexts starred, Text.lineFeed ∉ text) ∧
      Text.lines (Text.unlines (docLines starred)) = docLines starred ∧
      Header.IsComment (Text.unlines (lines starred)) indent.length
        (Text.unlines (docLines starred)).length ∧
      Text.unlines (lines starred) =
        Text.unlines (docLines starred) ++ Text.lineFeed :: signature starred := by
  have hmem : starred ∈ Header.extract "H_".toList starredHeader := by decide +kernel
  have hdoc : docLines starred ≠ [] := by decide
  exact ⟨hmem, hdoc, docLines_closed hmem hdoc⟩

end TypedExports.Interface.Member
