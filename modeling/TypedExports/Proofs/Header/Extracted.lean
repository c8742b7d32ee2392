import TypedExports.Header.Scan
import TypedExports.Proofs.Comment.Inline
import TypedExports.Proofs.Header.Block
import TypedExports.Proofs.Header.Declaration

/-!
# Extracted functions

What every function that a header documents has in common: its name stands
in a declaration, and the rest is what a complete comment of the header says,
one that no earlier closer ends. Each line of the comment lies on a line of
the header (`exists_line_of_mem_lines`).
-/

namespace TypedExports.Header

variable {stem header : Text} {f : ExportedFunction}

/-- Where an extracted function comes from. -/
theorem exists_comment_of_mem_extract (h : f ∈ extract stem header) :
    ∃ body before name call, Comment.opener ++ body ++ Comment.closer <:+: header ∧
      ¬ Comment.closer <:+: body ∧ Declaration.Shape stem before name call ∧
      f = (Comment.parse (Comment.opener ++ body ++ Comment.closer)).document name := by
  rw [extract] at h
  fun_induction scan stem header with
  | case1 s hcut => cases h
  | case2 s block behind hcut hnone ih =>
      obtain ⟨body, before, name, call, hpiece, hrest⟩ := ih h
      rw [Block.eq_append_of_cut? hcut]
      exact ⟨body, before, name, call, List.infix_append_of_infix_right hpiece, hrest⟩
  | case3 s block behind hcut d rest hfound ih =>
      rw [Scan.exports_cons_paired, List.mem_cons] at h
      rw [Block.eq_append_of_cut? hcut]
      rcases h with rfl | h
      · rw [Declaration.documented?, Option.ite_none_right_eq_some] at hfound
        obtain ⟨_, hshape, _⟩ := Declaration.shape_of_find? hfound.2
        exact ⟨block.body, _, d.name, d.call, List.infix_append block.lead block.comment behind,
          Block.not_closer_of_cut? hcut, hshape, rfl⟩
      · obtain ⟨body, before, name, call, hpiece, hrest⟩ := ih h
        rw [Declaration.eq_append_of_documented? hfound]
        exact ⟨body, before, name, call, List.infix_append_of_infix_right
          (List.infix_append_of_infix_right hpiece), hrest⟩

/-- No text of an extracted function can end a line or a comment. -/
theorem everyText_inline_of_mem_extract (h : f ∈ extract stem header) :
    f.EveryText Comment.IsInline := by
  obtain ⟨body, _, name, _, _, hbody, _, rfl⟩ := exists_comment_of_mem_extract h
  exact Comment.document_everyText_inline hbody name

/-- A line of a comment lies on a line of the header. -/
theorem exists_line_of_mem_lines {body line : Text}
    (hpiece : Comment.opener ++ body ++ Comment.closer <:+: header)
    (hline : line ∈ (Comment.parse (Comment.opener ++ body ++ Comment.closer)).lines) :
    ∃ l ∈ Text.lines header, line <:+: l := by
  obtain ⟨_, raw, hraw, rfl⟩ := Comment.mem_lines_parse_iff.mp hline
  obtain ⟨hfeed, hbody⟩ := Text.mem_splitOn hraw
  have hclean := Comment.cleanLine_isInfix raw
  refine Text.exists_line_of_infix (fun hmem => hfeed (hclean.subset hmem)) ?_
  exact (hclean.trans hbody).trans ((List.infix_append _ body _).trans hpiece)

end TypedExports.Header
