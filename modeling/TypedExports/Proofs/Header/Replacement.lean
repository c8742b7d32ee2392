import TypedExports.Proofs.Header.Composition

/-!
# Rewriting a comment

The body of a comment that documents a function counts for that function's
record and for nothing else. Every other record, and the name in this one,
stay as they are whatever is written in the comment
(`extract_replace_body`).
-/

namespace TypedExports.Header

/-- The pairing of the given number takes the given comment, which starts at
the given offset. -/
def PairsComment (stem header : Text) (k start : Nat) (comment : Text) : Prop :=
  ∃ pairing, (pairings stem header)[k]? = some pairing ∧ pairing.commentStart = start ∧
    Text.slice header pairing.commentStart pairing.commentEnd = comment

/-- A pairing stands behind as many others as its number says. -/
theorem exists_of_pairingsFrom {offset k : Nat} {steps : List Step} {pairing : Pairing}
    (h : (pairingsFrom offset steps)[k]? = some pairing) :
    ∃ before block d after, steps = before ++ .paired block d :: after ∧
      (before.filterMap Step.export?).length = k ∧
      (Step.paired block d).pairing? (offset + (Step.texts before).length) = some pairing := by
  induction steps generalizing offset k with
  | nil => simp [pairingsFrom] at h
  | cons step steps ih =>
      cases step with
      | passed block =>
          obtain ⟨before, block', d, after, rfl, hk, hpairing⟩ := ih h
          refine ⟨.passed block :: before, block', d, after, rfl, hk, ?_⟩
          rwa [Step.texts_cons, List.length_append, ← Nat.add_assoc]
      | paired block d =>
          cases k with
          | zero => exact ⟨[], block, d, steps, rfl, rfl, h⟩
          | succ k =>
              obtain ⟨before, block', d', after, rfl, hk, hpairing⟩ := ih h
              refine ⟨.paired block d :: before, block', d', after, rfl,
                by simp [Step.export?, ← hk], ?_⟩
              rwa [Step.texts_cons, List.length_append, ← Nat.add_assoc]

/-- The run up to a comment that is paired, and the text around it. -/
theorem exists_run_of_pairsComment {stem a b comment : Text} {k : Nat}
    (h : PairsComment stem (a ++ comment ++ b) k a.length comment) :
    ∃ before block d m,
      Run stem (a ++ comment ++ b) (before ++ [.paired block d]) m ∧
      (before.filterMap Step.export?).length = k ∧
      a = Step.texts before ++ block.lead ∧ comment = block.comment ∧ b = d.text ++ m := by
  obtain ⟨pairing, hk, hstart, hslice⟩ := h
  obtain ⟨before, block, d, after, hsteps, hcount, hpairing⟩ := exists_of_pairingsFrom hk
  have hrun := run_scan stem (a ++ comment ++ b)
  rw [hsteps, List.append_cons] at hrun
  obtain ⟨m, hrun, _⟩ := hrun.split
  cases hpairing
  have htext : a ++ (comment ++ b) =
      (Step.texts before ++ block.lead) ++ (block.comment ++ (d.text ++ m)) := by
    have := hrun.eq_append
    simpa [Step.text, Block.text] using this
  dsimp only at hstart hslice
  have hlen : a.length = (Step.texts before ++ block.lead).length := by
    rw [← hstart]
    simp
  obtain ⟨ha, hbehind⟩ := List.append_inj htext hlen
  have hcomment : comment = block.comment := by
    have hstop : 0 + (Step.texts before).length + block.text.length =
        a.length + block.comment.length := by
      rw [hlen]
      simp [Block.text]
      omega
    rw [hstart, hstop, List.append_assoc, hbehind, ← List.append_assoc, Text.slice_append] at hslice
    exact hslice.symm
  rw [hcomment] at hbehind
  exact ⟨before, block, d, m, hrun, hcount, ha, hcomment, List.append_cancel_left hbehind⟩

/-- **Rewriting a comment.** With another body in a comment that is paired,
the header documents the same functions. Only the record of that pairing
changes: it has its old name and says what the new comment says. -/
theorem extract_replace_body {stem a body body' b : Text} {k : Nat}
    (hpair : PairsComment stem (a ++ (Comment.opener ++ body ++ Comment.closer) ++ b) k a.length
      (Comment.opener ++ body ++ Comment.closer))
    (hbody : ¬ Comment.closer <:+: body') :
    ∃ f, (extract stem (a ++ (Comment.opener ++ body ++ Comment.closer) ++ b))[k]? = some f ∧
      extract stem (a ++ (Comment.opener ++ body' ++ Comment.closer) ++ b) =
        (extract stem (a ++ (Comment.opener ++ body ++ Comment.closer) ++ b)).set k
          ((Comment.parse (Comment.opener ++ body' ++ Comment.closer)).document f.name) := by
  obtain ⟨before, block, d, m, hrun, hk, ha, _, hb⟩ := exists_run_of_pairsComment hpair
  have hrun' := hrun.replace hbody m
  have htext : Step.texts (before ++ [.paired { block with body := body' } d]) ++ m =
      a ++ (Comment.opener ++ body' ++ Comment.closer) ++ b := by
    rw [ha, hb]
    simp [Step.text, Block.text, Block.comment]
  rw [htext] at hrun'
  refine ⟨(Comment.parse block.comment).document d.name, ?_, ?_⟩
  · rw [hrun.extract_eq, List.filterMap_append, ← hk]
    simp [Step.export?]
  · rw [hrun.extract_eq, hrun'.extract_eq, List.filterMap_append, List.filterMap_append, ← hk]
    simp [Step.export?, Block.comment, Comment.document]

/-- A header with openers and calls in most places, up to a comment. -/
def crowdedLead : Text := "/* H_0() */ /**/\nH_1()/*/ H_0() /*\n*/ \r".toList

/-- The body of the comment. -/
def crowdedBody : Text := "*\n * @brief /* H_3()\n *".toList

/-- What follows the comment. -/
def crowdedRest : Text := "\n/* H_() */ void H_2 ( ) /* H_4()".toList

theorem extract_replace_body_crowded :
    PairsComment "H_".toList
        (crowdedLead ++ (Comment.opener ++ crowdedBody ++ Comment.closer) ++ crowdedRest) 1
        crowdedLead.length (Comment.opener ++ crowdedBody ++ Comment.closer) ∧
      ¬ Comment.closer <:+: "/ H_5() /*".toList ∧
      ∃ f, (extract "H_".toList (crowdedLead ++
          (Comment.opener ++ crowdedBody ++ Comment.closer) ++ crowdedRest))[1]? = some f ∧
        extract "H_".toList (crowdedLead ++
            (Comment.opener ++ "/ H_5() /*".toList ++ Comment.closer) ++ crowdedRest) =
          (extract "H_".toList (crowdedLead ++
              (Comment.opener ++ crowdedBody ++ Comment.closer) ++ crowdedRest)).set 1
            ((Comment.parse (Comment.opener ++ "/ H_5() /*".toList ++ Comment.closer)).document
              f.name) := by
  have hpair : PairsComment "H_".toList
      (crowdedLead ++ (Comment.opener ++ crowdedBody ++ Comment.closer) ++ crowdedRest) 1
      crowdedLead.length (Comment.opener ++ crowdedBody ++ Comment.closer) :=
    ⟨⟨39, 66, 83, 90⟩, by decide +kernel, by decide, by decide⟩
  have hbody : ¬ Comment.closer <:+: "/ H_5() /*".toList := by decide
  exact ⟨hpair, hbody, extract_replace_body hpair hbody⟩

end TypedExports.Header
