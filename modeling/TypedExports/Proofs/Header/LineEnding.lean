import TypedExports.Header.Scan
import TypedExports.Proofs.Header.Block
import TypedExports.Proofs.Header.Declaration
import TypedExports.Proofs.Text.LineEnding

/-!
# Headers with other line endings

A header with a carriage return in front of every line feed documents the
same functions (`extract_crlf`). The scan takes the same steps, each with
its text rewritten: both characters are blank and neither belongs to a word,
a comment's delimiter, or a name whose stem holds no line feed. What is read
from a comment is trimmed, so that no return gets into a record.
-/

namespace TypedExports

namespace Comment

theorem parse_crlf (body : Text) :
    parse (opener ++ Text.crlf body ++ closer) = parse (opener ++ body ++ closer) := by
  have hclean : ∀ ls : List Text, ls.map cleanLine =
      (ls.map Text.trim).map fun line => Text.trim (Text.dropMark marker line) := by
    intro ls
    rw [List.map_map]
    rfl
  rw [parse, parse, rawLines_delimited, rawLines_delimited, hclean, hclean,
    Text.map_trim_lines_crlf]

end Comment

/-! ## The next comment -/

namespace Block

/-- The block with a carriage return in front of every line feed. -/
def crlf (block : Block) : Block := ⟨Text.crlf block.lead, Text.crlf block.body⟩

theorem cut?_crlf (s : Text) :
    cut? (Text.crlf s) = (cut? s).map fun found => (found.1.crlf, Text.crlf found.2) := by
  have hopen : Comment.opener ≠ [] ∧ Text.carriageReturn ∉ Comment.opener ∧
      Text.lineFeed ∉ Comment.opener := by decide
  have hclose : Comment.closer ≠ [] ∧ Text.carriageReturn ∉ Comment.closer ∧
      Text.lineFeed ∉ Comment.closer := by decide
  rw [cut?, cut?, Text.cut?_crlf hopen.1 hopen.2.1 hopen.2.2]
  cases Text.cut? Comment.opener s with
  | none => rfl
  | some found =>
      obtain ⟨lead, inside⟩ := found
      simp only [Option.map_some, Option.bind_eq_bind, Option.bind_some,
        Text.cut?_crlf hclose.1 hclose.2.1 hclose.2.2]
      cases Text.cut? Comment.closer inside <;> rfl

theorem parse_comment_crlf (block : Block) :
    Comment.parse block.crlf.comment = Comment.parse block.comment :=
  Comment.parse_crlf block.body

end Block

/-! ## The next declaration -/

namespace Declaration

variable {stem name call : Text} {before : Option Char}

theorem isArguments_crlf_iff : IsArguments (Text.crlf call) ↔ IsArguments call := by
  have hblank : Text.isBlank Text.carriageReturn = Text.isBlank Text.lineFeed := by decide
  have hclose : ∀ {u : Text}, ')' ∈ Text.crlf u ↔ ')' ∈ u := by
    intro u
    rw [Text.mem_crlf_iff]
    simp [Text.carriageReturn]
  constructor
  · rintro ⟨blanks, inside, heq, hblanks, hinside⟩
    have hcall : Text.crlf call = blanks ++ ['('] ++ (inside ++ [')']) := by simp [heq]
    obtain ⟨blanks, t, rfl, rfl, ht⟩ :=
      Text.exists_append_of_crlf_mark hcall (by decide) (by decide) (by decide)
    have hbehind : Text.crlf t = inside ++ [')'] ++ [] := by simp [← ht]
    obtain ⟨inside, r, rfl, rfl, hr⟩ :=
      Text.exists_append_of_crlf_mark hbehind (by decide) (by decide) (by decide)
    refine ⟨blanks, inside, ?_, (Text.forall_mem_crlf_iff hblank).mp hblanks,
      fun hmem => hinside (hclose.mpr hmem)⟩
    rw [Text.eq_nil_of_crlf_eq_nil hr.symm]
    simp
  · rintro ⟨blanks, inside, rfl, hblanks, hinside⟩
    refine ⟨Text.crlf blanks, Text.crlf inside, ?_, (Text.forall_mem_crlf_iff hblank).mpr hblanks,
      fun hmem => hinside (hclose.mp hmem)⟩
    rw [Text.crlf_append, Text.crlf_append, Text.crlf_cons_of_ne (by decide)]
    rfl

/-- Neither character belongs to a word, so the words stay apart. -/
theorem shape_crlf_iff : Shape stem before name (Text.crlf call) ↔ Shape stem before name call := by
  have hhead : (Text.crlf call).head?.any Text.isWord = call.head?.any Text.isWord :=
    Text.head?_crlf_any (by decide)
  constructor
  · rintro ⟨hspelled, hstarts, hends, hcalled⟩
    refine ⟨hspelled, hstarts, ?_, isArguments_crlf_iff.mp hcalled⟩
    rwa [Text.IsWordEdge, hhead] at hends
  · rintro ⟨hspelled, hstarts, hends, hcalled⟩
    refine ⟨hspelled, hstarts, ?_, isArguments_crlf_iff.mpr hcalled⟩
    rwa [Text.IsWordEdge, hhead]

theorem Shape.lineFeed_not_mem (h : Shape stem before name call) (hstem : Text.lineFeed ∉ stem) :
    Text.lineFeed ∉ name := by
  obtain ⟨run, rfl, _, hchars⟩ := h.spelled
  rw [List.mem_append, not_or]
  refine ⟨hstem, ?_⟩
  intro hmem
  exact absurd (hchars _ hmem) (by decide)

theorem Shape.getLast?_name_ne (h : Shape stem before name call) :
    name.getLast? ≠ some Text.carriageReturn := by
  obtain ⟨run, rfl, hrun, hchars⟩ := h.spelled
  rw [List.getLast?_append_of_ne_nil _ hrun]
  intro hlast
  exact absurd (hchars _ (List.mem_of_getLast? hlast)) (by decide)

theorem getLast?_call_ne (h : IsArguments call) : call.getLast? ≠ some Text.carriageReturn := by
  obtain ⟨blanks, inside, rfl, _, _⟩ := h
  rw [List.getLast?_concat]
  decide

theorem start?_crlf (hstem : Text.lineFeed ∉ stem) (before : Char) (s : Text) :
    start? stem before (Text.crlf s) =
      (start? stem before s).map fun found =>
        (found.1, Text.crlf found.2.1, Text.crlf found.2.2) := by
  cases hstart : start? stem before s with
  | some found =>
      obtain ⟨name, call, rest⟩ := found
      obtain ⟨rfl, hshape⟩ := start?_eq_some_iff.mp hstart
      refine start?_eq_some_iff.mpr ⟨?_, shape_crlf_iff.mpr hshape⟩
      rw [Text.crlf_append, Text.crlf_append, Text.crlf_eq_self (hshape.lineFeed_not_mem hstem)]
  | none =>
      rw [Option.map_none, ← Option.not_isSome_iff_eq_none, Option.isSome_iff_exists]
      rintro ⟨⟨name, call, rest⟩, hfound⟩
      obtain ⟨heq, hshape⟩ := start?_eq_some_iff.mp hfound
      -- the name ends where it ends in the text, and so does the call
      have hname : Text.crlf s = [] ++ name ++ (call ++ rest) := by rw [heq]; simp
      obtain ⟨lead, t, rfl, hlead, ht⟩ := Text.exists_append_of_crlf_mark hname hshape.name_ne_nil
        (hshape.lineFeed_not_mem hstem) hshape.getLast?_name_ne
      obtain ⟨call, rest, rfl, rfl, rfl⟩ :=
        Text.exists_append_of_crlf ht.symm (Or.inl (getLast?_call_ne hshape.called))
      have hs : lead ++ name ++ (call ++ rest) = name ++ call ++ rest := by
        rw [Text.eq_nil_of_crlf_eq_nil hlead.symm, List.nil_append, List.append_assoc]
      exact not_shape_of_start? hstart hs (shape_crlf_iff.mp hshape)

/-- No declaration starts with a line feed. -/
theorem start?_lineFeed (hstem : Text.lineFeed ∉ stem) (before : Char) (s : Text) :
    start? stem before (Text.lineFeed :: s) = none := by
  rw [← Option.not_isSome_iff_eq_none, Option.isSome_iff_exists]
  rintro ⟨⟨name, call, rest⟩, hfound⟩
  obtain ⟨heq, hshape⟩ := start?_eq_some_iff.mp hfound
  obtain ⟨c, name, rfl⟩ := List.exists_cons_of_ne_nil hshape.name_ne_nil
  rw [List.append_assoc, List.cons_append, List.cons.injEq] at heq
  obtain ⟨rfl, _⟩ := heq
  exact hshape.lineFeed_not_mem hstem List.mem_cons_self

/-- The declaration with a carriage return in front of every line feed. -/
def crlf (d : Declaration) : Declaration := ⟨Text.crlf d.lead, d.name, Text.crlf d.call⟩

theorem find?_crlf (hstem : Text.lineFeed ∉ stem) (before : Char) (s : Text) :
    find? stem before (Text.crlf s) =
      (find? stem before s).map fun found => (found.1.crlf, Text.crlf found.2) := by
  induction s generalizing before with
  | nil => rfl
  | cons c s ih =>
      have hstart := start?_crlf hstem before (c :: s)
      by_cases hc : c = Text.lineFeed
      · subst hc
        have hfeed := start?_lineFeed hstem before s
        rw [hfeed] at hstart
        rw [find?_cons_of_not_start hfeed]
        rw [Text.crlf_cons_lineFeed] at hstart ⊢
        rw [find?_cons_of_not_start hstart, find?_cons_of_not_start (start?_lineFeed hstem _ _), ih]
        cases find? stem Text.lineFeed s <;> rfl
      · rw [Text.crlf_cons_of_ne hc] at hstart ⊢
        cases hfound : start? stem before (c :: s) with
        | some found =>
            rw [hfound] at hstart
            rw [find?_cons_of_start hfound, find?_cons_of_start hstart]
            rfl
        | none =>
            rw [hfound] at hstart
            rw [find?_cons_of_not_start hfound, find?_cons_of_not_start hstart, ih, Option.map_map,
              Option.map_map]
            refine congrArg (Option.map · _) (funext fun found => ?_)
            simp [leadBy, crlf, Text.crlf_cons_of_ne hc]

theorem documented?_crlf (hstem : Text.lineFeed ∉ stem) (s : Text) :
    documented? stem (Text.crlf s) =
      (documented? stem s).map fun found => (found.1.crlf, Text.crlf found.2) := by
  have hgap : Text.lineFeed ∈ (Text.crlf s).takeWhile Text.isBlank ↔
      Text.lineFeed ∈ s.takeWhile Text.isBlank := by
    rw [Text.takeWhile_crlf (by decide), Text.lineFeed_mem_crlf_iff]
  by_cases hfeed : Text.lineFeed ∈ s.takeWhile Text.isBlank
  · rw [documented?, documented?, if_pos hfeed, if_pos (hgap.mpr hfeed), find?_crlf hstem]
  · rw [documented?, documented?, if_neg hfeed, if_neg (mt hgap.mp hfeed)]
    rfl

end Declaration

/-! ## The header -/

namespace Header

/-- **Line endings.** A carriage return in front of every line feed changes
nothing that a header documents, whether or not it has returns already. -/
theorem extract_crlf {stem : Text} (hstem : Text.lineFeed ∉ stem) (header : Text) :
    extract stem (Text.crlf header) = extract stem header := by
  rw [extract, extract]
  fun_induction scan stem header with
  | case1 s hcut =>
      have hcut' := Block.cut?_crlf s
      rw [hcut] at hcut'
      rw [scan_of_cut?_eq_none hcut']
      rfl
  | case2 s block behind hcut hnone ih =>
      have hcut' := Block.cut?_crlf s
      have hnone' := Declaration.documented?_crlf hstem behind
      rw [hcut] at hcut'
      rw [hnone] at hnone'
      rw [scan_of_passed hcut' hnone', Scan.exports_cons_passed, Scan.exports_cons_passed, ih]
  | case3 s block behind hcut d rest hfound ih =>
      have hcut' := Block.cut?_crlf s
      have hfound' := Declaration.documented?_crlf hstem behind
      rw [hcut] at hcut'
      rw [hfound] at hfound'
      rw [scan_of_paired hcut' hfound', Scan.exports_cons_paired, Scan.exports_cons_paired, ih,
        block.parse_comment_crlf]
      rfl

/-- A header that has some returns already, also in the function's name. -/
def mixedEndings : Text :=
  "/**\r\n * @brief a\rb\n * @tsparam p\rint \r\n*/ \nvoid\rH_1\n(\n)\n".toList

theorem extract_crlf_mixedEndings :
    Text.lineFeed ∉ "\rH_".toList ∧
      extract "\rH_".toList (Text.crlf mixedEndings) = extract "\rH_".toList mixedEndings ∧
      extract "\rH_".toList mixedEndings =
        [{ name := "\rH_1".toList, brief := some "a\rb".toList,
           params := [⟨"p".toList, "int".toList, none⟩] }] := by
  have hstem : Text.lineFeed ∉ "\rH_".toList := by decide
  exact ⟨hstem, extract_crlf hstem mixedEndings, by decide +kernel⟩

end Header

end TypedExports
