import Mathlib.Tactic.IntervalCases
import TypedExports.Proofs.Comment.Written
import TypedExports.Proofs.Header.Composition

/-!
# Written headers are read back

A well-formed function that is written as a header is extracted from it with
every field, and so is a list of them written one after another
(`extract_flatMap_written`). What is left to show is that the declaration is
found where it was written: nothing in front of the name looks like a call
(`documented?_written`).
-/

namespace TypedExports

/-! ## The declaration -/

theorem Text.isNameChar_of_isBlank {c : Char} (h : isBlank c = true) : isNameChar c = false := by
  simp [isBlank, blankCodePoints, isNameChar, nameCodePoints, CodePoints.has] at h ⊢
  omega

namespace Declaration

/-- The declaration that is written for a name, with what leads up to it. -/
def written (name : Text) : Declaration := ⟨"\nvoid ".toList, name, "(void)".toList⟩

/-- Behind a call's name and the blanks after it comes its parenthesis. -/
theorem Shape.head?_behind {stem name call : Text} {before : Option Char}
    (hstem : ∀ c ∈ stem, Text.isNameChar c = true) (h : Shape stem before name call)
    (rest : Text) :
    (((name ++ call ++ rest).dropWhile Text.isNameChar).dropWhile Text.isBlank).head? =
      some '(' := by
  obtain ⟨run, rfl, _, hrun⟩ := h.spelled
  obtain ⟨blanks, inside, rfl, hblanks, _⟩ := h.called
  have hname := List.forall_mem_append.mpr ⟨hstem, hrun⟩
  have hopen : Text.isBlank '(' = false := by decide
  have hbehind : (stem ++ run ++ (blanks ++ '(' :: inside ++ [')']) ++ rest).dropWhile
      Text.isNameChar = blanks ++ '(' :: (inside ++ [')'] ++ rest) := by
    cases blanks with
    | nil =>
        rw [List.append_assoc]
        exact Text.dropWhile_run hname (by decide) _
    | cons b blanks =>
        have hb := Text.isNameChar_of_isBlank (hblanks b List.mem_cons_self)
        rw [List.append_assoc]
        simpa using Text.dropWhile_run hname hb _
  rw [hbehind, Text.dropWhile_run hblanks hopen]
  rfl

/-- Behind the first word of a written declaration comes no parenthesis,
wherever in it the reading starts. -/
theorem head?_behind_lead {c : Char} (hc : Text.isNameChar c = true) {n : Nat}
    (hn : n < "\nvoid ".toList.length) (rest : Text) :
    ((("\nvoid ".toList.drop n ++ c :: rest).dropWhile Text.isNameChar).dropWhile
      Text.isBlank).head? ≠ some '(' := by
  have hblank : Text.isBlank c = false := by
    by_contra h
    rw [Bool.not_eq_false] at h
    simp [Text.isNameChar_of_isBlank h] at hc
  have hopen : c ≠ '(' := by
    rintro rfl
    exact absurd hc (by decide)
  have hspace : Text.isNameChar ' ' = false ∧ Text.isBlank ' ' = true := by decide
  have hword : ("void".toList.all fun b => Text.isNameChar b && !Text.isBlank b) = true := by decide
  have hbreak : Text.isNameChar '\n' = false ∧ Text.isBlank '\n' = true := by decide
  rw [show "\nvoid ".toList = ['\n', 'v', 'o', 'i', 'd', ' '] from rfl] at hn ⊢
  simp only [List.length_cons, List.length_nil] at hn
  -- from the break or inside the word `void` or its space follows, then what
  -- is behind that; from the space on it is the name that follows
  interval_cases n <;> simp_all

theorem shape_written {stem run : Text} (hstem : ∀ c ∈ stem, Text.isNameChar c = true)
    (hrun : run ≠ []) (hchars : ∀ c ∈ run, Text.isNameChar c = true) :
    Shape stem (some ' ') (stem ++ run) "(void)".toList := by
  have hname := List.forall_mem_append.mpr ⟨hstem, hchars⟩
  have hne : stem ++ run ≠ [] := by simp [hrun]
  refine ⟨⟨run, rfl, hrun, hchars⟩, ?_, ?_, [], "void".toList, rfl, by simp, by decide⟩
  · rw [List.head?_eq_some_head hne, Text.IsWordEdge, Option.any_some, Option.any_some,
      Text.isWord_of_isNameChar (hname _ (List.head_mem hne))]
    decide
  · rw [List.getLast?_eq_some_getLast hne, Text.IsWordEdge, Option.any_some,
      Text.isWord_of_isNameChar (hname _ (List.getLast_mem hne))]
    decide

/-- In front of the name of a written declaration nothing looks like a
call. -/
theorem documented?_written {stem run : Text} (hstem : ∀ c ∈ stem, Text.isNameChar c = true)
    (hrun : run ≠ []) (hchars : ∀ c ∈ run, Text.isNameChar c = true) (t : Text) :
    documented? stem ((written (stem ++ run)).text ++ t) = some (written (stem ++ run), t) := by
  have hgap : Text.lineFeed ∈ ((written (stem ++ run)).text ++ t).takeWhile Text.isBlank := by
    simp [written, text, show Text.isBlank '\n' = true by decide, Text.lineFeed]
  rw [documented?, if_pos hgap]
  refine find?_eq_some_iff.mpr ⟨rfl, shape_written hstem hrun hchars, ?_⟩
  intro u name call r hs hshape
  by_contra hlt
  rw [Nat.not_le] at hlt
  obtain ⟨c, name', hcons⟩ : ∃ c name', stem ++ run = c :: name' :=
    List.exists_cons_of_ne_nil (by simp [hrun])
  have hc : Text.isNameChar c = true := by
    apply List.forall_mem_append.mpr ⟨hstem, hchars⟩
    rw [hcons]
    exact List.mem_cons_self
  have hrest : name ++ call ++ r =
      "\nvoid ".toList.drop u.length ++ c :: (name' ++ ("(void)".toList ++ t)) := by
    have := congrArg (List.drop u.length) hs
    rw [List.append_assoc u, List.append_assoc u, List.drop_left, text, List.append_assoc,
      List.append_assoc, List.drop_append_of_le_length hlt.le] at this
    rw [← this, written, hcons]
    rfl
  have hbehind := hshape.head?_behind hstem r
  rw [hrest] at hbehind
  exact head?_behind_lead hc hlt _ hbehind

end Declaration

/-- A written function as the pieces that the scan cuts it into. -/
theorem ExportedFunction.written_eq (f : ExportedFunction) (t : Text) :
    f.written ++ t =
      (⟨[], Comment.writtenBody f.tags⟩ : Block).text ++
        ((Declaration.written f.name).text ++ (";\n".toList ++ t)) := by
  have hopen : "/**\n".toList = Comment.opener ++ "*\n".toList := rfl
  have hclose : " */\nvoid ".toList = [' '] ++ Comment.closer ++ "\nvoid ".toList := rfl
  have hend : "(void);\n".toList = "(void)".toList ++ ";\n".toList := rfl
  have hwritten : f.written = "/**\n".toList ++ f.writtenTags ++ " */\nvoid ".toList ++ f.name ++
      "(void);\n".toList := rfl
  rw [hwritten, hopen, hclose, hend, writtenTags_eq]
  simp only [Comment.writtenBody, Block.text, Block.comment, Declaration.text,
    Declaration.written, List.nil_append, List.append_assoc]

/-! ## The header -/

namespace Header

variable {stem : Text} {f : ExportedFunction}

/-- The comment of a written function is complete and stands in front. -/
theorem cut?_written (h : f.WellFormed stem) (t : Text) :
    Block.cut? (f.written ++ t) =
      some (⟨[], Comment.writtenBody f.tags⟩,
        (Declaration.written f.name).text ++ (";\n".toList ++ t)) := by
  rw [f.written_eq]
  refine Block.cut?_eq_some_iff.mpr ⟨?_, Comment.not_closer_writtenBody h.isValue⟩
  rw [Block.text, List.nil_append, Block.comment, List.append_assoc, List.append_assoc,
    ← List.append_assoc _ Comment.closer]
  exact Text.cut?_pair (x := '/') (y := '*') (a := []) (by decide) (by decide) _

/-- A written function is extracted, and what is written behind it is read
as if it stood alone. -/
theorem extract_written_append (hstem : ∀ c ∈ stem, Text.isNameChar c = true)
    (h : f.WellFormed stem) (t : Text) :
    extract stem (f.written ++ t) = f :: extract stem t := by
  obtain ⟨run, hrun, hchars, hname⟩ := h.name
  have hcut := cut?_written h t
  rw [hname] at hcut
  have hfound := Declaration.documented?_written hstem hrun hchars (";\n".toList ++ t)
  have hexport : (Step.paired ⟨[], Comment.writtenBody f.tags⟩
      (Declaration.written (stem ++ run))).export? = some f := by
    rw [Step.export?, Block.comment, Comment.parse_written h.isValue, ← hname]
    exact congrArg some h.document
  rw [(Run.paired hcut hfound (.refl _)).extract_eq,
    extract_append_left (by decide) (by decide)]
  simp [hexport]

/-- **Round trip.** Functions that are written one after another are
extracted from the header, every one with all that is known of it. -/
theorem extract_flatMap_written (hstem : ∀ c ∈ stem, Text.isNameChar c = true)
    {fs : List ExportedFunction} (hfs : ∀ f ∈ fs, f.WellFormed stem) :
    extract stem (fs.flatMap ExportedFunction.written) = fs := by
  induction fs with
  | nil => rw [List.flatMap_nil, extract, scan_of_cut?_eq_none rfl]; rfl
  | cons f fs ih =>
      rw [List.flatMap_cons, extract_written_append hstem (hfs f List.mem_cons_self),
        ih fun g hg => hfs g (List.mem_cons_of_mem f hg)]

/-- Functions whose texts look like the syntax around them. -/
def disguised : List ExportedFunction :=
  [{ name := "H_1".toList, brief := some "/* @brief *".toList,
     returnType := some "a\r@return".toList, returnDescription := some "/".toList,
     params := [⟨"*".toList, "H_2(void);".toList, some "* x".toList⟩,
       ⟨"*".toList, "@param".toList, some "* x".toList⟩, ⟨"@param".toList, "/".toList, none⟩] },
   { name := "H_H_".toList, category := some "//".toList }]

theorem extract_flatMap_written_disguised :
    (∀ c ∈ "H_".toList, Text.isNameChar c = true) ∧
      (∀ f ∈ disguised, f.WellFormed "H_".toList) ∧
      extract "H_".toList (disguised.flatMap ExportedFunction.written) = disguised := by
  have hstem : ∀ c ∈ "H_".toList, Text.isNameChar c = true := List.all_eq_true.mp (by decide)
  have hformed : ∀ f ∈ disguised, f.WellFormed "H_".toList := by
    rw [disguised, List.forall_mem_cons, List.forall_mem_singleton]
    constructor
    · have hname : ∀ c ∈ "1".toList, Text.isNameChar c = true := List.all_eq_true.mp (by decide)
      refine ⟨⟨"1".toList, by decide, hname, rfl⟩, ?_, ?_, ?_, ?_, ?_, ?_, ?_, ?_⟩ <;> decide
    · refine ⟨⟨"H_".toList, by decide, hstem, rfl⟩, ?_, ?_, ?_, ?_, ?_, ?_, ?_, ?_⟩ <;> decide
  exact ⟨hstem, hformed, extract_flatMap_written hstem hformed⟩

end Header

end TypedExports
