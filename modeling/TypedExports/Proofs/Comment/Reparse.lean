import Mathlib.Data.List.Forall2
import Mathlib.Data.List.ModifyLast
import TypedExports.Proofs.Comment.Cleaned

/-!
# Reading cleaned lines once more

Reading a comment only ever takes text away: an opener off the first line, a
closer off the last, and blanks and a marker off every line. Each of these
steps leaves, line by line, a piece of what it was given (`Pieces`). So when
the last step gives back what the first was given, no step took anything, and
the cleaned lines of a comment come back from a second reading exactly when
the first one left no marker or delimiter at an end that is looked at
(`parse_unlines_iff`).
-/

namespace TypedExports.Comment

/-! ## Taking away line by line -/

/-- Each of the lines is a piece of the one at its place. -/
def Pieces (ls ls' : List Text) : Prop := List.Forall₂ (fun l l' => l <:+: l') ls ls'

variable {ls ls' ls'' : List Text} {f : Text → Text}

theorem Pieces.refl (ls : List Text) : Pieces ls ls :=
  List.forall₂_same.mpr fun l _ => List.infix_refl l

theorem Pieces.trans (h : Pieces ls ls') (h' : Pieces ls' ls'') : Pieces ls ls'' := by
  induction h generalizing ls'' with
  | nil => exact h'
  | cons hl _ ih =>
      cases h' with
      | cons hl' hrest => exact .cons (hl.trans hl') (ih hrest)

theorem Pieces.antisymm (h : Pieces ls ls') (h' : Pieces ls' ls) : ls = ls' := by
  induction h with
  | nil => rfl
  | cons hl _ ih =>
      cases h' with
      | cons hl' hrest => rw [hl.eq_of_length_le hl'.length_le, ih hrest]

theorem Pieces.length_eq (h : Pieces ls ls') : ls.length = ls'.length := List.Forall₂.length_eq h

theorem Pieces.not_mem {c : Char} (h : Pieces ls ls') (hls' : ∀ l ∈ ls', c ∉ l) :
    ∀ l ∈ ls, c ∉ l := by
  induction h with
  | nil => exact fun l hl => absurd hl List.not_mem_nil
  | cons hl _ ih =>
      rw [List.forall_mem_cons] at hls' ⊢
      exact ⟨fun hc => hls'.1 (hl.subset hc), ih hls'.2⟩

theorem pieces_map (hf : ∀ l, f l <:+: l) (ls : List Text) : Pieces (ls.map f) ls :=
  List.forall₂_map_left_iff.mpr (List.forall₂_same.mpr fun l _ => hf l)

theorem pieces_modifyHead (hf : ∀ l, f l <:+: l) (ls : List Text) :
    Pieces (ls.modifyHead f) ls := by
  cases ls with
  | nil => exact .nil
  | cons l ls => exact .cons (hf l) (Pieces.refl ls)

theorem pieces_modifyLast (hf : ∀ l, f l <:+: l) (ls : List Text) :
    Pieces (ls.modifyLast f) ls := by
  induction ls using List.reverseRecOn with
  | nil => exact .nil
  | append_singleton ls l _ =>
      rw [List.modifyLast_concat]
      exact List.rel_append (Pieces.refl ls) (.cons (hf l) .nil)

theorem modifyHead_eq_self_iff : ls.modifyHead f = ls ↔ ∀ l ∈ ls.head?, f l = l := by
  cases ls <;> simp

theorem modifyLast_eq_self_iff : ls.modifyLast f = ls ↔ ∀ l ∈ ls.getLast?, f l = l := by
  induction ls using List.reverseRecOn with
  | nil => simp [List.modifyLast, List.modifyLast.go]
  | append_singleton ls l _ =>
      rw [List.modifyLast_concat]
      simp

/-! ## The delimiters of joined lines -/

/-- The lines without an opener at the first and without a closer at the last. -/
def undelimited (ls : List Text) : List Text :=
  (ls.modifyHead (Text.dropMark opener)).modifyLast (Text.dropEndMark closer)

theorem pieces_undelimited (ls : List Text) :
    Pieces (undelimited ls) (ls.modifyHead (Text.dropMark opener)) ∧
      Pieces (ls.modifyHead (Text.dropMark opener)) ls :=
  ⟨pieces_modifyLast (fun l => (Text.dropEndMark_isPrefix closer l).isInfix) _,
    pieces_modifyHead (fun l => (Text.dropMark_isSuffix opener l).isInfix) ls⟩

theorem undelimited_eq_self_iff :
    undelimited ls = ls ↔
      (∀ l ∈ ls.head?, ¬ opener <+: l) ∧ ∀ l ∈ ls.getLast?, ¬ closer <:+ l := by
  have hopen : ls.modifyHead (Text.dropMark opener) = ls ↔ ∀ l ∈ ls.head?, ¬ opener <+: l := by
    simp only [modifyHead_eq_self_iff, Text.dropMark_eq_self_iff (by decide : opener ≠ [])]
  have hclose : ls.modifyLast (Text.dropEndMark closer) = ls ↔
      ∀ l ∈ ls.getLast?, ¬ closer <:+ l := by
    simp only [modifyLast_eq_self_iff, Text.dropEndMark_eq_self_iff (by decide : closer ≠ [])]
  rw [← hopen, ← hclose]
  constructor
  · intro hsame
    obtain ⟨hlast, hhead⟩ := pieces_undelimited ls
    rw [hsame] at hlast
    have hopened := hhead.antisymm hlast
    rw [undelimited, hopened] at hsame
    exact ⟨hopened, hsame⟩
  · rintro ⟨hopened, hclosed⟩
    rw [undelimited, hopened, hclosed]

theorem trimmed_unlines (hls : ∀ l ∈ ls, IsCleaned l) : Text.Trimmed (Text.unlines ls) := by
  constructor
  · cases ls with
    | nil => simp [Text.unlines]
    | cons l ls =>
        have hl := hls l List.mem_cons_self
        rw [Text.head?_unlines_cons hl.ne_nil]
        exact hl.trimmed.head
  · induction ls using List.reverseRecOn with
    | nil => simp [Text.unlines]
    | append_singleton ls l _ =>
        have hl := hls l (by simp)
        rw [Text.getLast?_unlines_concat hl.ne_nil]
        exact hl.trimmed.last

/-- Joined lines lose their delimiters where the lines themselves do. -/
theorem rawLines_unlines (hne : ls ≠ []) (hls : ∀ l ∈ ls, IsCleaned l) :
    rawLines (Text.unlines ls) = undelimited ls := by
  obtain ⟨hlast, hhead⟩ := pieces_undelimited ls
  have hpieces := hlast.trans hhead
  have hnot : undelimited ls ≠ [] := by
    rwa [← List.length_pos_iff, hpieces.length_eq, List.length_pos_iff]
  have hfeed := hpieces.not_mem fun l hl => (hls l hl).one_line
  rw [rawLines, Text.trim_eq_self (trimmed_unlines hls), Text.dropMark_unlines (by decide),
    Text.dropEndMark_unlines (by decide), ← undelimited, Text.lines_unlines hnot hfeed]

/-! ## The second reading -/

/-- Nothing is left in the lines that another reading would take. -/
structure Settled (comment : Comment) : Prop where
  no_marker : ∀ line ∈ comment.lines, ¬ marker <+: line
  no_opener : ∀ line ∈ comment.lines.head?, ¬ opener <+: line
  no_closer : ∀ line ∈ comment.lines.getLast?, ¬ closer <:+ line

theorem settled_iff {comment : Comment} (hls : ∀ l ∈ comment.lines, IsCleaned l) :
    comment.Settled ↔
      comment.lines.map cleanLine = comment.lines ∧ undelimited comment.lines = comment.lines := by
  have hclean : comment.lines.map cleanLine = comment.lines ↔
      ∀ line ∈ comment.lines, ¬ marker <+: line := by
    have hmap := List.map_inj_left (l := comment.lines) (f := cleanLine) (g := id)
    rw [List.map_id] at hmap
    rw [hmap]
    exact forall₂_congr fun line hline => cleanLine_eq_self_iff (hls line hline).trimmed
  rw [hclean, undelimited_eq_self_iff]
  exact ⟨fun h => ⟨h.no_marker, h.no_opener, h.no_closer⟩, fun ⟨hm, ho, hc⟩ => ⟨hm, ho, hc⟩⟩

/-- When the second reading gives the lines back, none of its steps took
anything. -/
theorem filter_cleaned_eq_self_iff (hls : ∀ l ∈ ls, IsCleaned l) :
    ((undelimited ls).map cleanLine).filter (· ≠ []) = ls ↔
      ls.map cleanLine = ls ∧ undelimited ls = ls := by
  obtain ⟨hlast, hhead⟩ := pieces_undelimited ls
  have hpieces := hlast.trans hhead
  constructor
  · intro hsame
    have hkept : (undelimited ls).map cleanLine = ls := by
      have hsub := List.filter_sublist (p := (· ≠ [])) (l := (undelimited ls).map cleanLine)
      rw [hsame] at hsub
      exact (hsub.eq_of_length (by rw [List.length_map, hpieces.length_eq])).symm
    have hcleaned := pieces_map cleanLine_isInfix (undelimited ls)
    rw [hkept] at hcleaned
    have hsettled := hpieces.antisymm hcleaned
    rw [hsettled] at hkept
    exact ⟨hkept, hsettled⟩
  · rintro ⟨hclean, hdelimited⟩
    rw [hdelimited, hclean, List.filter_eq_self]
    exact fun l hl => decide_eq_true (hls l hl).ne_nil

/-- **Reading again.** The cleaned lines of a comment, joined and read as a
comment, are the same comment exactly when no line starts with a marker, the
first does not start with an opener and the last does not end with a closer.
What is read from the comment then is the same as well. -/
theorem parse_unlines_iff (raw : Text) :
    parse (Text.unlines (parse raw).lines) = parse raw ↔ (parse raw).Settled := by
  have hls : ∀ l ∈ (parse raw).lines, IsCleaned l := fun l hl => isCleaned_of_mem_lines hl
  rw [settled_iff hls]
  generalize parse raw = comment at hls ⊢
  obtain ⟨ls⟩ := comment
  cases ls with
  | nil => exact ⟨fun _ => ⟨rfl, rfl⟩, fun _ => rfl⟩
  | cons l ls =>
      rw [parse, rawLines_unlines (List.cons_ne_nil l ls) hls, Comment.mk.injEq]
      exact filter_cleaned_eq_self_iff hls

/-- Behind two stars stands a tag that only the second reading sees. -/
example :
    let comment := parse "/*\n ** @brief x\n */".toList
    comment.value? .brief = none ∧
      (parse (Text.unlines comment.lines)).value? .brief = some "x".toList := by decide

end TypedExports.Comment
