import Mathlib.Data.List.ModifyLast
import TypedExports.Proofs.Text.Search

/-!
# Lines

`lines` and `unlines` are inverse to each other on lines that hold no line
feed. A mark of two characters of which neither is a line feed occurs in
joined lines exactly when it occurs in one of them, and one that is taken off
an end of joined lines is taken off the line that stands there. A piece
that holds no line feed lies on one line (`exists_line_of_infix`).
-/

namespace TypedExports.Text

variable {l s : Text} {ls ls' : List Text}

/-! ## Cutting a text into lines -/

theorem lines_append_cons {a : Text} (ha : lineFeed ∉ a) (b : Text) :
    lines (a ++ lineFeed :: b) = a :: lines b :=
  List.splitOn_append_cons_self_of_not_mem ha b

theorem lines_unlines (hne : ls ≠ []) (hls : ∀ l ∈ ls, lineFeed ∉ l) : lines (unlines ls) = ls :=
  List.splitOn_intercalate lineFeed hls hne

theorem mem_splitOn_append {c : Char} {a : Text} (ha : c ∉ a) (hl : l ∈ (a ++ s).splitOn c) :
    c ∉ l ∧ l <:+: a ++ s := by
  -- on the text, with the piece that has begun in front of it
  induction s generalizing a with
  | nil =>
      rw [List.append_nil, List.splitOn_eq_singleton ha, List.mem_singleton] at hl
      subst hl
      rw [List.append_nil]
      exact ⟨ha, List.infix_refl l⟩
  | cons d s ih =>
      by_cases hd : d = c
      · subst hd
        rw [List.splitOn_append_cons_self_of_not_mem ha, List.mem_cons] at hl
        rcases hl with rfl | hl
        · exact ⟨ha, List.infix_append' [] l _⟩
        · obtain ⟨hsep, hpiece⟩ := ih List.not_mem_nil hl
          rw [List.append_cons]
          exact ⟨hsep, List.infix_append_of_infix_right hpiece⟩
      · rw [List.append_cons] at hl ⊢
        refine ih ?_ hl
        rw [List.mem_append, List.mem_singleton, not_or]
        exact ⟨ha, Ne.symm hd⟩

/-- What stands between two separators is a piece of the text without one. -/
theorem mem_splitOn {c : Char} (hl : l ∈ s.splitOn c) : c ∉ l ∧ l <:+: s :=
  mem_splitOn_append (a := []) List.not_mem_nil hl

/-- A text without a line feed opens the first line. -/
theorem exists_lines_append (hl : lineFeed ∉ l) (b : Text) :
    ∃ rest ls, lines (l ++ b) = (l ++ rest) :: ls := by
  by_cases hb : lineFeed ∈ b
  · obtain ⟨rest, behind, rfl, hrest⟩ := List.eq_append_cons_of_mem hb
    have hline : lineFeed ∉ l ++ rest := by
      rw [List.mem_append, not_or]
      exact ⟨hl, hrest⟩
    rw [← List.append_assoc, lines_append_cons hline]
    exact ⟨rest, lines behind, rfl⟩
  · have hline : lineFeed ∉ l ++ b := by
      rw [List.mem_append, not_or]
      exact ⟨hl, hb⟩
    exact ⟨b, [], List.splitOn_eq_singleton hline⟩

theorem exists_line_of_append {p : Text} (hp : lineFeed ∉ p) (hl : lineFeed ∉ l) (a b : Text) :
    ∃ line ∈ lines (p ++ (a ++ l ++ b)), l <:+: line := by
  -- on the text in front, with the line that has begun before it
  induction a generalizing p with
  | nil =>
      have hpl : lineFeed ∉ p ++ l := by
        rw [List.mem_append, not_or]
        exact ⟨hp, hl⟩
      obtain ⟨rest, ls, hlines⟩ := exists_lines_append hpl b
      rw [List.nil_append, ← List.append_assoc, hlines]
      exact ⟨_, List.mem_cons_self, List.infix_append p l rest⟩
  | cons c a ih =>
      by_cases hc : c = lineFeed
      · subst hc
        obtain ⟨line, hline, hpiece⟩ := ih List.not_mem_nil
        refine ⟨line, ?_, hpiece⟩
        rw [List.cons_append, List.cons_append, lines_append_cons hp]
        exact List.mem_cons_of_mem p hline
      · rw [List.cons_append, List.cons_append, List.append_cons]
        refine ih ?_
        rw [List.mem_append, List.mem_singleton, not_or]
        exact ⟨hp, Ne.symm hc⟩

/-- A piece of a text without a line feed lies on one of its lines. -/
theorem exists_line_of_infix (hl : lineFeed ∉ l) (h : l <:+: s) :
    ∃ line ∈ lines s, l <:+: line := by
  obtain ⟨a, b, rfl⟩ := h
  exact exists_line_of_append (p := []) List.not_mem_nil hl a b

/-- The lines in front of the first one that is `l` can be told from the others. -/
theorem append_cons_inj {rest rest' : List Text} (h : ls ++ l :: rest = ls' ++ l :: rest')
    (hls : l ∉ ls) (hls' : l ∉ ls') : ls = ls' ∧ rest = rest' := by
  induction ls generalizing ls' with
  | nil =>
      cases ls' with
      | nil => exact ⟨rfl, (List.cons.inj h).2⟩
      | cons x ls' => exact absurd ((List.cons.inj h).1 ▸ List.mem_cons_self) hls'
  | cons x ls ih =>
      rw [List.mem_cons, not_or] at hls
      cases ls' with
      | nil => exact absurd (List.cons.inj h).1.symm hls.1
      | cons y ls' =>
          rw [List.mem_cons, not_or] at hls'
          obtain ⟨rfl, htail⟩ := List.cons.inj h
          obtain ⟨rfl, hrest⟩ := ih htail hls.2 hls'.2
          exact ⟨rfl, hrest⟩

/-! ## Joining lines -/

theorem unlines_cons (hne : ls ≠ []) (l : Text) :
    unlines (l :: ls) = l ++ lineFeed :: unlines ls := by
  rw [unlines, List.intercalate_cons_of_ne_nil hne]
  simp [unlines]

theorem unlines_append (hne : ls ≠ []) (hne' : ls' ≠ []) :
    unlines (ls ++ ls') = unlines ls ++ lineFeed :: unlines ls' := by
  induction ls with
  | nil => exact absurd rfl hne
  | cons l ls ih =>
      cases ls with
      | nil =>
          rw [List.singleton_append, unlines_cons hne', unlines, unlines,
            List.intercalate_singleton]
      | cons l' ls =>
          have hcons := List.cons_ne_nil l' ls
          rw [List.cons_append, unlines_cons (List.append_ne_nil_of_left_ne_nil hcons ls'),
            ih hcons, unlines_cons hcons, List.append_assoc, List.cons_append]

/-- What stands in front of the first line stands in front of the text. -/
theorem unlines_append_cons (a l : Text) (ls : List Text) :
    unlines ((a ++ l) :: ls) = a ++ unlines (l :: ls) := by
  cases ls with
  | nil => rw [unlines, unlines, List.intercalate_singleton, List.intercalate_singleton]
  | cons l' ls =>
      have hcons := List.cons_ne_nil l' ls
      rw [unlines_cons hcons, unlines_cons hcons, List.append_assoc]

/-- What stands behind the last line stands behind the text. -/
theorem unlines_concat_append (ls : List Text) (l b : Text) :
    unlines (ls ++ [l ++ b]) = unlines (ls ++ [l]) ++ b := by
  cases ls with
  | nil => simp [unlines, List.intercalate_singleton]
  | cons l' ls =>
      have hcons := List.cons_ne_nil l' ls
      rw [unlines_append hcons (List.cons_ne_nil _ _), unlines_append hcons (List.cons_ne_nil _ _)]
      simp [unlines, List.intercalate_singleton]

/-- Joined texts hold no character that neither they nor the separator hold. -/
theorem not_mem_intercalate {c : Char} {sep : Text} (hsep : c ∉ sep) (hls : ∀ l ∈ ls, c ∉ l) :
    c ∉ sep.intercalate ls := by
  induction ls with
  | nil => exact List.not_mem_nil
  | cons l ls ih =>
      have hl := hls l List.mem_cons_self
      cases ls with
      | nil => rwa [List.intercalate_singleton]
      | cons l' ls =>
          have hrest := ih fun l hmem => hls l (List.mem_cons_of_mem _ hmem)
          rw [List.intercalate_cons_cons, List.mem_append, List.mem_append, not_or, not_or]
          exact ⟨⟨hl, hsep⟩, hrest⟩

/-- A line feed between two lines takes part in no occurrence. -/
theorem pair_infix_unlines_iff {x y : Char} (hx : x ≠ lineFeed) (hy : y ≠ lineFeed) :
    [x, y] <:+: unlines ls ↔ ∃ l ∈ ls, [x, y] <:+: l := by
  induction ls with
  | nil => simp [unlines]
  | cons l ls ih =>
      cases ls with
      | nil => simp [unlines, List.intercalate_singleton]
      | cons l' ls =>
          have hfeed : [x, y] <:+: lineFeed :: unlines (l' :: ls) ↔
              [x, y] <:+: unlines (l' :: ls) := by
            have hshort : ¬ [x, y] <:+: [lineFeed] := fun h => by simpa using h.length_le
            show [x, y] <:+: [lineFeed] ++ unlines (l' :: ls) ↔ _
            rw [pair_infix_append_iff]
            simp [Ne.symm hx, hshort]
          rw [unlines_cons (List.cons_ne_nil l' ls), pair_infix_append_iff, hfeed, ih]
          simp [Ne.symm hy]

/-! ## Marks at the ends of joined lines -/

theorem head?_unlines_cons (hl : l ≠ []) (ls : List Text) :
    (unlines (l :: ls)).head? = l.head? := by
  have hfront := unlines_append_cons l [] ls
  rw [List.append_nil] at hfront
  rw [hfront, List.head?_append_of_ne_nil _ hl]

theorem getLast?_unlines_concat (hl : l ≠ []) (ls : List Text) :
    (unlines (ls ++ [l])).getLast? = l.getLast? := by
  have hend := unlines_concat_append ls [] l
  rw [List.nil_append] at hend
  rw [hend, List.getLast?_append_of_ne_nil _ hl]

variable {mark : Text}

/-- A mark without a line feed that joined lines start with is in the first. -/
theorem prefix_of_prefix_unlines (hfeed : lineFeed ∉ mark) (h : mark <+: unlines (l :: ls)) :
    mark <+: l := by
  cases ls with
  | nil => rwa [unlines, List.intercalate_singleton] at h
  | cons l' ls =>
      rw [unlines_cons (List.cons_ne_nil l' ls)] at h
      by_cases hlen : mark.length ≤ l.length
      · exact List.prefix_of_prefix_length_le h (List.prefix_append _ _) hlen
      · have hline : l ++ [lineFeed] <+: l ++ lineFeed :: unlines (l' :: ls) :=
          ⟨unlines (l' :: ls), by simp⟩
        have hover : l ++ [lineFeed] <+: mark := by
          refine List.prefix_of_prefix_length_le hline h ?_
          simp only [List.length_append, List.length_singleton]
          omega
        exact absurd (hover.subset (by simp)) hfeed

theorem suffix_of_suffix_unlines (hfeed : lineFeed ∉ mark) (h : mark <:+ unlines (ls ++ [l])) :
    mark <:+ l := by
  cases ls with
  | nil => rwa [List.nil_append, unlines, List.intercalate_singleton] at h
  | cons l' ls =>
      have hlast : unlines [l] = l := List.intercalate_singleton
      rw [unlines_append (List.cons_ne_nil l' ls) (List.cons_ne_nil l []), hlast] at h
      by_cases hlen : mark.length ≤ l.length
      · refine List.suffix_of_suffix_length_le h ?_ hlen
        exact (List.suffix_cons _ _).trans (List.suffix_append _ _)
      · have hover : lineFeed :: l <:+ mark := by
          refine List.suffix_of_suffix_length_le (List.suffix_append _ _) h ?_
          rw [List.length_cons]
          omega
        exact absurd (hover.subset List.mem_cons_self) hfeed

/-- A mark at the start is taken off the first line. -/
theorem dropMark_unlines (hfeed : lineFeed ∉ mark) (ls : List Text) :
    dropMark mark (unlines ls) = unlines (ls.modifyHead (dropMark mark)) := by
  cases ls with
  | nil => exact List.eq_nil_of_suffix_nil (dropMark_isSuffix mark [])
  | cons l ls =>
      rw [List.modifyHead_cons]
      by_cases hl : mark <+: l
      · obtain ⟨rest, rfl⟩ := hl
        rw [unlines_append_cons, dropMark_append, dropMark_append]
      · have hnot : ¬ mark <+: unlines (l :: ls) := fun h =>
          hl (prefix_of_prefix_unlines hfeed h)
        rw [dropMark_eq_self hl, dropMark_eq_self hnot]

/-- A mark at the end is taken off the last line. -/
theorem dropEndMark_unlines (hfeed : lineFeed ∉ mark) (ls : List Text) :
    dropEndMark mark (unlines ls) = unlines (ls.modifyLast (dropEndMark mark)) := by
  induction ls using List.reverseRecOn with
  | nil => exact List.eq_nil_of_prefix_nil (dropEndMark_isPrefix mark [])
  | append_singleton ls l _ =>
      rw [List.modifyLast_concat]
      by_cases hl : mark <:+ l
      · obtain ⟨rest, rfl⟩ := hl
        rw [unlines_concat_append, dropEndMark_append, dropEndMark_append]
      · have hnot : ¬ mark <:+ unlines (ls ++ [l]) := fun h =>
          hl (suffix_of_suffix_unlines hfeed h)
        rw [dropEndMark_eq_self hl, dropEndMark_eq_self hnot]

end TypedExports.Text
