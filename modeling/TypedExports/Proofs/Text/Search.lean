import Mathlib.Data.List.Infix
import TypedExports.Text.Search

/-!
# Marks

A mark is taken off an end of a text exactly when it stands there
(`dropMark_eq_self_iff`, `dropEndMark_eq_self_iff`).

`cut?` finds the first occurrence of a mark and nothing else
(`cut?_eq_some_iff`, `cut?_eq_none_iff`). The search is local: what stands
behind the mark that was found has no say in finding it (`cut?_local`), and
text in which no occurrence starts is passed over (`cut?_append_left`).

The delimiters of comments are marks of two different characters. For those
an occurrence in a concatenation lies on one side or on the seam.
-/

namespace TypedExports.Text

/-! ## Whether a mark is found -/

theorem after?_isSome_iff {mark s : Text} : (after? mark s).isSome = true ↔ mark <+: s := by
  rw [Option.isSome_iff_exists]
  constructor
  · rintro ⟨rest, h⟩
    exact ⟨rest, (eq_append_of_after? h).symm⟩
  · rintro ⟨rest, rfl⟩
    exact ⟨rest, after?_append mark rest⟩

theorem after?_eq_none_iff {mark s : Text} : after? mark s = none ↔ ¬ mark <+: s := by
  rw [← after?_isSome_iff, Option.not_isSome_iff_eq_none]

theorem before?_eq_none_iff {mark s : Text} : before? mark s = none ↔ ¬ mark <:+ s := by
  rw [Option.eq_none_iff_forall_ne_some]
  constructor
  · rintro hnone ⟨rest, hrest⟩
    exact hnone rest (before?_eq_some_iff.mpr hrest.symm)
  · rintro hnot rest hrest
    exact hnot ⟨rest, (before?_eq_some_iff.mp hrest).symm⟩

/-! ## A mark at an end -/

section Ends

variable {mark s : Text}

theorem dropMark_append (mark rest : Text) : dropMark mark (mark ++ rest) = rest := by
  rw [dropMark, after?_append, Option.getD_some]

theorem dropEndMark_append (rest mark : Text) : dropEndMark mark (rest ++ mark) = rest := by
  rw [dropEndMark, before?_eq_some_iff.mpr rfl, Option.getD_some]

theorem dropMark_eq_self (h : ¬ mark <+: s) : dropMark mark s = s := by
  rw [dropMark, after?_eq_none_iff.mpr h, Option.getD_none]

theorem dropEndMark_eq_self (h : ¬ mark <:+ s) : dropEndMark mark s = s := by
  rw [dropEndMark, before?_eq_none_iff.mpr h, Option.getD_none]

theorem dropMark_eq_self_iff (hmark : mark ≠ []) : dropMark mark s = s ↔ ¬ mark <+: s := by
  refine ⟨?_, dropMark_eq_self⟩
  rintro hsame ⟨rest, rfl⟩
  rw [dropMark_append] at hsame
  exact hmark (List.self_eq_append_left.mp hsame)

theorem dropEndMark_eq_self_iff (hmark : mark ≠ []) : dropEndMark mark s = s ↔ ¬ mark <:+ s := by
  refine ⟨?_, dropEndMark_eq_self⟩
  rintro hsame ⟨rest, rfl⟩
  rw [dropEndMark_append] at hsame
  exact hmark (List.self_eq_append_right.mp hsame)

theorem dropMark_isSuffix (mark s : Text) : dropMark mark s <:+ s := by
  by_cases h : mark <+: s
  · obtain ⟨rest, rfl⟩ := h
    rw [dropMark_append]
    exact List.suffix_append mark rest
  · rw [dropMark_eq_self h]

theorem dropEndMark_isPrefix (mark s : Text) : dropEndMark mark s <+: s := by
  by_cases h : mark <:+ s
  · obtain ⟨rest, rfl⟩ := h
    rw [dropEndMark_append]
    exact List.prefix_append rest mark
  · rw [dropEndMark_eq_self h]

end Ends

/-! ## The first occurrence of a mark -/

/-- Nothing is found exactly when the mark does not occur. -/
theorem cut?_eq_none_iff {mark s : Text} : cut? mark s = none ↔ ¬ mark <:+: s := by
  induction s with
  | nil =>
      rw [cut?_nil, Option.map_eq_none_iff, after?_eq_none_iff]
      simp
  | cons c s ih =>
      rw [cut?_cons, List.infix_cons_iff, not_or, ← ih, ← after?_eq_none_iff]
      cases after? mark (c :: s) <;> simp

/-- Every occurrence of the mark starts at the one that is found or later. -/
theorem length_le_of_cut? {mark s a r : Text} (h : cut? mark s = some (a, r))
    {x y : Text} (hs : s = x ++ mark ++ y) : a.length ≤ x.length := by
  induction s generalizing a x with
  | nil =>
      have ha := eq_append_of_cut? h
      simp_all
  | cons c s ih =>
      rw [cut?_cons] at h
      cases hc : after? mark (c :: s) with
      | some rest =>
          rw [hc] at h
          cases h
          exact Nat.zero_le _
      | none =>
          rw [hc] at h
          obtain ⟨⟨a', r'⟩, hcut, heq⟩ := Option.map_eq_some_iff.mp h
          cases heq
          cases x with
          | nil => exact absurd ⟨y, hs.symm⟩ (after?_eq_none_iff.mp hc)
          | cons d x =>
              rw [List.cons_append, List.cons_append, List.cons.injEq] at hs
              exact Nat.succ_le_succ (ih hcut hs.2)

/-- **First occurrence.** A cut is the split of the text at the occurrence
of the mark before which no other one starts. -/
theorem cut?_eq_some_iff {mark s a r : Text} :
    cut? mark s = some (a, r) ↔
      s = a ++ mark ++ r ∧ ∀ x y, s = x ++ mark ++ y → a.length ≤ x.length := by
  constructor
  · intro h
    exact ⟨eq_append_of_cut? h, fun x y hs => length_le_of_cut? h hs⟩
  · rintro ⟨hs, hfirst⟩
    cases hcut : cut? mark s with
    | none => exact absurd ⟨a, r, hs.symm⟩ (cut?_eq_none_iff.mp hcut)
    | some found =>
        obtain ⟨a', r'⟩ := found
        have hs' := eq_append_of_cut? hcut
        have hlen : a.length = a'.length :=
          Nat.le_antisymm (hfirst a' r' hs') (length_le_of_cut? hcut hs)
        rw [hs, List.append_assoc, List.append_assoc] at hs'
        obtain ⟨rfl, hr⟩ := List.append_inj hs' hlen
        rw [List.append_cancel_left hr]

/-- **Locality.** Behind the mark that was found the text may change. -/
theorem cut?_local {mark a r : Text} (h : cut? mark (a ++ mark ++ r) = some (a, r)) (t : Text) :
    cut? mark (a ++ mark ++ t) = some (a, t) := by
  refine cut?_eq_some_iff.mpr ⟨rfl, ?_⟩
  intro x y hxy
  by_contra hlt
  have hpre : x ++ mark <+: a ++ mark := by
    refine List.prefix_of_prefix_length_le ⟨y, hxy.symm⟩ (List.prefix_append _ t) ?_
    simp only [List.length_append]
    omega
  obtain ⟨z, hz⟩ := hpre
  exact hlt (length_le_of_cut? h (y := z ++ r) (by rw [← hz]; simp))

/-- Text in which no occurrence of the mark starts is passed over. -/
theorem cut?_append_left {mark a s : Text} (h : ∀ u, u ≠ [] → u <:+ a → ¬ mark <+: u ++ s) :
    cut? mark (a ++ s) = (cut? mark s).map fun cut => (a ++ cut.1, cut.2) := by
  induction a with
  | nil => simp
  | cons c a ih =>
      have hc : after? mark (c :: (a ++ s)) = none :=
        after?_eq_none_iff.mpr (h (c :: a) (by simp) (List.suffix_refl _))
      rw [List.cons_append, cut?_cons, hc,
        ih fun u hu hsuf => h u hu (hsuf.trans (List.suffix_cons c a)), Option.map_map]
      rfl

/-! ## Occurrences by offset -/

/-- The mark stands at the offset `i` of the text. -/
def OccursAt (mark s : Text) (i : Nat) : Prop := mark <+: s.drop i

/-- The part of a text between two offsets. -/
def slice (s : Text) (i j : Nat) : Text := (s.take j).drop i

theorem occursAt_iff {mark s : Text} {i : Nat} (hmark : mark ≠ []) :
    OccursAt mark s i ↔ ∃ a r, s = a ++ mark ++ r ∧ i = a.length := by
  constructor
  · rintro ⟨r, hr⟩
    refine ⟨s.take i, r, ?_, ?_⟩
    · rw [List.append_assoc, hr, List.take_append_drop]
    · have hpos := List.length_pos_iff.mpr hmark
      have hlen := congrArg List.length hr
      rw [List.length_append, List.length_drop] at hlen
      rw [List.length_take]
      omega
  · rintro ⟨a, r, rfl, rfl⟩
    rw [OccursAt, List.append_assoc, List.drop_left]
    exact List.prefix_append _ _

/-- A split of `u ++ s` at or behind `u` is a split of `s`. -/
theorem exists_append_of_le {u s a r : Text} (h : u ++ s = a ++ r) (hle : u.length ≤ a.length) :
    ∃ v, a = u ++ v ∧ s = v ++ r := by
  rcases List.append_eq_append_iff.mp h with ⟨v, ha, hs⟩ | ⟨v, hu, hr⟩
  · exact ⟨v, ha, hs⟩
  · rw [hu, List.length_append] at hle
    have hv : v = [] := List.eq_nil_of_length_eq_zero (by omega)
    subst hv
    exact ⟨[], by simpa using hu.symm, by simpa using hr.symm⟩

theorem slice_append (a s r : Text) : slice (a ++ s ++ r) a.length (a.length + s.length) = s := by
  rw [slice, ← List.length_append, List.take_left, List.drop_left]

/-! ## One character -/

/-- A single character is found behind a text that does not hold it. -/
theorem cut?_singleton_eq_some_iff {c : Char} {s a r : Text} :
    cut? [c] s = some (a, r) ↔ s = a ++ c :: r ∧ c ∉ a := by
  rw [cut?_eq_some_iff, List.append_assoc, List.singleton_append]
  refine and_congr_right ?_
  rintro rfl
  constructor
  · intro hfirst hmem
    obtain ⟨x, y, rfl⟩ := List.append_of_mem hmem
    have hle := hfirst x (y ++ c :: r) (by simp)
    simp only [List.length_append, List.length_cons] at hle
    omega
  · intro hmem x y hxy
    by_contra hlt
    have hpre : x ++ [c] <+: a :=
      List.prefix_of_prefix_length_le ⟨y, hxy.symm⟩ (List.prefix_append _ _) (by simp; omega)
    exact hmem (hpre.subset (by simp))

/-! ## Marks of two different characters -/

section Pair

variable {x y : Char}

theorem pair_prefix_cons_cons {c d : Char} {s : Text} (h : [x, y] <+: c :: d :: s) :
    c = x ∧ d = y := by
  simpa [eq_comm] using h

/-- An occurrence in a concatenation lies on one side or on the seam. -/
theorem pair_infix_append_iff {a b : Text} :
    [x, y] <:+: a ++ b ↔
      [x, y] <:+: a ∨ [x, y] <:+: b ∨ (a.getLast? = some x ∧ b.head? = some y) := by
  induction a with
  | nil => simp
  | cons c a ih =>
      rw [List.cons_append, List.infix_cons_iff, ih, List.infix_cons_iff]
      cases a with
      | nil =>
          have hc : [x, y] <+: c :: b ↔ c = x ∧ b.head? = some y := by
            cases b <;> simp [@eq_comm _ x, @eq_comm _ y]
          rw [List.nil_append, hc]
          simp
          tauto
      | cons d a => simp; tauto

/-- An occurrence that starts in the one text and is not inside it lies on
the seam to the next. -/
theorem pair_at_seam {a u s : Text} (ha : ¬ [x, y] <:+: a) (hu : u ≠ []) (hsuf : u <:+ a)
    (hpre : [x, y] <+: u ++ s) : a.getLast? = some x ∧ s.head? = some y := by
  obtain ⟨v, rfl⟩ := hsuf
  rcases u with _ | ⟨c, _ | ⟨d, u⟩⟩
  · exact absurd rfl hu
  · cases s with
    | nil => simp at hpre
    | cons d s =>
        obtain ⟨rfl, rfl⟩ := pair_prefix_cons_cons hpre
        simp
  · obtain ⟨rfl, rfl⟩ := pair_prefix_cons_cons hpre
    exact absurd ⟨v, u, by simp⟩ ha

/-- The mark is found behind a text that does not hold it. -/
theorem cut?_pair {a : Text} (hne : x ≠ y) (ha : ¬ [x, y] <:+: a) (r : Text) :
    cut? [x, y] (a ++ [x, y] ++ r) = some (a, r) := by
  rw [List.append_assoc, cut?_append_left]
  · rw [List.cons_append, cut?_cons]
    simp [after?]
  · intro u hu hsuf hpre
    obtain ⟨_, hhead⟩ := pair_at_seam ha hu hsuf hpre
    exact hne (Option.some.inj hhead)

/-- A mark between two texts that do not hold it occurs nowhere else. -/
theorem occursAt_pair_iff {a b : Text} (hne : x ≠ y) (ha : ¬ [x, y] <:+: a)
    (hb : ¬ [x, y] <:+: b) (i : Nat) : OccursAt [x, y] (a ++ [x, y] ++ b) i ↔ i = a.length := by
  rw [occursAt_iff (by simp)]
  constructor
  · rintro ⟨u, r, heq, rfl⟩
    have hle := length_le_of_cut? (cut?_pair hne ha b) heq
    rw [List.append_assoc, List.append_assoc] at heq
    obtain ⟨v, rfl, hv⟩ := exists_append_of_le heq hle
    -- another occurrence would start inside the mark or behind it
    rcases v with _ | ⟨c, _ | ⟨d, v⟩⟩
    · simp
    · simp only [List.cons_append, List.nil_append, List.cons.injEq] at hv
      exact absurd hv.2.1.symm hne
    · simp only [List.cons_append, List.nil_append, List.cons.injEq] at hv
      exact absurd ⟨v, r, by simp [hv.2.2]⟩ hb
  · rintro rfl
    exact ⟨a, b, rfl, rfl⟩

/-- A text that neither holds the mark nor ends in its first character is
passed over. -/
theorem cut?_pair_append_left {a : Text} (ha : ¬ [x, y] <:+: a) (hlast : a.getLast? ≠ some x)
    (s : Text) :
    cut? [x, y] (a ++ s) = (cut? [x, y] s).map fun cut => (a ++ cut.1, cut.2) := by
  refine cut?_append_left ?_
  intro u hu hsuf hpre
  exact hlast (pair_at_seam ha hu hsuf hpre).1

/-- What stands before the mark that was found does not hold it. -/
theorem not_pair_infix_of_cut? {s a r : Text} (h : cut? [x, y] s = some (a, r)) :
    ¬ [x, y] <:+: a := by
  rintro ⟨u, v, huv⟩
  have hs := eq_append_of_cut? h
  have hle := length_le_of_cut? h (x := u) (y := v ++ [x, y] ++ r)
    (by rw [hs, ← huv]; simp)
  rw [← huv] at hle
  simp only [List.length_append, List.length_cons, List.length_nil] at hle
  omega

end Pair

end TypedExports.Text
