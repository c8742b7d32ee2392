import Mathlib.Data.List.Basic
import Mathlib.Data.List.TakeWhile
import TypedExports.Text.Basic

/-!
# Trimming

A text is trimmed when neither of its ends is blank. Trimming makes every
text so, changes no text that is so already, and takes no notice of blanks
put around a text. What it takes away is blank, so it does not touch a piece
of the text that is trimmed itself (`infix_trim`).
-/

namespace TypedExports.Text

/-- A text that neither starts nor ends with a blank. -/
structure Trimmed (s : Text) : Prop where
  head : ∀ c ∈ s.head?, isBlank c = false
  last : ∀ c ∈ s.getLast?, isBlank c = false

variable {s u v : Text}

theorem trimStart_eq_self (h : ∀ c ∈ s.head?, isBlank c = false) : trimStart s = s := by
  cases s with
  | nil => rfl
  | cons c s => simp [trimStart, h c rfl]

theorem trimEnd_eq_self (h : ∀ c ∈ s.getLast?, isBlank c = false) : trimEnd s = s := by
  have hrev : trimStart s.reverse = s.reverse :=
    trimStart_eq_self fun c hc => h c (by rwa [List.head?_reverse] at hc)
  rw [trimEnd, ← trimStart, hrev, List.reverse_reverse]

theorem trimStart_isSuffix (s : Text) : trimStart s <:+ s := List.dropWhile_suffix _

theorem trimEnd_isPrefix (s : Text) : trimEnd s <+: s := by
  have := (List.dropWhile_suffix isBlank (l := s.reverse)).reverse
  rwa [List.reverse_reverse] at this

theorem trim_isInfix (s : Text) : trim s <:+: s :=
  (trimEnd_isPrefix _).isInfix.trans (trimStart_isSuffix s).isInfix

theorem isBlank_of_mem_space : ∀ c ∈ [' '], isBlank c = true := by
  intro c hc
  rw [List.mem_singleton.mp hc]
  decide

theorem trimStart_append (hu : ∀ c ∈ u, isBlank c = true) (s : Text) :
    trimStart (u ++ s) = trimStart s :=
  List.dropWhile_append_of_pos hu

theorem trimEnd_append (hv : ∀ c ∈ v, isBlank c = true) (s : Text) :
    trimEnd (s ++ v) = trimEnd s := by
  rw [trimEnd, trimEnd, List.reverse_append, List.dropWhile_append_of_pos (by simpa using hv)]

/-- Blanks around a text are not noticed. -/
theorem trim_append (hu : ∀ c ∈ u, isBlank c = true) (hv : ∀ c ∈ v, isBlank c = true)
    (s : Text) : trim (u ++ s ++ v) = trim s := by
  rw [trim, trim, List.append_assoc, trimStart_append hu, trimStart, List.dropWhile_append]
  split
  · next hs =>
      rw [List.dropWhile_eq_nil_iff.mpr hv, trimStart, List.isEmpty_iff.mp hs]
  · exact trimEnd_append hv _

theorem head_dropWhile_isBlank (s : Text) :
    ∀ c ∈ (s.dropWhile isBlank).head?, isBlank c = false := by
  intro c hc
  have := List.head?_dropWhile_not isBlank s
  rwa [Option.mem_def.mp hc] at this

theorem trimmed_trim (s : Text) : Trimmed (trim s) := by
  constructor
  · intro c hc
    rw [trim, trimEnd, List.head?_reverse] at hc
    -- what is left of the end keeps the start
    obtain ⟨ends, hends⟩ := List.dropWhile_suffix isBlank (l := (trimStart s).reverse)
    have hlast : (trimStart s).reverse.getLast? = some c := by
      rw [← hends, List.getLast?_append, Option.mem_def.mp hc, Option.some_or]
    rw [List.getLast?_reverse] at hlast
    exact head_dropWhile_isBlank s c hlast
  · intro c hc
    rw [trim, trimEnd, List.getLast?_reverse] at hc
    exact head_dropWhile_isBlank _ c hc

theorem trim_eq_self (h : Trimmed s) : trim s = s := by
  rw [trim, trimStart_eq_self h.head, trimEnd_eq_self h.last]

theorem trim_eq_self_iff : trim s = s ↔ Trimmed s :=
  ⟨fun h => h ▸ trimmed_trim s, trim_eq_self⟩

/-- A blank of a trimmed text stands inside of it. -/
theorem Trimmed.exists_inner {c : Char} (h : Trimmed s) (hblank : isBlank c = true) (hc : c ∈ s) :
    ∃ before after, before ≠ [] ∧ after ≠ [] ∧ s = before ++ c :: after := by
  obtain ⟨before, after, rfl⟩ := List.append_of_mem hc
  refine ⟨before, after, ?_, ?_, rfl⟩
  · rintro rfl
    have := h.head c rfl
    rw [hblank] at this
    cases this
  · rintro rfl
    have := h.last c List.getLast?_concat
    rw [hblank] at this
    cases this

/-! ## What trimming takes away -/

theorem exists_blanks_trimStart (s : Text) :
    ∃ blanks, (∀ c ∈ blanks, isBlank c = true) ∧ s = blanks ++ trimStart s :=
  ⟨s.takeWhile isBlank, fun _ hc => List.mem_takeWhile_imp hc,
    List.takeWhile_append_dropWhile.symm⟩

theorem exists_blanks_trimEnd (s : Text) :
    ∃ blanks, (∀ c ∈ blanks, isBlank c = true) ∧ s = trimEnd s ++ blanks := by
  obtain ⟨blanks, hblanks, hs⟩ := exists_blanks_trimStart s.reverse
  refine ⟨blanks.reverse, fun c hc => hblanks c (List.mem_reverse.mp hc), ?_⟩
  rw [← List.reverse_inj, hs, trimEnd, List.reverse_append, List.reverse_reverse,
    List.reverse_reverse]
  rfl

theorem trim_trimEnd (s : Text) : trim (trimEnd s) = trim s := by
  obtain ⟨blanks, hblanks, hs⟩ := exists_blanks_trimEnd s
  have htrim := trim_append (u := []) (List.forall_mem_nil _) hblanks (trimEnd s)
  rw [List.nil_append, ← hs] at htrim
  exact htrim.symm

theorem trimEnd_eq_nil_iff : trimEnd s = [] ↔ ∀ c ∈ s, isBlank c = true := by
  rw [trimEnd, List.reverse_eq_nil_iff, List.dropWhile_eq_nil_iff]
  simp

theorem trim_eq_nil_iff : trim s = [] ↔ ∀ c ∈ s, isBlank c = true := by
  obtain ⟨blanks, hblanks, hs⟩ := exists_blanks_trimStart s
  rw [trim, trimEnd_eq_nil_iff]
  conv => rhs; rw [hs]
  rw [List.forall_mem_append]
  exact ⟨fun h => ⟨hblanks, h⟩, fun h => h.2⟩

/-- Only the end of a text that is not blank throughout is trimmed at its end. -/
theorem trimEnd_append_of_ne_nil (hs : trimEnd s ≠ []) (a : Text) :
    trimEnd (a ++ s) = a ++ trimEnd s := by
  have hrev : (s.reverse.dropWhile isBlank).isEmpty = false := by
    rw [List.isEmpty_eq_false_iff]
    exact fun hnil => hs (congrArg List.reverse hnil)
  rw [trimEnd, List.reverse_append, List.dropWhile_append, hrev]
  simp [trimEnd]

theorem trimStart_append_of_head (hs : ∀ c ∈ s.head?, isBlank c = false) (a : Text) :
    trimStart (a ++ s) = trimStart a ++ s := by
  have hself : s.dropWhile isBlank = s := trimStart_eq_self hs
  rw [trimStart, trimStart, List.dropWhile_append]
  split
  · next hnil => rw [hself, List.isEmpty_iff.mp hnil, List.nil_append]
  · rfl

theorem trimEnd_append_of_last (hs : ∀ c ∈ s.getLast?, isBlank c = false) (b : Text) :
    trimEnd (s ++ b) = s ++ trimEnd b := by
  have hhead : ∀ c ∈ s.reverse.head?, isBlank c = false := by rwa [List.head?_reverse]
  have hrev := trimStart_append_of_head hhead b.reverse
  rw [trimEnd, List.reverse_append, ← trimStart, hrev, List.reverse_append, List.reverse_reverse]
  rfl

/-- A piece of a text that is trimmed itself is not touched by trimming. -/
theorem infix_trim (hv : Trimmed v) (h : v <:+: s) : v <:+: trim s := by
  obtain rfl | hne := eq_or_ne v []
  · exact List.nil_infix
  obtain ⟨a, b, rfl⟩ := h
  have hhead : ∀ c ∈ (v ++ b).head?, isBlank c = false := by
    rw [List.head?_append_of_ne_nil _ hne]
    exact hv.head
  have hlast : ∀ c ∈ (trimStart a ++ v).getLast?, isBlank c = false := by
    rw [List.getLast?_append_of_ne_nil _ hne]
    exact hv.last
  rw [trim, List.append_assoc, trimStart_append_of_head hhead, ← List.append_assoc,
    trimEnd_append_of_last hlast]
  exact List.infix_append _ v _

end TypedExports.Text
