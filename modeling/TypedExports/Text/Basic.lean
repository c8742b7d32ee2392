import TypedExports.Text.Blank

/-!
# Texts

A text is the list of its characters, and every cut of a text is a split of a list. Texts are
ordered as in a dictionary whose alphabet are the code points (`Text.le`).
-/

namespace TypedExports

/-- A text, as the list of its characters. -/
abbrev Text := List Char

namespace Text

/-- The line feed, which alone ends a line. -/
def lineFeed : Char := '\n'

/-- The pieces of a text between its line feeds. A text that ends in one has an empty last piece. -/
def lines (s : Text) : List Text := s.splitOn lineFeed

/-- The lines written one after another with a line feed between neighbours. -/
def unlines (ls : List Text) : Text := [lineFeed].intercalate ls

def trimStart (s : Text) : Text := s.dropWhile isBlank

def trimEnd (s : Text) : Text := (s.reverse.dropWhile isBlank).reverse

def trim (s : Text) : Text := trimEnd (trimStart s)

/-- What follows `mark` in a text that starts with it. -/
def after? : (mark s : Text) → Option Text
  | [], s => some s
  | _ :: _, [] => none
  | m :: mark, c :: s => if m = c then after? mark s else none

/-- What precedes `mark` in a text that ends with it. -/
def before? (mark s : Text) : Option Text :=
  (after? mark.reverse s.reverse).map List.reverse

/-- The text without one `mark` at its start, if it starts with it. -/
def dropMark (mark s : Text) : Text := (after? mark s).getD s

/-- The text without one `mark` at its end, if it ends with it. -/
def dropEndMark (mark s : Text) : Text := (before? mark s).getD s

/-- Whether the first text comes before the second or is the same: the first character in which
they differ decides, and a text that ends comes first. -/
def le : Text → Text → Bool
  | [], _ => true
  | _ :: _, [] => false
  | c :: s, d :: t => if c = d then le s t else c.toNat < d.toNat

theorem eq_append_of_after? {mark s rest : Text} (h : after? mark s = some rest) :
    s = mark ++ rest := by
  induction mark generalizing s with
  | nil => simpa [after?] using h
  | cons m mark ih =>
    cases s with
    | nil => simp [after?] at h
    | cons c s =>
      rw [after?] at h
      split at h
      · next same => rw [List.cons_append, ← ih h, same]
      · cases h

@[simp] theorem after?_append (mark rest : Text) : after? mark (mark ++ rest) = some rest := by
  induction mark with
  | nil => rfl
  | cons m mark ih => simp [after?, ih]

theorem after?_eq_some_iff {mark s rest : Text} : after? mark s = some rest ↔ s = mark ++ rest :=
  ⟨eq_append_of_after?, fun h => h ▸ after?_append mark rest⟩

theorem before?_eq_some_iff {mark s rest : Text} :
    before? mark s = some rest ↔ s = rest ++ mark := by
  simp only [before?, Option.map_eq_some_iff, after?_eq_some_iff]
  constructor
  · rintro ⟨r, same, rfl⟩
    rw [← List.reverse_reverse s, same]
    simp
  · rintro rfl
    exact ⟨rest.reverse, by simp, by simp⟩

theorem le_total (s t : Text) : (le s t || le t s) = true := by
  induction s generalizing t with
  | nil => simp [le]
  | cons c s ih =>
    cases t with
    | nil => simp [le]
    | cons d t =>
      by_cases same : c = d
      · simpa [le, same] using ih t
      · have apart : c.toNat ≠ d.toNat := fun h => same (Char.toNat_inj.1 h)
        simp only [le, same, Ne.symm same, if_false, Bool.or_eq_true, decide_eq_true_eq]
        omega

theorem le_trans {s t u : Text} (st : le s t = true) (tu : le t u = true) : le s u = true := by
  induction s generalizing t u with
  | nil => rfl
  | cons c s ih =>
    cases t with
    | nil => cases st
    | cons d t =>
      cases u with
      | nil => cases tu
      | cons e u =>
        simp only [le] at st tu ⊢
        grind

theorem le_antisymm {s t : Text} (st : le s t = true) (ts : le t s = true) : s = t := by
  induction s generalizing t with
  | nil =>
    cases t with
    | nil => rfl
    | cons d t => cases ts
  | cons c s ih =>
    cases t with
    | nil => cases st
    | cons d t =>
      simp only [le] at st ts
      grind

end Text

end TypedExports
