import TypedExports.Text.Search
import TypedExports.Text.Word

/-!
# Declarations

A declaration is what looks like a call: a name, blanks, and a parenthesis that is closed later.
The name is a given stem and a non-empty run of name characters, and it stands alone as a word:
exactly one of the characters around its start is a word character, and none follows its end.
The run is the longest one; a shorter run would end between two word characters.
-/

namespace TypedExports

/-- A declaration: the text that leads up to it, its name, and the rest of the call shape. -/
structure Declaration where
  lead : Text
  name : Text
  call : Text
  deriving DecidableEq, Repr

namespace Declaration

/-- Everything the declaration takes up. -/
def text (d : Declaration) : Text := d.lead ++ d.name ++ d.call

/-- Whether a word starts or ends between a character and the one that follows it, if any. -/
def isBoundary (before : Char) (following : Option Char) : Bool :=
  Text.isWord before != following.any Text.isWord

/-- A parenthesis, after blanks if any, up to the first one that closes, and what follows. -/
def arguments? (s : Text) : Option (Text × Text) := do
  let inside ← Text.after? ['('] (s.dropWhile Text.isBlank)
  let (arguments, rest) ← Text.cut? [')'] inside
  return (s.takeWhile Text.isBlank ++ '(' :: arguments ++ [')'], rest)

/-- Whether a name stands alone as a word, given the character before it, the text that it starts,
and the text behind it. -/
def standsAlone (before : Char) (s behind : Text) : Bool :=
  isBoundary before s.head? && !behind.head?.any Text.isWord

/-- The declaration that starts a text which follows the character `before`: its name, the rest of
the call shape, and the rest of the text. -/
def start? (stem : Text) (before : Char) (s : Text) : Option (Text × Text × Text) := do
  let named ← Text.after? stem s
  let run := named.takeWhile Text.isNameChar
  let behind := named.dropWhile Text.isNameChar
  if run ≠ [] ∧ standsAlone before s behind then
    let (call, rest) ← arguments? behind
    return (stem ++ run, call, rest)
  else none

/-- The search for a declaration, with the text already passed in reverse order. -/
def findFrom? (stem seen : Text) (before : Char) : Text → Option (Declaration × Text)
  | [] => none
  | c :: s =>
    match start? stem before (c :: s) with
    | some (name, call, rest) => some (⟨seen.reverse, name, call⟩, rest)
    | none => findFrom? stem (c :: seen) c s

/-- The first declaration in a text which follows the character `before`, and what follows it. -/
def find? (stem : Text) (before : Char) (s : Text) : Option (Declaration × Text) :=
  findFrom? stem [] before s

/-- The declaration that a comment documents, given the text behind the comment. The blanks behind
the comment must hold a line feed; the declaration may then stand anywhere further on, also behind
other comments or inside one. -/
def documented? (stem s : Text) : Option (Declaration × Text) :=
  if Text.lineFeed ∈ s.takeWhile Text.isBlank then find? stem '/' s else none

theorem eq_append_of_arguments? {s call rest : Text} (h : arguments? s = some (call, rest)) :
    s = call ++ rest := by
  simp only [arguments?, Option.bind_eq_bind, Option.bind_eq_some_iff, Option.pure_def,
    Option.some.injEq, Prod.mk.injEq] at h
  obtain ⟨inside, opened, ⟨arguments, rest'⟩, closed, rfl, rfl⟩ := h
  conv => lhs; rw [← List.takeWhile_append_dropWhile (p := Text.isBlank) (l := s)]
  rw [Text.eq_append_of_after? opened, Text.eq_append_of_cut? closed]
  simp

theorem eq_append_of_start? {stem s name call rest : Text} {before : Char}
    (h : start? stem before s = some (name, call, rest)) : s = name ++ call ++ rest := by
  simp only [start?, Option.bind_eq_bind, Option.bind_eq_some_iff, Option.pure_def,
    Option.ite_none_right_eq_some, Option.some.injEq, Prod.mk.injEq] at h
  obtain ⟨named, found, _, ⟨call', rest'⟩, called, rfl, rfl, rfl⟩ := h
  rw [Text.eq_append_of_after? found, List.append_assoc, List.append_assoc,
    ← eq_append_of_arguments? called, List.takeWhile_append_dropWhile]

theorem eq_append_of_findFrom? {stem seen s rest : Text} {before : Char} {d : Declaration}
    (h : findFrom? stem seen before s = some (d, rest)) : seen.reverse ++ s = d.text ++ rest := by
  induction s generalizing seen before with
  | nil => simp [findFrom?] at h
  | cons c s ih =>
    simp only [findFrom?] at h
    split at h
    · next found =>
      cases h
      rw [eq_append_of_start? found]
      simp [text]
    · rw [← ih h]
      simp

/-- The declaration with what leads up to it, and what follows, are the whole text. -/
theorem eq_append_of_documented? {stem s rest : Text} {d : Declaration}
    (h : documented? stem s = some (d, rest)) : s = d.text ++ rest := by
  unfold documented? at h
  split at h
  · simpa using eq_append_of_findFrom? h
  · cases h

theorem length_rest_le_of_documented? {stem s rest : Text} {d : Declaration}
    (h : documented? stem s = some (d, rest)) : rest.length ≤ s.length := by
  rw [eq_append_of_documented? h]
  simp

end Declaration

end TypedExports
