import TypedExports.Proofs.Header.Pairing

/-!
# The search by offset

`CallAt` says in terms of a header's offsets what a call of a function with
the given stem looks like: which characters stand around its name, that the
name is as long as it can be, and that a parenthesis behind it is closed. It
speaks of no boundaries between words and of no pattern. The search behind a
comment finds the first such call and fails only if there is none
(`documentedFrom?_first`).
-/

namespace TypedExports

namespace Declaration

/-- What the search finds behind a comment that ends at the offset: the name,
and the offset just past the declaration. -/
def documentedFrom? (stem header : Text) (offset : Nat) : Option (Text × Nat) :=
  (documented? stem (header.drop offset)).map fun found =>
    (found.1.name, offset + found.1.text.length)

/-- A call of a function whose name starts with the stem, between two
offsets of a header. -/
structure CallAt (stem header : Text) (start stop : Nat) (name : Text) : Prop where
  /-- exactly one of the characters around the start is a word character -/
  starts : Text.IsWordEdge (header.take start).getLast? header[start]?
  spelled : ∃ run blanks inside rest,
    header.drop start = name ++ blanks ++ '(' :: inside ++ ')' :: rest ∧
      name = stem ++ run ∧ run ≠ [] ∧ (∀ c ∈ run, Text.isNameChar c = true) ∧
      (∀ c ∈ blanks, Text.isBlank c = true) ∧ ')' ∉ inside ∧
      stop = start + (name ++ blanks ++ '(' :: inside ++ [')']).length
  longest : header[start + name.length]?.any Text.isNameChar = false
  ends : header[start + name.length]?.any Text.isWord = false

variable {stem header name : Text} {start stop : Nat}

/-! ## Calls and declarations -/

/-- The characters of a text around the start and the end of a name in it. -/
theorem getElem?_around_name (before rest : Text) {call : Text} (hname : name ≠ [])
    (hcall : call ≠ []) :
    (before ++ name ++ call ++ rest)[before.length]? = name.head? ∧
      (before ++ name ++ call ++ rest)[before.length + name.length]? = call.head? := by
  constructor
  · rw [List.append_assoc, List.append_assoc, List.getElem?_append_right (Nat.le_refl _),
      Nat.sub_self, ← List.head?_eq_getElem?, List.head?_append_of_ne_nil _ hname]
  · rw [← List.length_append, List.append_assoc, List.getElem?_append_right (Nat.le_refl _),
      Nat.sub_self, ← List.head?_eq_getElem?, List.head?_append_of_ne_nil _ hcall]

/-- A name character is a word character, so that a name which ends in front
of none ends in front of no name character. -/
theorem isNameChar_of_not_word {c : Option Char} (h : c.any Text.isWord = false) :
    c.any Text.isNameChar = false := by
  cases c with
  | none => rfl
  | some c =>
      rw [Option.any_some] at h ⊢
      by_contra hname
      rw [Bool.not_eq_false] at hname
      rw [Text.isWord_of_isNameChar hname] at h
      cases h

theorem callAt_of_matchesAt (h : MatchesAt stem header start stop name) :
    CallAt stem header start stop name := by
  obtain ⟨before, call, rest, rfl, hshape, rfl, rfl⟩ := h
  have hcall := isArguments_ne_nil hshape.called
  obtain ⟨hfirst, hbehind⟩ := getElem?_around_name before rest hshape.name_ne_nil hcall
  have hnot := hshape.head_not_word
  refine ⟨?_, ?_, ?_, ?_⟩
  · have hstarts := hshape.starts
    rwa [hfirst, List.append_assoc, List.append_assoc, List.take_left]
  · obtain ⟨run, hspelled, hrun, hchars⟩ := hshape.spelled
    obtain ⟨blanks, inside, rfl, hblanks, hinside⟩ := hshape.called
    refine ⟨run, blanks, inside, rest, ?_, hspelled, hrun, hchars, hblanks, hinside, ?_⟩
    · rw [List.append_assoc, List.append_assoc, List.drop_left]
      simp
    · simp
  · rw [hbehind]
    exact isNameChar_of_not_word hnot
  · rwa [hbehind]

theorem matchesAt_of_callAt (h : CallAt stem header start stop name) :
    MatchesAt stem header start stop name := by
  obtain ⟨run, blanks, inside, rest, hdrop, hspelled, hrun, hchars, hblanks, hinside, hstop⟩ :=
    h.spelled
  have hname : name ≠ [] := by simp [hspelled, hrun]
  have hargs : IsArguments (blanks ++ '(' :: inside ++ [')']) :=
    ⟨blanks, inside, rfl, hblanks, hinside⟩
  have hheader : header =
      header.take start ++ name ++ (blanks ++ '(' :: inside ++ [')']) ++ rest := by
    conv => lhs; rw [← List.take_append_drop start header, hdrop]
    simp
  have hstart : start = (header.take start).length := by
    have hlt : header.drop start ≠ [] := by simp [hdrop, hname]
    rw [ne_eq, List.drop_eq_nil_iff] at hlt
    rw [List.length_take]
    omega
  obtain ⟨hfirst, hbehind⟩ :=
    getElem?_around_name (header.take start) rest hname (isArguments_ne_nil hargs)
  rw [← hheader, ← hstart] at hfirst hbehind
  refine ⟨header.take start, _, rest, hheader, ⟨⟨run, hspelled, hrun, hchars⟩, ?_, ?_, hargs⟩,
    hstart, by simpa using hstop⟩
  · rw [← hfirst]
    exact h.starts
  · -- the last character of a name is a word character
    have hends := h.ends
    rw [hbehind] at hends
    rw [Text.IsWordEdge, hends, hspelled, List.getLast?_append_of_ne_nil _ hrun,
      List.getLast?_eq_some_getLast hrun, Option.any_some,
      Text.isWord_of_isNameChar (hchars _ (List.getLast_mem hrun))]
    simp

theorem callAt_iff_matchesAt :
    CallAt stem header start stop name ↔ MatchesAt stem header start stop name :=
  ⟨matchesAt_of_callAt, callAt_of_matchesAt⟩

/-! ## The first call -/

/-- Behind a comment that ends its line the search finds the leftmost
declaration. -/
theorem documentedFrom?_eq_some_iff {u s : Text} (hu : u.getLast? = some '/')
    (hbreaks : Header.BreaksLine (u ++ s) u.length) :
    documentedFrom? stem (u ++ s) u.length = some (name, stop) ↔
      ∃ start, Leftmost stem (u ++ s) u.length start stop name := by
  rw [documentedFrom?, List.drop_left]
  cases hfound : documented? stem s with
  | none =>
      refine iff_of_false (by simp) ?_
      rintro ⟨start, hleft⟩
      exact not_matchesAt_of_documented? hu hfound hbreaks _ _ _ hleft.le hleft.matchesAt
  | some found =>
      obtain ⟨d, rest⟩ := found
      rw [documented?, Option.ite_none_right_eq_some] at hfound
      have hleft := leftmost_of_find? hu hfound.2
      rw [Option.map_some, Option.some.injEq, Prod.mk.injEq]
      constructor
      · rintro ⟨rfl, rfl⟩
        exact ⟨_, hleft⟩
      · rintro ⟨start, hother⟩
        have hsame := Nat.le_antisymm (hother.first _ _ _ hleft.le hleft.matchesAt)
          (hleft.first _ _ _ hother.le hother.matchesAt)
        subst hsame
        obtain ⟨hstop, hname⟩ := hleft.only _ _ hother.matchesAt
        exact ⟨hname.symm, hstop.symm⟩

theorem documentedFrom?_eq_none_iff {u s : Text} (hu : u.getLast? = some '/')
    (hbreaks : Header.BreaksLine (u ++ s) u.length) :
    documentedFrom? stem (u ++ s) u.length = none ↔
      ∀ start stop name, u.length ≤ start → ¬ MatchesAt stem (u ++ s) start stop name := by
  constructor
  · intro hnone
    rw [documentedFrom?, List.drop_left, Option.map_eq_none_iff] at hnone
    exact not_matchesAt_of_documented? hu hnone hbreaks
  · intro hnot
    rw [Option.eq_none_iff_forall_ne_some]
    rintro ⟨name, stop⟩ hfound
    obtain ⟨start, hleft⟩ := (documentedFrom?_eq_some_iff hu hbreaks).mp hfound
    exact hnot start stop name hleft.le hleft.matchesAt

/-- A comment ends in a slash. -/
theorem getLast?_take_of_isComment (h : Header.IsComment header start stop) :
    (header.take stop).getLast? = some '/' ∧ (header.take stop).length = stop := by
  obtain ⟨i, _, hclose, rfl⟩ := h.closed
  obtain ⟨a, r, rfl, rfl⟩ := (Text.occursAt_iff (by decide)).mp hclose
  have htake : (a ++ Comment.closer ++ r).take (a.length + 2) = a ++ Comment.closer := by
    rw [← Comment.length_closer, ← List.length_append, List.take_left]
  rw [htake]
  exact ⟨by rw [List.getLast?_append_of_ne_nil _ (by decide)]; rfl, by simp⟩

/-- **The first call.** Behind a comment that ends its line the search finds
the first call that starts there or later, its name and its end, and nothing
exactly when there is no such call. -/
theorem documentedFrom?_first (stem : Text) {header : Text} {start stop : Nat}
    (hcomment : Header.IsComment header start stop) (hbreaks : Header.BreaksLine header stop) :
    (∀ name last, documentedFrom? stem header stop = some (name, last) ↔
      ∃ p, stop ≤ p ∧ CallAt stem header p last name ∧
        ∀ q last' other, stop ≤ q → CallAt stem header q last' other → p ≤ q) ∧
    (documentedFrom? stem header stop = none ↔
      ∀ p last name, stop ≤ p → ¬ CallAt stem header p last name) := by
  obtain ⟨hu, hlen⟩ := getLast?_take_of_isComment hcomment
  have hsplit : header = header.take stop ++ header.drop stop :=
    (List.take_append_drop stop header).symm
  generalize header.take stop = u at hu hlen hsplit
  generalize header.drop stop = s at hsplit
  subst hsplit
  subst hlen
  simp only [callAt_iff_matchesAt]
  refine ⟨fun name last => ?_, documentedFrom?_eq_none_iff hu hbreaks⟩
  rw [documentedFrom?_eq_some_iff hu hbreaks]
  constructor
  · rintro ⟨p, hleft⟩
    exact ⟨p, hleft.le, hleft.matchesAt, hleft.first⟩
  · rintro ⟨p, hle, hmatch, hfirst⟩
    exact ⟨p, hmatch, hle, hfirst, fun _ _ hother => hmatch.unique hother⟩

/-- Calls of names that start with a sign. The first name stands behind no
word, the second one in front of one, and the third call is closed inside a
comment. -/
def signedCalls : Text := "/**/\n+f() x+g é+h (a, /*) */ b)".toList

theorem documentedFrom?_first_signed :
    Header.IsComment signedCalls 0 4 ∧ Header.BreaksLine signedCalls 4 ∧
      ∃ p, 4 ≤ p ∧ CallAt ['+'] signedCalls p 25 "+h".toList ∧
        ∀ q last other, 4 ≤ q → CallAt ['+'] signedCalls q last other → p ≤ q := by
  have hcomment : Header.IsComment signedCalls 0 4 :=
    Header.isComment_iff.mpr
      ⟨[], signedCalls.drop 2, [], signedCalls.drop 4, by decide, by decide, rfl, rfl⟩
  have hbreaks : Header.BreaksLine signedCalls 4 := by
    unfold Header.BreaksLine
    decide
  have hfound : documentedFrom? ['+'] signedCalls 4 = some ("+h".toList, 25) := by decide +kernel
  exact ⟨hcomment, hbreaks, ((documentedFrom?_first ['+'] hcomment hbreaks).1 _ _).mp hfound⟩

end Declaration

end TypedExports
