import TypedExports.Header.Declaration
import TypedExports.Proofs.Text.Run
import TypedExports.Proofs.Text.Search

/-!
# The shape of a declaration

`Shape` says on its own which texts are a call of a function with the given
stem, and between which neighbours: the pattern
`\b(stem[A-Za-z0-9_]+)\b\s*\([^)]*\)`. The search finds the leftmost place
that has this shape (`find?_eq_some_iff`, `find?_eq_none_iff`).

The shape does not look behind its closing parenthesis. That parenthesis
also settles every place further left: a call that starts there is closed by
it at the latest. So what follows a declaration has no say in finding it
(`find?_local`).
-/

namespace TypedExports

/-- Exactly one of two neighbours is a word character. At an end of the text
there is no neighbour, which counts as none. -/
def Text.IsWordEdge (before following : Option Char) : Prop :=
  before.any Text.isWord ≠ following.any Text.isWord

namespace Declaration

/-- A parenthesis, after blanks if any, up to the first one that closes. -/
def IsArguments (call : Text) : Prop :=
  ∃ blanks inside, call = blanks ++ '(' :: inside ++ [')'] ∧
    (∀ c ∈ blanks, Text.isBlank c = true) ∧ ')' ∉ inside

/-- The declaration pattern on `name ++ call`, behind the character `before`
if there is one. -/
structure Shape (stem : Text) (before : Option Char) (name call : Text) : Prop where
  spelled : ∃ run, name = stem ++ run ∧ run ≠ [] ∧ ∀ c ∈ run, Text.isNameChar c = true
  starts : Text.IsWordEdge before name.head?
  ends : Text.IsWordEdge name.getLast? call.head?
  called : IsArguments call

/-! ## Arguments -/

theorem isArguments_ne_nil {call : Text} (h : IsArguments call) : call ≠ [] := by
  obtain ⟨blanks, inside, rfl, _, _⟩ := h
  simp

theorem arguments?_eq_some_iff {s call rest : Text} :
    arguments? s = some (call, rest) ↔ s = call ++ rest ∧ IsArguments call := by
  constructor
  · intro h
    refine ⟨eq_append_of_arguments? h, ?_⟩
    simp only [arguments?, Option.bind_eq_bind, Option.bind_eq_some_iff, Option.pure_def,
      Option.some.injEq, Prod.mk.injEq] at h
    obtain ⟨behind, _, ⟨inside, rest'⟩, hcut, hcall, _⟩ := h
    refine ⟨_, inside, hcall.symm, ?_, (Text.cut?_singleton_eq_some_iff.mp hcut).2⟩
    intro c hc
    exact List.mem_takeWhile_imp hc
  · rintro ⟨rfl, blanks, inside, rfl, hblanks, hinside⟩
    have hopen : Text.isBlank '(' = false := by decide
    have hcut : Text.cut? [')'] (inside ++ ')' :: rest) = some (inside, rest) :=
      Text.cut?_singleton_eq_some_iff.mpr ⟨rfl, hinside⟩
    have hs : blanks ++ '(' :: inside ++ [')'] ++ rest =
        blanks ++ '(' :: (inside ++ ')' :: rest) := by simp
    rw [hs, arguments?, Text.takeWhile_run hblanks hopen, Text.dropWhile_run hblanks hopen]
    simp [Text.after?, hcut]

/-! ## The shape at the start of a text -/

namespace Shape

variable {stem name call : Text} {before : Option Char}

theorem name_ne_nil (h : Shape stem before name call) : name ≠ [] := by
  obtain ⟨run, rfl, hrun, _⟩ := h.spelled
  simp [hrun]

/-- A name ends in a word character, so that none follows it. -/
theorem head_not_word (h : Shape stem before name call) : call.head?.any Text.isWord = false := by
  obtain ⟨run, rfl, hrun, hchars⟩ := h.spelled
  have hlast : (stem ++ run).getLast? = some (run.getLast hrun) := by
    rw [List.getLast?_append_of_ne_nil _ hrun, List.getLast?_eq_some_getLast hrun]
  have hword := Text.isWord_of_isNameChar (hchars _ (List.getLast_mem hrun))
  have hedge := h.ends
  rw [hlast, Text.IsWordEdge, Option.any_some, hword] at hedge
  simpa using hedge.symm

/-- Behind the stem, the closing parenthesis is the only one. -/
theorem exists_eq_append (h : Shape stem before name call) :
    ∃ w, name ++ call = stem ++ w ++ [')'] ∧ ')' ∉ w := by
  obtain ⟨run, rfl, _, hchars⟩ := h.spelled
  obtain ⟨blanks, inside, rfl, hblanks, hinside⟩ := h.called
  refine ⟨run ++ blanks ++ '(' :: inside, by simp, ?_⟩
  simp only [List.mem_append, List.mem_cons, not_or]
  refine ⟨⟨?_, ?_⟩, by decide, hinside⟩
  · intro hmem
    exact absurd (hchars _ hmem) (by decide)
  · intro hmem
    exact absurd (hblanks _ hmem) (by decide)

end Shape

theorem start?_eq_some_iff {stem s name call rest : Text} {before : Char} :
    start? stem before s = some (name, call, rest) ↔
      s = name ++ call ++ rest ∧ Shape stem (some before) name call := by
  constructor
  · intro h
    have hs := eq_append_of_start? h
    refine ⟨hs, ?_⟩
    simp only [start?, Option.bind_eq_bind, Option.bind_eq_some_iff, Option.pure_def,
      Option.ite_none_right_eq_some, Option.some.injEq, Prod.mk.injEq] at h
    obtain ⟨named, _, ⟨hrun, halone⟩, ⟨call', rest'⟩, hcall, rfl, rfl, rfl⟩ := h
    obtain ⟨hbehind, hargs⟩ := arguments?_eq_some_iff.mp hcall
    simp only [standsAlone, isBoundary, Bool.and_eq_true, bne_iff_ne, ne_eq,
      Bool.not_eq_true'] at halone
    have hchars : ∀ c ∈ named.takeWhile Text.isNameChar, Text.isNameChar c = true :=
      fun c hc => List.mem_takeWhile_imp hc
    refine ⟨⟨_, rfl, hrun, hchars⟩, ?_, ?_, hargs⟩
    · rw [hs, List.append_assoc, List.head?_append_of_ne_nil _ (by simp [hrun])] at halone
      exact halone.1
    · rw [hbehind, List.head?_append_of_ne_nil _ (isArguments_ne_nil hargs)] at halone
      rw [Text.IsWordEdge, halone.2, List.getLast?_append_of_ne_nil _ hrun,
        List.getLast?_eq_some_getLast hrun, Option.any_some,
        Text.isWord_of_isNameChar (hchars _ (List.getLast_mem hrun))]
      simp
  · rintro ⟨rfl, h⟩
    have hhead : ((name ++ call) ++ rest).head? = name.head? := by
      rw [List.append_assoc, List.head?_append_of_ne_nil _ h.name_ne_nil]
    have hstart := h.starts
    have hnot := h.head_not_word
    have hcall := isArguments_ne_nil h.called
    obtain ⟨run, rfl, hrun, hchars⟩ := h.spelled
    obtain ⟨d, call', rfl⟩ := List.exists_cons_of_ne_nil hcall
    have hd : Text.isNameChar d = false := by
      by_contra hname
      rw [Bool.not_eq_false] at hname
      rw [List.head?_cons, Option.any_some, Text.isWord_of_isNameChar hname] at hnot
      cases hnot
    have hargs : arguments? (d :: call' ++ rest) = some (d :: call', rest) :=
      arguments?_eq_some_iff.mpr ⟨rfl, h.called⟩
    have halone : standsAlone before (stem ++ run ++ d :: call' ++ rest) (d :: call' ++ rest) := by
      rw [standsAlone, hhead, isBoundary, List.cons_append, List.head?_cons]
      rw [List.head?_cons] at hnot
      simpa [hnot, Text.IsWordEdge] using hstart
    rw [List.append_assoc, List.append_assoc] at halone ⊢
    rw [start?, Text.after?_append, Option.bind_eq_bind, Option.bind_some]
    rw [List.cons_append] at halone hargs ⊢
    simp only [Text.takeWhile_run hchars hd, Text.dropWhile_run hchars hd, hargs, halone]
    simp [hrun]

theorem not_shape_of_start? {stem s name call rest : Text} {before : Char}
    (h : start? stem before s = none) (hs : s = name ++ call ++ rest) :
    ¬ Shape stem (some before) name call := by
  intro hshape
  rw [start?_eq_some_iff.mpr ⟨hs, hshape⟩] at h
  cases h

/-- At one place a text has the shape in one way only. -/
theorem Shape.unique {stem name call rest name' call' rest' : Text} {before : Option Char}
    (h : Shape stem before name call) (h' : Shape stem before name' call')
    (heq : name ++ call ++ rest = name' ++ call' ++ rest') : name = name' ∧ call = call' := by
  -- a slash is as good a neighbour as none
  have hslash : ∀ {n c : Text}, Shape stem before n c →
      Shape stem (some (before.getD '/')) n c := by
    intro n c hshape
    cases before with
    | none => exact { hshape with starts := hshape.starts }
    | some b => exact hshape
  have hstart : start? stem (before.getD '/') (name ++ call ++ rest) = some (name, call, rest) :=
    start?_eq_some_iff.mpr ⟨rfl, hslash h⟩
  rw [start?_eq_some_iff.mpr ⟨heq, hslash h'⟩] at hstart
  simp only [Option.some.injEq, Prod.mk.injEq] at hstart
  exact ⟨hstart.1.symm, hstart.2.1.symm⟩

/-! ## The search -/

/-- The declaration with a longer lead. -/
def leadBy (u : Text) (d : Declaration) : Declaration := { d with lead := u ++ d.lead }

theorem findFrom?_eq (stem seen : Text) (before : Char) (s : Text) :
    findFrom? stem seen before s =
      (find? stem before s).map fun found => (found.1.leadBy seen.reverse, found.2) := by
  unfold find?
  induction s generalizing seen before with
  | nil => rfl
  | cons c s ih =>
      simp only [findFrom?]
      cases start? stem before (c :: s) with
      | some found => simp [leadBy]
      | none =>
          rw [ih (c :: seen), ih [c], Option.map_map]
          simp [Function.comp_def, leadBy]

theorem find?_cons_of_start {stem s name call rest : Text} {before c : Char}
    (h : start? stem before (c :: s) = some (name, call, rest)) :
    find? stem before (c :: s) = some (⟨[], name, call⟩, rest) := by
  rw [find?, findFrom?, h]
  rfl

theorem find?_cons_of_not_start {stem s : Text} {before c : Char}
    (h : start? stem before (c :: s) = none) :
    find? stem before (c :: s) =
      (find? stem c s).map fun found => (found.1.leadBy [c], found.2) := by
  rw [find?, findFrom?, h]
  exact findFrom?_eq stem [c] c s

/-- A declaration that does not start a text stands in what follows the
first character. -/
theorem exists_cons_of_not_start {stem s u name call r : Text} {before c : Char}
    (h : start? stem before (c :: s) = none) (hs : c :: s = u ++ name ++ call ++ r)
    (hshape : Shape stem (some (u.getLastD before)) name call) :
    ∃ v, u = c :: v ∧ s = v ++ name ++ call ++ r ∧ Shape stem (some (v.getLastD c)) name call := by
  cases u with
  | nil => exact absurd hshape (not_shape_of_start? h hs)
  | cons d v =>
      rw [List.cons_append, List.cons_append, List.cons_append, List.cons.injEq] at hs
      obtain ⟨rfl, hs⟩ := hs
      rw [List.getLastD_cons] at hshape
      exact ⟨v, rfl, hs, hshape⟩

theorem find?_eq_none_iff {stem s : Text} {before : Char} :
    find? stem before s = none ↔
      ∀ u name call r, s = u ++ name ++ call ++ r →
        ¬ Shape stem (some (u.getLastD before)) name call := by
  induction s generalizing before with
  | nil =>
      refine iff_of_true rfl ?_
      intro u name call r hs h
      exact h.name_ne_nil (by simp_all)
  | cons c s ih =>
      cases hstart : start? stem before (c :: s) with
      | some found =>
          obtain ⟨name, call, rest⟩ := found
          rw [find?_cons_of_start hstart]
          obtain ⟨hs, hshape⟩ := start?_eq_some_iff.mp hstart
          exact iff_of_false (by simp) fun h => h [] name call rest hs hshape
      | none =>
          rw [find?_cons_of_not_start hstart, Option.map_eq_none_iff, ih]
          constructor
          · intro h u name call r hs hshape
            obtain ⟨v, rfl, hs, hshape⟩ := exists_cons_of_not_start hstart hs hshape
            exact h v name call r hs hshape
          · intro h u name call r hs hshape
            exact h (c :: u) name call r (by rw [hs]; rfl) (by rwa [List.getLastD_cons])

/-- What is found has the shape, and no place further left has it. -/
theorem shape_of_find? {stem s rest : Text} {before : Char} {d : Declaration}
    (h : find? stem before s = some (d, rest)) :
    s = d.text ++ rest ∧ Shape stem (some (d.lead.getLastD before)) d.name d.call ∧
      ∀ u name call r, s = u ++ name ++ call ++ r →
        Shape stem (some (u.getLastD before)) name call → d.lead.length ≤ u.length := by
  induction s generalizing before d with
  | nil => cases h
  | cons c s ih =>
      cases hstart : start? stem before (c :: s) with
      | some found =>
          obtain ⟨name, call, rest'⟩ := found
          rw [find?_cons_of_start hstart] at h
          cases h
          obtain ⟨hs, hshape⟩ := start?_eq_some_iff.mp hstart
          exact ⟨hs, hshape, fun _ _ _ _ _ _ => Nat.zero_le _⟩
      | none =>
          rw [find?_cons_of_not_start hstart] at h
          obtain ⟨⟨d', rest'⟩, hfind, heq⟩ := Option.map_eq_some_iff.mp h
          cases heq
          obtain ⟨hs, hshape, hfirst⟩ := ih hfind
          refine ⟨by rw [hs]; rfl, ?_, ?_⟩
          · show Shape stem (some ((c :: d'.lead).getLastD before)) d'.name d'.call
            rwa [List.getLastD_cons]
          · intro u name call r hu hushape
            obtain ⟨v, rfl, hv, hvshape⟩ := exists_cons_of_not_start hstart hu hushape
            exact Nat.succ_le_succ (hfirst v name call r hv hvshape)

/-- **Leftmost match.** A declaration is found exactly where the text first
has the shape of one. -/
theorem find?_eq_some_iff {stem s rest : Text} {before : Char} {d : Declaration} :
    find? stem before s = some (d, rest) ↔
      s = d.text ++ rest ∧ Shape stem (some (d.lead.getLastD before)) d.name d.call ∧
        ∀ u name call r, s = u ++ name ++ call ++ r →
          Shape stem (some (u.getLastD before)) name call → d.lead.length ≤ u.length := by
  refine ⟨shape_of_find?, ?_⟩
  rintro ⟨hs, hshape, hfirst⟩
  cases hfind : find? stem before s with
  | none => exact absurd hshape (find?_eq_none_iff.mp hfind _ _ _ _ hs)
  | some found =>
      obtain ⟨d', rest'⟩ := found
      obtain ⟨hs', hshape', hfirst'⟩ := shape_of_find? hfind
      have hlen := Nat.le_antisymm (hfirst' _ _ _ _ hs hshape) (hfirst _ _ _ _ hs' hshape')
      have hall : d'.lead ++ (d'.name ++ d'.call ++ rest') =
          d.lead ++ (d.name ++ d.call ++ rest) := by
        simpa [text] using hs'.symm.trans hs
      obtain ⟨hlead, hbehind⟩ := List.append_inj hall hlen
      rw [hlead] at hshape'
      obtain ⟨hname, hcall⟩ := hshape'.unique hshape hbehind
      rw [hname, hcall] at hbehind
      rw [List.append_cancel_left hbehind]
      obtain ⟨lead, name, call⟩ := d
      obtain ⟨lead', name', call'⟩ := d'
      simp_all

/-- A text in which a declaration is found further on holds a first one. -/
theorem find?_isSome_append {stem u s : Text} {before : Char}
    (h : (find? stem (u.getLastD before) s).isSome = true) :
    (find? stem before (u ++ s)).isSome = true := by
  induction u generalizing before with
  | nil => exact h
  | cons c u ih =>
      rw [List.getLastD_cons] at h
      rw [List.cons_append]
      cases hstart : start? stem before (c :: (u ++ s)) with
      | some found =>
          obtain ⟨name, call, rest⟩ := found
          rw [find?_cons_of_start hstart]
          rfl
      | none =>
          rw [find?_cons_of_not_start hstart, Option.isSome_map]
          exact ih h

/-! ## Locality -/

/-- A call that starts no further right than a declaration is closed by that
declaration's parenthesis at the latest. -/
theorem Shape.append_prefix {stem name call name' call' u r t : Text} {before before' : Option Char}
    (h : Shape stem before name call) (h' : Shape stem before' name' call')
    (heq : u ++ (name ++ call) ++ t = name' ++ call' ++ r) :
    name' ++ call' <+: u ++ (name ++ call) := by
  -- both are the stem, some text, and the closing parenthesis, which is the
  -- first one behind the stem of the other call
  obtain ⟨w, hw, _⟩ := h.exists_eq_append
  obtain ⟨w', hw', hclosed⟩ := h'.exists_eq_append
  rw [hw, hw'] at heq
  have hlen : stem.length ≤ (u ++ stem ++ w).length := by
    simp only [List.length_append]
    omega
  have hstem : stem <+: u ++ stem ++ w :=
    List.prefix_of_prefix_length_le ⟨w' ++ [')'] ++ r, by simpa using heq.symm⟩
      (List.prefix_append _ (')' :: t)) hlen
  obtain ⟨v, hv⟩ := hstem
  have hbehind : v ++ [')'] ++ t = w' ++ ')' :: r := by
    apply @List.append_cancel_left _ stem
    rw [← List.append_assoc, ← List.append_assoc, hv]
    simpa using heq
  have hle : w'.length ≤ v.length :=
    Text.length_le_of_cut? (Text.cut?_singleton_eq_some_iff.mpr ⟨hbehind, hclosed⟩) rfl
  have hpre : w' ++ [')'] <+: v ++ [')'] :=
    List.prefix_of_prefix_length_le ⟨r, by simpa using hbehind.symm⟩
      (List.prefix_append _ t) (by simpa using hle)
  rw [hw, hw']
  have := (List.prefix_append_right_inj stem).mpr hpre
  rw [← List.append_assoc, ← List.append_assoc, hv] at this
  simpa using this

/-- **Locality.** Behind the declaration that was found the text may
change. -/
theorem find?_local {stem rest : Text} {before : Char} {d : Declaration}
    (h : find? stem before (d.text ++ rest) = some (d, rest)) (t : Text) :
    find? stem before (d.text ++ t) = some (d, t) := by
  obtain ⟨_, hshape, hfirst⟩ := find?_eq_some_iff.mp h
  refine find?_eq_some_iff.mpr ⟨rfl, hshape, ?_⟩
  intro u name call r hs hushape
  by_contra hlt
  have hlead : u <+: d.lead :=
    List.prefix_of_prefix_length_le ⟨name ++ call ++ r, by simpa using hs.symm⟩
      (by simp [text, List.append_assoc]) (by omega)
  obtain ⟨v, hv⟩ := hlead
  have hs' : v ++ (d.name ++ d.call) ++ t = name ++ call ++ r := by
    apply @List.append_cancel_left _ u
    rw [← List.append_assoc, ← List.append_assoc, hv]
    simpa [text] using hs
  -- the call further left is complete before the text that changed
  obtain ⟨z, hz⟩ := hshape.append_prefix hushape hs'
  refine hlt (hfirst u name call (z ++ rest) ?_ hushape)
  rw [text, ← hv, List.append_assoc _ d.name, List.append_assoc u, ← hz]
  simp

/-! ## What a comment documents -/

theorem call_has_closer {stem name call : Text} {before : Option Char}
    (h : Shape stem before name call) : ')' ∈ call := by
  obtain ⟨blanks, inside, rfl, _, _⟩ := h.called
  simp

theorem documented?_local {stem rest : Text} {d : Declaration}
    (h : documented? stem (d.text ++ rest) = some (d, rest)) (t : Text) :
    documented? stem (d.text ++ t) = some (d, t) := by
  unfold documented? at h ⊢
  split at h
  · next hgap =>
      have hmem : ')' ∈ d.text := by
        have := call_has_closer (find?_eq_some_iff.mp h).2.1
        simp [text, this]
      rw [Text.takeWhile_append_of_mem hmem (by decide)] at hgap ⊢
      rw [if_pos hgap]
      exact find?_local h t
  · cases h

/-- A comment that documents nothing although a declaration follows has no
line feed in the gap behind it. -/
theorem not_mem_gap_of_documented? {stem s : Text} (h : documented? stem s = none)
    (hfind : (find? stem '/' s).isSome = true) :
    Text.lineFeed ∉ s.takeWhile Text.isBlank := by
  intro hgap
  rw [documented?, if_pos hgap] at h
  rw [h] at hfind
  cases hfind

theorem documented?_eq_none_of_gap {stem s : Text}
    (h : Text.lineFeed ∉ s.takeWhile Text.isBlank) : documented? stem s = none := by
  rw [documented?, if_neg h]

end Declaration

end TypedExports
