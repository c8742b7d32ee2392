import TypedExports.ExportedFunction
import TypedExports.Header.Scan
import TypedExports.Proofs.Header.Block
import TypedExports.Proofs.Header.Declaration

/-!
# Pairings by offset

The vocabulary in which pairings are described without a scan: complete
comments and declarations by their offsets, and the walk that visits one
complete comment after another. The scan enters with `pairings`, the offsets
at which it pairs; the main result, `extract_pairings`, says that these are
ordered and disjoint, that each is what a reader of the header would pair,
and that no comment was passed by that could have been paired.
-/

namespace TypedExports

/-- Where a documented function stands in a header, by offsets. -/
structure Pairing where
  commentStart : Nat
  commentEnd : Nat
  declarationStart : Nat
  declarationEnd : Nat
  deriving DecidableEq, Repr

/-- A declaration of the given name between two offsets. -/
def Declaration.MatchesAt (stem header : Text) (start stop : Nat) (name : Text) : Prop :=
  ∃ before call rest, header = before ++ name ++ call ++ rest ∧
    Declaration.Shape stem before.getLast? name call ∧
    start = before.length ∧ stop = start + (name ++ call).length

/-- The leftmost declaration that starts at or after an offset. -/
structure Declaration.Leftmost (stem header : Text) (offset start stop : Nat) (name : Text) :
    Prop where
  matchesAt : MatchesAt stem header start stop name
  le : offset ≤ start
  first : ∀ i j other, offset ≤ i → MatchesAt stem header i j other → start ≤ i
  only : ∀ j other, MatchesAt stem header start j other → j = stop ∧ other = name

namespace Header

/-! ## Complete comments -/

/-- A complete comment: an opener, and the first closer that starts at least
two characters after the opener's start. -/
structure IsComment (header : Text) (start stop : Nat) : Prop where
  opened : Text.OccursAt Comment.opener header start
  closed : ∃ i, start + 2 ≤ i ∧ Text.OccursAt Comment.closer header i ∧ stop = i + 2
  first : ∀ i, start + 2 ≤ i → Text.OccursAt Comment.closer header i → stop ≤ i + 2

/-- The complete comment that starts first at or after an offset. -/
structure IsNext (header : Text) (offset start stop : Nat) : Prop where
  comment : IsComment header start stop
  le : offset ≤ start
  first : ∀ i j, offset ≤ i → IsComment header i j → start ≤ i

/-- The complete comments met on a walk from an offset. Each search resumes
at the end of the comment before. -/
inductive Walk (header : Text) : Nat → Nat → Nat → Prop
  | here {offset start stop : Nat} (hnext : IsNext header offset start stop) :
      Walk header offset start stop
  | later {offset i j start stop : Nat} (hnext : IsNext header offset i j)
      (hwalk : Walk header j start stop) : Walk header offset start stop

/-- The blanks from an offset on hold a line feed. -/
def BreaksLine (header : Text) (offset : Nat) : Prop :=
  Text.lineFeed ∈ (header.drop offset).takeWhile Text.isBlank

/-! ## Pairings -/

/-- The function `f` is documented at `pairing`, as the first one from
`cursor` on. -/
structure Documents (stem header : Text) (cursor : Nat) (pairing : Pairing)
    (f : ExportedFunction) : Prop where
  cursor_le : cursor ≤ pairing.commentStart
  comment_lt : pairing.commentStart < pairing.commentEnd
  gap_le : pairing.commentEnd ≤ pairing.declarationStart
  declaration_lt : pairing.declarationStart < pairing.declarationEnd
  end_le : pairing.declarationEnd ≤ header.length
  comment : IsComment header pairing.commentStart pairing.commentEnd
  breaksLine : BreaksLine header pairing.commentEnd
  declared : ∃ name,
    Declaration.Leftmost stem header pairing.commentEnd pairing.declarationStart
      pairing.declarationEnd name ∧
    f = (Comment.parse (Text.slice header pairing.commentStart pairing.commentEnd)).document name
  reached : Walk header cursor pairing.commentStart pairing.commentEnd
  skipped : ∀ i j, Walk header cursor i j → i < pairing.commentStart → ¬ BreaksLine header j

/-- From `cursor` on no comment documents anything. -/
def Exhausted (stem header : Text) (cursor : Nat) : Prop :=
  ∀ i j, Walk header cursor i j → BreaksLine header j →
    ∀ start stop name, j ≤ start → ¬ Declaration.MatchesAt stem header start stop name

/-- A comment that ends its line stands before the offset and is not used up
by a pairing that is over by then. -/
def HasComment (header : Text) (pairings : List Pairing) (offset : Nat) : Prop :=
  ∃ i j, IsComment header i j ∧ j ≤ offset ∧ BreaksLine header j ∧
    ∀ pairing ∈ pairings, pairing.declarationEnd ≤ offset → pairing.declarationEnd ≤ i

/-- Where reading goes on behind the given pairings. -/
def cursorAfter (cursor : Nat) (pairings : List Pairing) : Nat :=
  (pairings.map Pairing.declarationEnd).getLastD cursor

/-! ## The pairings of a scan -/

end Header

/-- Where the step pairs, if it starts at the given offset. -/
def Step.pairing? (offset : Nat) : Step → Option Pairing
  | .passed _ => none
  | .paired block d =>
    some {
      commentStart := offset + block.lead.length
      commentEnd := offset + block.text.length
      declarationStart := offset + (block.text ++ d.lead).length
      declarationEnd := offset + (block.text ++ d.text).length }

namespace Header

/-- Where steps that start at the given offset pair. -/
def pairingsFrom (offset : Nat) : List Step → List Pairing
  | [] => []
  | step :: steps => (step.pairing? offset).toList ++ pairingsFrom (offset + step.text.length) steps

/-- Where the documented functions of a header stand. -/
def pairings (stem header : Text) : List Pairing := pairingsFrom 0 (scan stem header).steps

/-! ## Comments of a text behind others -/

theorem isComment_iff {header : Text} {start stop : Nat} :
    IsComment header start stop ↔
      ∃ a inside body rest, header = a ++ Comment.opener ++ inside ∧
        Text.cut? Comment.closer inside = some (body, rest) ∧
        start = a.length ∧ stop = start + 2 + body.length + 2 := by
  constructor
  · rintro ⟨hopen, ⟨i, hle, hclose, rfl⟩, hfirst⟩
    obtain ⟨a, inside, rfl, rfl⟩ := (Text.occursAt_iff (by decide)).mp hopen
    obtain ⟨x, rest, heq, rfl⟩ := (Text.occursAt_iff (by decide)).mp hclose
    rw [List.append_assoc x] at heq
    obtain ⟨body, rfl, hinside⟩ := Text.exists_append_of_le heq (by simpa using hle)
    refine ⟨a, inside, body, rest, rfl, ?_, rfl, by simp; omega⟩
    refine Text.cut?_eq_some_iff.mpr ⟨by simpa using hinside, ?_⟩
    intro x y hxy
    have hat : Text.OccursAt Comment.closer (a ++ Comment.opener ++ inside)
        (a ++ Comment.opener ++ x).length :=
      (Text.occursAt_iff (by decide)).mpr ⟨a ++ Comment.opener ++ x, y, by simp [hxy], rfl⟩
    have hstop := hfirst _ (by simp) hat
    simp only [List.length_append] at hstop
    omega
  · rintro ⟨a, inside, body, rest, rfl, hcut, rfl, rfl⟩
    obtain ⟨hinside, hfirst⟩ := Text.cut?_eq_some_iff.mp hcut
    refine ⟨(Text.occursAt_iff (by decide)).mpr ⟨a, inside, rfl, rfl⟩, ?_, ?_⟩
    · refine ⟨(a ++ Comment.opener ++ body).length, by simp, ?_, by simp; omega⟩
      exact (Text.occursAt_iff (by decide)).mpr
        ⟨a ++ Comment.opener ++ body, rest, by simp [hinside], rfl⟩
    · intro i hle hclose
      obtain ⟨x, y, heq, rfl⟩ := (Text.occursAt_iff (by decide)).mp hclose
      rw [List.append_assoc x] at heq
      obtain ⟨v, rfl, hv⟩ := Text.exists_append_of_le heq (by simpa using hle)
      have := hfirst v y (by simpa using hv)
      simp only [List.length_append, Comment.length_opener]
      omega

/-- A complete comment cut out of its header. -/
theorem IsComment.exists_slice_eq {header : Text} {start stop : Nat}
    (h : IsComment header start stop) :
    ∃ body, Text.slice header start stop = Comment.opener ++ body ++ Comment.closer ∧
      Comment.opener ++ body ++ Comment.closer <:+: header := by
  obtain ⟨a, inside, body, rest, rfl, hcut, rfl, rfl⟩ := isComment_iff.mp h
  have hheader : a ++ Comment.opener ++ inside =
      a ++ (Comment.opener ++ body ++ Comment.closer) ++ rest := by
    rw [Text.eq_append_of_cut? hcut]
    simp only [List.append_assoc]
  have hlen : a.length + 2 + body.length + 2 =
      a.length + (Comment.opener ++ body ++ Comment.closer).length := by
    simp only [List.length_append, Comment.length_opener, Comment.length_closer]
    omega
  refine ⟨body, ?_, a, rest, hheader.symm⟩
  rw [hheader, hlen, Text.slice_append]

theorem IsComment.stop_unique {header : Text} {start stop stop' : Nat}
    (h : IsComment header start stop) (h' : IsComment header start stop') : stop = stop' := by
  obtain ⟨i, hi, hclose, rfl⟩ := h.closed
  obtain ⟨j, hj, hclose', rfl⟩ := h'.closed
  exact Nat.le_antisymm (h.first j hj hclose') (h'.first i hi hclose)

/-- The comment that is cut off is the next one. -/
theorem isNext_of_cut? {u s behind : Text} {block : Block}
    (h : Block.cut? s = some (block, behind)) :
    IsNext (u ++ s) u.length (u.length + block.lead.length) (u.length + block.text.length) := by
  obtain ⟨hopen, hbody⟩ := Block.cut?_eq_some_iff.mp h
  refine ⟨?_, Nat.le_add_right _ _, ?_⟩
  · refine isComment_iff.mpr ⟨u ++ block.lead, block.body ++ Comment.closer ++ behind, block.body,
      behind, ?_, Text.cut?_pair (by decide) hbody behind, by simp, ?_⟩
    · rw [Block.eq_append_of_cut? h]
      simp [Block.text, Block.comment]
    · simp only [Block.text, Block.comment, List.length_append, Comment.length_opener,
        Comment.length_closer]
      omega
  · intro i j hle hcomment
    obtain ⟨a, inside, _, _, heq, _, rfl, _⟩ := isComment_iff.mp hcomment
    rw [List.append_assoc a] at heq
    obtain ⟨v, rfl, hs⟩ := Text.exists_append_of_le heq hle
    have := Text.length_le_of_cut? hopen (x := v) (y := inside) (by simpa using hs)
    rw [List.length_append]
    omega

theorem not_isComment_of_cut? {u s : Text} (h : Block.cut? s = none) {start stop : Nat}
    (hle : u.length ≤ start) : ¬ IsComment (u ++ s) start stop := by
  intro hcomment
  obtain ⟨a, inside, body, rest, heq, hcut, rfl, _⟩ := isComment_iff.mp hcomment
  rw [List.append_assoc a] at heq
  obtain ⟨v, rfl, hs⟩ := Text.exists_append_of_le heq hle
  cases hopen : Text.cut? Comment.opener s with
  | none => exact Text.cut?_eq_none_iff.mp hopen ⟨v, inside, by simpa using hs.symm⟩
  | some found =>
      obtain ⟨lead, inside'⟩ := found
      refine Block.cut?_eq_none_iff.mp h lead inside' hopen ?_
      -- the first opener stands further left, so more text follows it
      have hlead := Text.length_le_of_cut? hopen (x := v) (y := inside) (by simpa using hs)
      have hs' := Text.eq_append_of_cut? hopen
      have hsuffix : inside <:+ inside' := by
        have hv : inside <:+ s := ⟨v ++ Comment.opener, by simp [hs]⟩
        refine List.suffix_of_suffix_length_le hv ⟨lead ++ Comment.opener, hs'.symm⟩ ?_
        have hlen := congrArg List.length (hs.symm.trans hs')
        simp only [List.length_append] at hlen
        omega
      have hinside := Text.eq_append_of_cut? hcut
      exact List.IsInfix.trans ⟨body, rest, hinside.symm⟩ hsuffix.isInfix

/-! ## Walks -/

theorem Walk.le {header : Text} {offset start stop : Nat} (h : Walk header offset start stop) :
    offset ≤ start ∧ IsComment header start stop := by
  induction h with
  | here hnext => exact ⟨hnext.le, hnext.comment⟩
  | later hnext hwalk ih =>
      obtain ⟨k, hk, _, rfl⟩ := hnext.comment.closed
      have := hnext.le
      exact ⟨by omega, ih.2⟩

/-- A walk visits the next comment first. -/
theorem walk_iff {header : Text} {offset i j start stop : Nat} (h : IsNext header offset i j) :
    Walk header offset start stop ↔ (start = i ∧ stop = j) ∨ Walk header j start stop := by
  have hsame : ∀ {i' j'}, IsNext header offset i' j' → i' = i ∧ j' = j := by
    intro i' j' h'
    have hi : i' = i :=
      Nat.le_antisymm (h'.first i j h.le h.comment) (h.first i' j' h'.le h'.comment)
    subst hi
    exact ⟨rfl, h'.comment.stop_unique h.comment⟩
  constructor
  · rintro (hnext | ⟨hnext, hwalk⟩)
    · exact Or.inl (hsame hnext)
    · obtain ⟨rfl, rfl⟩ := hsame hnext
      exact Or.inr hwalk
  · rintro (⟨rfl, rfl⟩ | hwalk)
    · exact .here h
    · exact .later h hwalk

end Header

/-! ## Declarations of a text behind others -/

namespace Declaration

variable {stem u s name : Text} {c : Char} {start stop : Nat}

theorem matchesAt_append_iff (hu : u.getLast? = some c) (hle : u.length ≤ start) :
    MatchesAt stem (u ++ s) start stop name ↔
      ∃ v call r, s = v ++ name ++ call ++ r ∧ Shape stem (some (v.getLastD c)) name call ∧
        start = u.length + v.length ∧ stop = start + (name ++ call).length := by
  have hlast : ∀ v, (u ++ v).getLast? = some (v.getLastD c) := by
    intro v
    rw [List.getLast?_append, hu, List.getLastD_eq_getLast?]
    cases v.getLast? <;> rfl
  constructor
  · rintro ⟨before, call, rest, heq, hshape, rfl, hstop⟩
    rw [List.append_assoc before, List.append_assoc before] at heq
    obtain ⟨v, rfl, hs⟩ := Text.exists_append_of_le heq hle
    rw [hlast] at hshape
    exact ⟨v, call, rest, by simpa using hs, hshape, by simp, hstop⟩
  · rintro ⟨v, call, r, rfl, hshape, rfl, hstop⟩
    exact ⟨u ++ v, call, r, by simp, by rwa [hlast], by simp, hstop⟩

theorem MatchesAt.unique {header other : Text} {j : Nat}
    (h : MatchesAt stem header start stop name) (h' : MatchesAt stem header start j other) :
    j = stop ∧ other = name := by
  obtain ⟨before, call, rest, rfl, hshape, rfl, rfl⟩ := h
  obtain ⟨before', call', rest', heq, hshape', hlen, rfl⟩ := h'
  simp only [List.append_assoc] at heq
  obtain ⟨rfl, heq⟩ := List.append_inj heq hlen
  obtain ⟨rfl, rfl⟩ := hshape.unique hshape' (by simpa using heq)
  exact ⟨rfl, rfl⟩

theorem leftmost_of_find? {rest : Text} {d : Declaration} (hu : u.getLast? = some c)
    (h : find? stem c s = some (d, rest)) :
    Leftmost stem (u ++ s) u.length (u.length + d.lead.length) (u.length + d.text.length)
      d.name := by
  obtain ⟨hs, hshape, hfirst⟩ := find?_eq_some_iff.mp h
  have hmatch : MatchesAt stem (u ++ s) (u.length + d.lead.length) (u.length + d.text.length)
      d.name := by
    refine (matchesAt_append_iff hu (Nat.le_add_right _ _)).mpr
      ⟨d.lead, d.call, rest, hs, hshape, rfl, ?_⟩
    simp only [text, List.length_append]
    omega
  refine ⟨hmatch, Nat.le_add_right _ _, ?_, fun j other h' => hmatch.unique h'⟩
  intro i j other hle hother
  obtain ⟨v, call, r, hv, hvshape, rfl, _⟩ := (matchesAt_append_iff hu hle).mp hother
  exact Nat.add_le_add_left (hfirst v other call r hv hvshape) _

theorem not_matchesAt_of_documented? (hu : u.getLast? = some '/') (h : documented? stem s = none)
    (hgap : Header.BreaksLine (u ++ s) u.length) :
    ∀ start stop name, u.length ≤ start → ¬ MatchesAt stem (u ++ s) start stop name := by
  intro start stop name hle hmatch
  rw [Header.BreaksLine, List.drop_left] at hgap
  rw [documented?, if_pos hgap] at h
  obtain ⟨v, call, r, hv, hshape, _, _⟩ := (matchesAt_append_iff hu hle).mp hmatch
  exact find?_eq_none_iff.mp h v name call r hv hshape

end Declaration

/-! ## What a scan reads -/

namespace Header

/-- The functions documented from an offset on, each at its pairing. -/
inductive Reads (stem header : Text) : Nat → List Pairing → List ExportedFunction → Prop
  | done {cursor : Nat} (hdone : Exhausted stem header cursor) : Reads stem header cursor [] []
  | pair {cursor : Nat} {pairing : Pairing} {f : ExportedFunction} {pairings : List Pairing}
      {fs : List ExportedFunction} (hpair : Documents stem header cursor pairing f)
      (hreads : Reads stem header pairing.declarationEnd pairings fs) :
      Reads stem header cursor (pairing :: pairings) (f :: fs)

/-- A comment that documents nothing may be read before. -/
theorem Reads.pass {stem header : Text} {cursor i j : Nat} {pairings : List Pairing}
    {fs : List ExportedFunction} (hnext : IsNext header cursor i j)
    (hnone : BreaksLine header j → ∀ start stop name, j ≤ start →
      ¬ Declaration.MatchesAt stem header start stop name)
    (h : Reads stem header j pairings fs) : Reads stem header cursor pairings fs := by
  have hij : i + 2 ≤ j := by
    obtain ⟨k, hk, _, rfl⟩ := hnext.comment.closed
    omega
  have hle := hnext.le
  cases h with
  | done hdone =>
      refine .done ?_
      intro i' j' hwalk hbreaks start stop name hstart
      rcases (walk_iff hnext).mp hwalk with ⟨rfl, rfl⟩ | hwalk
      · exact hnone hbreaks start stop name hstart
      · exact hdone i' j' hwalk hbreaks start stop name hstart
  | pair hpair hreads =>
      -- the walk to the pairing starts with the comment that was passed by;
      -- the pairing's own declaration shows that its gap held no line feed
      refine .pair { hpair with
        cursor_le := by have := hpair.cursor_le; omega
        reached := .later hnext hpair.reached
        skipped := ?_ } hreads
      intro i' j' hwalk hlt
      rcases (walk_iff hnext).mp hwalk with ⟨rfl, rfl⟩ | hwalk
      · intro hbreaks
        obtain ⟨name, hleft, _⟩ := hpair.declared
        refine hnone hbreaks _ _ name ?_ hleft.matchesAt
        have := hpair.cursor_le
        have := hpair.comment_lt
        have := hpair.gap_le
        omega
      · exact hpair.skipped i' j' hwalk hlt

/-- The pairing of a comment with the declaration that it documents. -/
theorem documents_of_cut? {stem u s behind rest : Text} {block : Block} {d : Declaration}
    (hcut : Block.cut? s = some (block, behind))
    (hfound : Declaration.documented? stem behind = some (d, rest)) :
    Documents stem (u ++ s) u.length
      { commentStart := u.length + block.lead.length
        commentEnd := u.length + block.text.length
        declarationStart := u.length + (block.text ++ d.lead).length
        declarationEnd := u.length + (block.text ++ d.text).length }
      ((Comment.parse block.comment).document d.name) := by
  have hnext : IsNext (u ++ s) u.length _ _ := isNext_of_cut? hcut
  have hs := Block.eq_append_of_cut? hcut
  have hbehind := Declaration.eq_append_of_documented? hfound
  rw [Declaration.documented?, Option.ite_none_right_eq_some] at hfound
  obtain ⟨hgap, hfind⟩ := hfound
  have hleft := Declaration.leftmost_of_find? (block.getLast?_append_text u) hfind
  rw [List.append_assoc, ← hs] at hleft
  have hshape := (Declaration.find?_eq_some_iff.mp hfind).2.1
  have hname := List.length_pos_iff.mpr hshape.name_ne_nil
  have htext : block.text.length = block.lead.length + block.comment.length := by simp [Block.text]
  refine ⟨hnext.le, ?_, ?_, ?_, ?_, hnext.comment, ?_, ⟨d.name, ?_, ?_⟩, .here hnext, ?_⟩
  · dsimp only
    have hopener : 2 ≤ block.comment.length := by simp [Block.comment]
    omega
  · simp
  · simp [Declaration.text]
    omega
  · rw [hs, hbehind]
    simp
  · show Text.lineFeed ∈ ((u ++ s).drop (u.length + block.text.length)).takeWhile Text.isBlank
    rwa [hs, ← List.append_assoc, ← List.length_append, List.drop_left]
  · simpa [Nat.add_assoc] using hleft
  · have hslice := Text.slice_append (u ++ block.lead) block.comment behind
    rw [List.length_append, Nat.add_assoc, ← htext] at hslice
    rw [hs, Block.text, ← List.append_assoc, ← List.append_assoc, ← Block.text, hslice]
  · intro i j hwalk hlt
    exact absurd hlt (Nat.not_lt.mpr (hnext.first i j hwalk.le.1 hwalk.le.2))

theorem reads_scan (stem u s : Text) :
    Reads stem (u ++ s) u.length (pairingsFrom u.length (scan stem s).steps)
      (scan stem s).exports := by
  fun_induction scan stem s generalizing u with
  | case1 s hcut =>
      refine .done ?_
      intro i j hwalk
      exact absurd hwalk.le.2 (not_isComment_of_cut? hcut hwalk.le.1)
  | case2 s block behind hcut hnone ih =>
      have hs := Block.eq_append_of_cut? hcut
      have hreads := ih (u ++ block.text)
      have hnot := Declaration.not_matchesAt_of_documented? (block.getLast?_append_text u) hnone
      rw [List.append_assoc, ← hs, List.length_append] at hreads hnot
      exact Reads.pass (isNext_of_cut? hcut) hnot hreads
  | case3 s block behind hcut d rest hfound ih =>
      have hs := Block.eq_append_of_cut? hcut
      have hbehind := Declaration.eq_append_of_documented? hfound
      have hreads := ih (u ++ (block.text ++ d.text))
      rw [List.append_assoc, List.append_assoc block.text, ← hbehind, ← hs,
        List.length_append] at hreads
      exact .pair (documents_of_cut? hcut hfound) hreads

theorem Reads.documents {stem header : Text} {cursor : Nat} {pairings : List Pairing}
    {fs : List ExportedFunction} (h : Reads stem header cursor pairings fs) :
    pairings.length = fs.length ∧
      (∀ k pairing f, pairings[k]? = some pairing → fs[k]? = some f →
        Documents stem header (cursorAfter cursor (pairings.take k)) pairing f) ∧
      Exhausted stem header (cursorAfter cursor pairings) := by
  induction h with
  | done hdone => exact ⟨rfl, by simp, hdone⟩
  | @pair cursor pairing f pairings fs hpair hreads ih =>
      obtain ⟨hlen, hdocs, hdone⟩ := ih
      refine ⟨by simp [hlen], ?_, ?_⟩
      · intro k pairing' f' hk hf
        cases k with
        | zero =>
            cases hk
            cases hf
            exact hpair
        | succ k =>
            have := hdocs k pairing' f' hk hf
            rwa [List.take_succ_cons, cursorAfter, List.map_cons, List.getLastD_cons]
      · rwa [cursorAfter, List.map_cons, List.getLastD_cons]

theorem Documents.cursor_lt {stem header : Text} {cursor : Nat} {pairing : Pairing}
    {f : ExportedFunction} (h : Documents stem header cursor pairing f) :
    cursor < pairing.declarationEnd := by
  have hcomment := Nat.lt_of_le_of_lt h.cursor_le h.comment_lt
  exact Nat.lt_trans (Nat.lt_of_lt_of_le hcomment h.gap_le) h.declaration_lt

theorem Reads.exists_documents {stem header : Text} {cursor : Nat} {pairings : List Pairing}
    {fs : List ExportedFunction} (h : Reads stem header cursor pairings fs) {pairing : Pairing}
    (hmem : pairing ∈ pairings) :
    ∃ cursor' f, cursor ≤ cursor' ∧ Documents stem header cursor' pairing f := by
  induction h with
  | done hdone => cases hmem
  | @pair cursor first f pairings fs hpair hreads ih =>
      rcases List.mem_cons.mp hmem with rfl | hmem
      · exact ⟨cursor, f, Nat.le_refl _, hpair⟩
      · obtain ⟨cursor', f', hle, hdoc⟩ := ih hmem
        exact ⟨cursor', f', Nat.le_trans (Nat.le_of_lt hpair.cursor_lt) hle, hdoc⟩

theorem Reads.exists_pairing {stem header : Text} {cursor : Nat} {pairings : List Pairing}
    {fs : List ExportedFunction} (h : Reads stem header cursor pairings fs) {f : ExportedFunction}
    (hmem : f ∈ fs) : ∃ pairing ∈ pairings, ∃ cursor', Documents stem header cursor' pairing f := by
  induction h with
  | done hdone => cases hmem
  | @pair cursor first g pairings fs hpair hreads ih =>
      rcases List.mem_cons.mp hmem with rfl | hmem
      · exact ⟨first, List.mem_cons_self, cursor, hpair⟩
      · obtain ⟨pairing, hpairing, hdoc⟩ := ih hmem
        exact ⟨pairing, List.mem_cons_of_mem _ hpairing, hdoc⟩

/-- An extracted function comes from one of the pairings. -/
theorem exists_pairing_of_mem_extract {stem header : Text} {f : ExportedFunction}
    (h : f ∈ extract stem header) :
    ∃ pairing ∈ pairings stem header, ∃ cursor, Documents stem header cursor pairing f :=
  (reads_scan stem [] header).exists_pairing h

/-- A pairing that is over where the declaration of another one starts is over
where the comment of that one starts. -/
theorem Reads.end_le {stem header : Text} {cursor : Nat} {pairings : List Pairing}
    {fs : List ExportedFunction} (h : Reads stem header cursor pairings fs)
    {pairing other : Pairing} (hmem : pairing ∈ pairings) (hother : other ∈ pairings)
    (hle : other.declarationEnd ≤ pairing.declarationStart) :
    other.declarationEnd ≤ pairing.commentStart := by
  induction h with
  | done hdone => cases hmem
  | pair hpair hreads ih =>
      have hlt := hpair.declaration_lt
      rcases List.mem_cons.mp hmem with rfl | hlater
      · rcases List.mem_cons.mp hother with rfl | hother
        · omega
        · obtain ⟨_, _, hcursor, hdoc⟩ := hreads.exists_documents hother
          have hend := hdoc.cursor_lt
          omega
      · rcases List.mem_cons.mp hother with rfl | hother
        · obtain ⟨_, _, hcursor, hdoc⟩ := hreads.exists_documents hlater
          exact Nat.le_trans hcursor hdoc.cursor_le
        · exact ih hlater hother

/-- **Pairing.** The functions of a header stand at its pairings, in order.
Each pairing starts behind the one before, takes the first comment that ends
its line, and the leftmost declaration behind it. Behind the last one no
comment has both. So a declaration is left out when no comment is there for
it. -/
theorem extract_pairings (stem header : Text) :
    (pairings stem header).length = (extract stem header).length ∧
    (∀ k pairing f, (pairings stem header)[k]? = some pairing →
      (extract stem header)[k]? = some f →
      Documents stem header (cursorAfter 0 ((pairings stem header).take k)) pairing f) ∧
    Exhausted stem header (cursorAfter 0 (pairings stem header)) ∧
    ∀ start, ¬ HasComment header (pairings stem header) start →
      ∀ pairing ∈ pairings stem header, pairing.declarationStart ≠ start := by
  have hreads : Reads stem header 0 (pairings stem header) (extract stem header) :=
    reads_scan stem [] header
  obtain ⟨hlen, hdocs, hdone⟩ := hreads.documents
  refine ⟨hlen, hdocs, hdone, ?_⟩
  rintro _ hnone pairing hmem rfl
  obtain ⟨_, _, _, hdoc⟩ := hreads.exists_documents hmem
  refine hnone ⟨_, _, hdoc.comment, hdoc.gap_le, hdoc.breaksLine, ?_⟩
  intro other hother hle
  exact hreads.end_le hmem hother hle

/-- The first comment reaches past the second one, into the third. -/
example :
    pairings "H_".toList "/*/\n*/\n/**/ /* H_1() */\nH_2()".toList = [⟨0, 6, 15, 20⟩] := by
  decide +kernel

end Header

end TypedExports
