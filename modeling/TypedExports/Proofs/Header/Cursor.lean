import TypedExports.Header.Scan
import TypedExports.Proofs.Header.Block
import TypedExports.Proofs.Header.Declaration
import TypedExports.Proofs.Text.Bytes

/-!
# Reading by offset

The scan takes a header apart. A reader that keeps the header whole remembers
where it stands, in bytes, and every piece that it looks at is a cut that
could fail. `turn` is one turn of such a reader. From a boundary it only cuts
between characters, and it leads forward to another boundary
(`turn_advances`). Its turns are the steps of the scan (`turns_scan`), so that
it comes to an end.

The search for the next comment looks at one opener only. Nothing is lost by
that: a closer behind a later opener stands behind the first one as well
(`not_startsComment_of_cut?`).
-/

namespace TypedExports.Header

open Text (Misplaced byteLength)

/-! ## A reader that keeps the header whole -/

/-- Where the next comment starts and ends, from an offset on. -/
def commentFrom (header : Text) (offset : Nat) : Except Misplaced (Option (Nat × Nat)) := do
  match ← header.findBytes Comment.opener offset with
  | none => return none
  | some start =>
    let close? ← header.findBytes Comment.closer (start + byteLength Comment.opener)
    return close?.map fun close => (start, close + byteLength Comment.closer)

/-- The name of the declaration that is documented by a comment which ends at
the offset, and where the declaration ends. -/
def declarationFrom (stem header : Text) (offset : Nat) :
    Except Misplaced (Option (Text × Nat)) := do
  let (_, behind) ← header.splitBytes offset
  let (gap, _) ← behind.splitBytes (byteLength behind - byteLength (Text.trimStart behind))
  if Text.lineFeed ∈ gap then
    match Declaration.find? stem '/' behind with
    | none => return none
    | some (d, _) =>
      let start := offset + byteLength d.lead
      let name ← header.sliceBytes start (start + byteLength d.name)
      return some (name, offset + byteLength d.text)
  else return none

/-- One turn of the reader: where it goes on, and the function that is
documented up to there, if any. -/
def turn (stem header : Text) (cursor : Nat) :
    Except Misplaced (Option (Nat × Option ExportedFunction)) := do
  match ← commentFrom header cursor with
  | none => return none
  | some (start, stop) =>
    match ← declarationFrom stem header stop with
    | none => return some (stop, none)
    | some (name, last) =>
      let comment ← header.sliceBytes start stop
      return some (last, some ((Comment.parse comment).document name))

/-- The turns from a cursor on: the cursors that they lead to, and the
functions that they find documented. -/
inductive Turns (stem header : Text) : Nat → List Nat → List ExportedFunction → Prop
  | done {cursor : Nat} (hturn : turn stem header cursor = .ok none) :
      Turns stem header cursor [] []
  | forward {cursor next : Nat} {found? : Option ExportedFunction} {cursors : List Nat}
      {fs : List ExportedFunction} (hturn : turn stem header cursor = .ok (some (next, found?)))
      (hturns : Turns stem header next cursors fs) :
      Turns stem header cursor (next :: cursors) (found?.toList ++ fs)

/-! ## The first complete comment -/

/-- A complete comment starts at the offset: an opener stands there, and a
closer somewhere behind it. -/
def StartsComment (header : Text) (start : Nat) : Prop :=
  Text.StandsAt Comment.opener header start ∧
    ∃ close, start + 2 ≤ close ∧ Text.StandsAt Comment.closer header close

/-- The complete comment that starts first from an offset on. It ends with
the first closer behind its opener. -/
structure FirstComment (header : Text) (offset start stop : Nat) : Prop where
  le : offset ≤ start
  starts : StartsComment header start
  first : ∀ i, offset ≤ i → StartsComment header i → start ≤ i
  closed : ∃ close, Text.FirstAt Comment.closer header (start + 2) close ∧ stop = close + 2

theorem isAscii_opener : Text.IsAscii Comment.opener := by simp [Text.IsAscii, Comment.opener]

theorem isAscii_closer : Text.IsAscii Comment.closer := by simp [Text.IsAscii, Comment.closer]

theorem byteLength_opener : byteLength Comment.opener = 2 := rfl

theorem byteLength_closer : byteLength Comment.closer = 2 := rfl

section First

variable {header s behind : Text} {block : Block} {offset start stop start' stop' : Nat}

theorem FirstComment.unique (h : FirstComment header offset start stop)
    (h' : FirstComment header offset start' stop') : start = start' ∧ stop = stop' := by
  obtain rfl : start = start' :=
    Nat.le_antisymm (h.first start' h'.le h'.starts) (h'.first start h.le h.starts)
  obtain ⟨close, hclose, rfl⟩ := h.closed
  obtain ⟨close', hclose', rfl⟩ := h'.closed
  exact ⟨rfl, congrArg (· + 2) (hclose.unique hclose')⟩

theorem firstComment_of_cut? (h : Block.cut? s = some (block, behind)) (u : Text) :
    FirstComment (u ++ s) (byteLength u) (byteLength (u ++ block.lead))
      (byteLength (u ++ block.text)) := by
  obtain ⟨hopen, hbody⟩ := Block.cut?_eq_some_iff.mp h
  have hclose := Text.cut?_pair (x := '*') (y := '/') (by decide) hbody behind
  have hopened := Text.firstAt_of_cut? (by decide) isAscii_opener hopen u
  have hclosed := Text.firstAt_of_cut? (by decide) isAscii_closer hclose
    (u ++ block.lead ++ Comment.opener)
  change Text.FirstAt Comment.closer (_ ++ (block.body ++ Comment.closer ++ behind)) _ _ at hclosed
  rw [← Text.append_eq_of_cut? hopen, Text.byteLength_append (u ++ block.lead) Comment.opener,
    byteLength_opener] at hclosed
  refine ⟨hopened.le, ⟨hopened.standsAt, _, hclosed.le, hclosed.standsAt⟩, ?_, _, hclosed, ?_⟩
  · intro i hle hstarts
    exact hopened.first i hle hstarts.1
  · simp [Block.text, Block.comment, byteLength_closer, Nat.add_assoc]

/-- An opener that is never closed is followed by no complete comment. -/
theorem not_startsComment_of_cut? (h : Block.cut? s = none) {u : Text} {i : Nat}
    (hle : byteLength u ≤ i) : ¬ StartsComment (u ++ s) i := by
  rintro ⟨hopen, close, hclose_le, hclose⟩
  cases hcut : Text.cut? Comment.opener s with
  | none => exact Text.not_standsAt_of_cut? (by decide) isAscii_opener hcut hle hopen
  | some found =>
      obtain ⟨lead, inside⟩ := found
      have hnone := Text.cut?_eq_none_iff.mpr (Block.cut?_eq_none_iff.mp h lead inside hcut)
      have hfirst := (Text.firstAt_of_cut? (by decide) isAscii_opener hcut u).first i hle hopen
      rw [Text.append_eq_of_cut? hcut] at hclose
      refine Text.not_standsAt_of_cut? (by decide) isAscii_closer hnone ?_ hclose
      rw [Text.byteLength_append (u ++ lead), byteLength_opener]
      omega

end First

/-! ## The reader on what follows a boundary -/

theorem commentFrom_append (u s : Text) :
    commentFrom (u ++ s) (byteLength u) =
      .ok ((Block.cut? s).map fun found =>
        (byteLength (u ++ found.1.lead), byteLength (u ++ found.1.text))) := by
  rw [commentFrom, Text.findBytes_append, Block.cut?]
  cases hopen : Text.cut? Comment.opener s with
  | none => rfl
  | some found =>
      obtain ⟨lead, inside⟩ := found
      -- the second search starts behind the opener
      have hinside := Text.findBytes_append Comment.closer (u ++ lead ++ Comment.opener) inside
      rw [← Text.append_eq_of_cut? hopen, Text.byteLength_append (u ++ lead)] at hinside
      simp only [Option.map_some, bind, Except.bind, Option.bind_some, hinside]
      cases hclose : Text.cut? Comment.closer inside with
      | none => rfl
      | some cut =>
          obtain ⟨body, rest⟩ := cut
          simp [Block.text, Block.comment, pure, Except.pure, Nat.add_assoc]

/-- The gap behind a comment ends where a character starts. -/
theorem splitBytes_gap (s : Text) :
    s.splitBytes (byteLength s - byteLength (Text.trimStart s)) =
      .ok (s.takeWhile Text.isBlank, Text.trimStart s) := by
  have hs : s = s.takeWhile Text.isBlank ++ Text.trimStart s :=
    List.takeWhile_append_dropWhile.symm
  have hlen : byteLength s - byteLength (Text.trimStart s) =
      byteLength (s.takeWhile Text.isBlank) := by
    conv => lhs; lhs; rw [hs, Text.byteLength_append]
    exact Nat.add_sub_cancel _ _
  rw [hlen]
  conv => lhs; lhs; rw [hs]
  exact Text.splitBytes_append _ _

theorem declarationFrom_append (stem u s : Text) :
    declarationFrom stem (u ++ s) (byteLength u) =
      .ok ((Declaration.documented? stem s).map fun found =>
        (found.1.name, byteLength (u ++ found.1.text))) := by
  rw [declarationFrom, Text.splitBytes_append, Declaration.documented?]
  simp only [bind, Except.bind, splitBytes_gap]
  split
  · cases hfind : Declaration.find? stem '/' s with
    | none => rfl
    | some found =>
        obtain ⟨d, rest⟩ := found
        have hs := (Declaration.find?_eq_some_iff.mp hfind).1
        have hname := Text.sliceBytes_append (u ++ d.lead) d.name (d.call ++ rest)
        have hsplit : u ++ s = u ++ d.lead ++ d.name ++ (d.call ++ rest) := by
          rw [hs, Declaration.text]
          simp only [List.append_assoc]
        rw [← hsplit, Text.byteLength_append (u ++ d.lead), Text.byteLength_append u] at hname
        simp only [hname, Option.map_some, Text.byteLength_append]
        rfl
  · rfl

theorem commentFrom_eq_some_iff (u s : Text) {start stop : Nat} :
    commentFrom (u ++ s) (byteLength u) = .ok (some (start, stop)) ↔
      FirstComment (u ++ s) (byteLength u) start stop := by
  rw [commentFrom_append]
  cases hcut : Block.cut? s with
  | none =>
      refine iff_of_false nofun ?_
      intro h
      exact not_startsComment_of_cut? hcut h.le h.starts
  | some found =>
      obtain ⟨block, behind⟩ := found
      have hfirst := firstComment_of_cut? hcut u
      rw [Option.map_some, Except.ok.injEq, Option.some.injEq, Prod.mk.injEq]
      constructor
      · rintro ⟨rfl, rfl⟩
        exact hfirst
      · exact hfirst.unique

theorem commentFrom_eq_none_iff (u s : Text) :
    commentFrom (u ++ s) (byteLength u) = .ok none ↔
      ∀ i, byteLength u ≤ i → ¬ StartsComment (u ++ s) i := by
  rw [commentFrom_append]
  cases hcut : Block.cut? s with
  | none => exact iff_of_true rfl fun i hle => not_startsComment_of_cut? hcut hle
  | some found =>
      obtain ⟨block, behind⟩ := found
      have hfirst := firstComment_of_cut? hcut u
      exact iff_of_false nofun fun hnone => hnone _ hfirst.le hfirst.starts

/-! ## Turns and steps -/

section Turn

variable {stem s behind rest : Text} {block : Block} {d : Declaration}

theorem append_eq_of_blockCut? (hcut : Block.cut? s = some (block, behind)) (u : Text) :
    u ++ s = u ++ block.text ++ behind := by
  rw [Block.eq_append_of_cut? hcut, List.append_assoc]

theorem append_eq_of_documented? (hcut : Block.cut? s = some (block, behind))
    (hfound : Declaration.documented? stem behind = some (d, rest)) (u : Text) :
    u ++ s = u ++ block.text ++ d.text ++ rest := by
  rw [append_eq_of_blockCut? hcut, Declaration.eq_append_of_documented? hfound,
    List.append_assoc _ d.text]

theorem turn_of_cut?_eq_none (hcut : Block.cut? s = none) (u : Text) :
    turn stem (u ++ s) (byteLength u) = .ok none := by
  rw [turn, commentFrom_append, hcut]
  rfl

theorem turn_of_passed (hcut : Block.cut? s = some (block, behind))
    (hnone : Declaration.documented? stem behind = none) (u : Text) :
    turn stem (u ++ s) (byteLength u) = .ok (some (byteLength (u ++ block.text), none)) := by
  have hdeclaration := declarationFrom_append stem (u ++ block.text) behind
  rw [← append_eq_of_blockCut? hcut, hnone] at hdeclaration
  rw [turn, commentFrom_append, hcut]
  simp only [bind, Except.bind, Option.map_some, hdeclaration]
  rfl

theorem turn_of_paired (hcut : Block.cut? s = some (block, behind))
    (hfound : Declaration.documented? stem behind = some (d, rest)) (u : Text) :
    turn stem (u ++ s) (byteLength u) =
      .ok (some (byteLength (u ++ block.text ++ d.text),
        some ((Comment.parse block.comment).document d.name))) := by
  have hdeclaration := declarationFrom_append stem (u ++ block.text) behind
  have hcomment := Text.sliceBytes_append (u ++ block.lead) block.comment behind
  rw [List.append_assoc u, ← Block.text, ← append_eq_of_blockCut? hcut] at hcomment
  rw [← append_eq_of_blockCut? hcut, hfound] at hdeclaration
  rw [turn, commentFrom_append, hcut]
  simp only [bind, Except.bind, Option.map_some, hdeclaration, hcomment]
  rfl

end Turn

/-- The reader takes one turn for each step of the scan. -/
theorem turns_scan (stem u s : Text) :
    ∃ cursors, Turns stem (u ++ s) (byteLength u) cursors (scan stem s).exports := by
  fun_induction scan stem s generalizing u with
  | case1 s hcut => exact ⟨[], .done (turn_of_cut?_eq_none hcut u)⟩
  | case2 s block behind hcut hnone ih =>
      obtain ⟨cursors, hturns⟩ := ih (u ++ block.text)
      rw [← append_eq_of_blockCut? hcut] at hturns
      exact ⟨_, .forward (turn_of_passed hcut hnone u) hturns⟩
  | case3 s block behind hcut d rest hfound ih =>
      obtain ⟨cursors, hturns⟩ := ih (u ++ block.text ++ d.text)
      rw [← append_eq_of_documented? hcut hfound] at hturns
      exact ⟨_, .forward (turn_of_paired hcut hfound u) hturns⟩

theorem byteLength_lt_append_text (u : Text) (block : Block) :
    byteLength u < byteLength (u ++ block.text) := by
  have hne : block.text ≠ [] := by simp [Block.text, Block.comment, Comment.opener]
  have hpos : byteLength block.text ≠ 0 := fun h => hne (Text.eq_nil_of_byteLength h)
  rw [Text.byteLength_append]
  omega

/-- **Progress.** From a boundary a turn leads forward, to a boundary. -/
theorem turn_advances (stem : Text) {header : Text} {cursor : Nat}
    (hcursor : header.IsBoundary cursor) :
    ∃ outcome, turn stem header cursor = .ok outcome ∧
      ∀ next found?, outcome = some (next, found?) → cursor < next ∧ header.IsBoundary next := by
  obtain ⟨u, s, rfl, rfl⟩ := hcursor
  cases hcut : Block.cut? s with
  | none => exact ⟨none, turn_of_cut?_eq_none hcut u, nofun⟩
  | some found =>
      obtain ⟨block, behind⟩ := found
      have hlt := byteLength_lt_append_text u block
      cases hfound : Declaration.documented? stem behind with
      | none =>
          refine ⟨_, turn_of_passed hcut hfound u, ?_⟩
          rintro next found? h
          cases h
          exact ⟨hlt, u ++ block.text, behind, append_eq_of_blockCut? hcut u, rfl⟩
      | some pair =>
          obtain ⟨d, rest⟩ := pair
          refine ⟨_, turn_of_paired hcut hfound u, ?_⟩
          rintro next found? h
          cases h
          exact ⟨Nat.lt_of_lt_of_le hlt (by simp), u ++ block.text ++ d.text, rest,
            append_eq_of_documented? hcut hfound u, rfl⟩

/-- Turn after turn the reader moves forward from boundary to boundary. -/
theorem Turns.advance {stem header : Text} {cursor : Nat} {cursors : List Nat}
    {fs : List ExportedFunction} (h : Turns stem header cursor cursors fs)
    (hcursor : header.IsBoundary cursor) :
    (cursor :: cursors).Pairwise (· < ·) ∧ ∀ next ∈ cursors, header.IsBoundary next := by
  induction h with
  | done hturn => simp
  | @forward cursor next found? cursors fs hturn hturns ih =>
      obtain ⟨outcome, houtcome, hforward⟩ := turn_advances stem hcursor
      rw [hturn, Except.ok.injEq] at houtcome
      obtain ⟨hlt, hnext⟩ := hforward next found? houtcome.symm
      obtain ⟨hincreasing, hboundaries⟩ := ih hnext
      rw [List.pairwise_cons, List.forall_mem_cons, List.forall_mem_cons]
      refine ⟨⟨⟨hlt, ?_⟩, hincreasing⟩, hnext, hboundaries⟩
      intro later hlater
      exact hlt.trans (List.rel_of_pairwise_cons hincreasing hlater)

/-- **Reading by offset.** From a boundary the search finds the first complete
comment, and nothing exactly when there is none. A turn cuts the header only
between characters, and leads forward to a boundary. So the reader comes to
an end, with the functions that are extracted. -/
theorem reading_by_offset (stem header : Text) :
    (∀ before ahead, header = before ++ ahead →
      commentFrom header (byteLength before) =
        .ok ((Block.cut? ahead).map fun found =>
          (byteLength (before ++ found.1.lead), byteLength (before ++ found.1.text))) ∧
      (∀ start stop, commentFrom header (byteLength before) = .ok (some (start, stop)) ↔
        FirstComment header (byteLength before) start stop) ∧
      (commentFrom header (byteLength before) = .ok none ↔
        ∀ i, byteLength before ≤ i → ¬ StartsComment header i)) ∧
    (∀ cursor, header.IsBoundary cursor → ∃ outcome, turn stem header cursor = .ok outcome ∧
      ∀ next found?, outcome = some (next, found?) → cursor < next ∧ header.IsBoundary next) ∧
    ∃ cursors, Turns stem header 0 cursors (extract stem header) ∧
      (0 :: cursors).Pairwise (· < ·) ∧ ∀ next ∈ cursors, header.IsBoundary next := by
  refine ⟨?search, fun cursor => turn_advances stem, ?run⟩
  case search =>
    rintro before ahead rfl
    exact ⟨commentFrom_append before ahead, fun _ _ => commentFrom_eq_some_iff before ahead,
      commentFrom_eq_none_iff before ahead⟩
  case run =>
    obtain ⟨cursors, hturns⟩ := turns_scan stem [] header
    obtain ⟨hincreasing, hboundaries⟩ := hturns.advance ⟨[], header, rfl, rfl⟩
    exact ⟨cursors, hturns, hincreasing, hboundaries⟩

/-- A slash that ends one mark and starts another one, behind a character of
two bytes, and an opener that is never closed. -/
def overlappingMarks : Text := "é/*/**/\nH_1(é) /*/".toList

/-- The search from the first byte of the comment, from inside of it, and from
the end of the declaration, to which the first turn leads. -/
theorem reading_by_offset_overlappingMarks :
    FirstComment overlappingMarks 2 2 8 ∧ FirstComment overlappingMarks 4 4 8 ∧
      (∀ i, 16 ≤ i → ¬ StartsComment overlappingMarks i) ∧
      (∃ f, turn "H_".toList overlappingMarks 0 = .ok (some (16, some f))) ∧
      overlappingMarks.IsBoundary 0 ∧ overlappingMarks.IsBoundary 16 := by
  have hreading := reading_by_offset "H_".toList overlappingMarks
  have hstart := (hreading.1 "é".toList "/*/**/\nH_1(é) /*/".toList (by decide)).2.1 2 8
  have hinside := (hreading.1 "é/*".toList "/**/\nH_1(é) /*/".toList (by decide)).2.1 4 8
  have hbehind := (hreading.1 "é/*/**/\nH_1(é)".toList " /*/".toList (by decide)).2.2
  have hzero : overlappingMarks.IsBoundary 0 := ⟨[], overlappingMarks, rfl, rfl⟩
  have hturn : turn "H_".toList overlappingMarks 0 =
      .ok (some (16, some ((Comment.parse "/*/**/".toList).document "H_1".toList))) := rfl
  obtain ⟨outcome, houtcome, hforward⟩ := hreading.2.1 0 hzero
  rw [hturn, Except.ok.injEq] at houtcome
  exact ⟨hstart.mp rfl, hinside.mp rfl, hbehind.mp rfl, ⟨_, hturn⟩, hzero,
    (hforward _ _ houtcome.symm).2⟩

end TypedExports.Header
