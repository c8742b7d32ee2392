import TypedExports.Comment.Tag
import TypedExports.Header.Block
import TypedExports.Header.Declaration

/-!
# Headers

A header is read by taking one comment after another off its front. A comment that documents a
declaration takes everything up to that declaration's end with it, other comments included; any
other comment is passed by. The scan keeps the pieces, so that the steps and the rest spell the
header again (`text_scan`).
-/

namespace TypedExports

/-- One step of a scan. -/
inductive Step where
  /-- a comment that documents nothing -/
  | passed (block : Block)
  /-- a comment with the declaration that it documents -/
  | paired (block : Block) (declaration : Declaration)
  deriving DecidableEq, Repr

def Step.text : Step → Text
  | .passed block => block.text
  | .paired block declaration => block.text ++ declaration.text

def Step.export? : Step → Option ExportedFunction
  | .passed _ => none
  | .paired block declaration =>
    some ((Comment.parse block.comment).document declaration.name)

/-- A header cut into steps, and the rest, in which no comment is complete. -/
structure Scan where
  steps : List Step
  rest : Text
  deriving DecidableEq, Repr

namespace Scan

def cons (step : Step) (scan : Scan) : Scan := { scan with steps := step :: scan.steps }

def text (scan : Scan) : Text := scan.steps.flatMap Step.text ++ scan.rest

def exports (scan : Scan) : List ExportedFunction := scan.steps.filterMap Step.export?

theorem exports_cons_passed (scan : Scan) (block : Block) :
    (scan.cons (.passed block)).exports = scan.exports := rfl

theorem exports_cons_paired (scan : Scan) (block : Block) (declaration : Declaration) :
    (scan.cons (.paired block declaration)).exports =
      (Comment.parse block.comment).document declaration.name :: scan.exports := rfl

end Scan

namespace Header

/-- The naming stem of exported functions unless another one is given. -/
def defaultStem : Text := "HAKO_".toList

/-- Scans a header for functions whose names start with the stem. -/
def scan (stem s : Text) : Scan :=
  match _cut : Block.cut? s with
  | none => ⟨[], s⟩
  | some (block, behind) =>
    match _found : Declaration.documented? stem behind with
    | none => (scan stem behind).cons (.passed block)
    | some (declaration, rest) => (scan stem rest).cons (.paired block declaration)
termination_by s.length
decreasing_by
  · exact Block.length_rest_lt_of_cut? _cut
  · exact Nat.lt_of_le_of_lt (Declaration.length_rest_le_of_documented? _found)
      (Block.length_rest_lt_of_cut? _cut)

/-- The documented functions of a header whose names start with the stem. -/
def extract (stem header : Text) : List ExportedFunction := (scan stem header).exports

theorem scan_of_cut?_eq_none {stem s : Text} (h : Block.cut? s = none) :
    scan stem s = ⟨[], s⟩ := by
  rw [scan]
  split <;> simp_all

theorem scan_of_passed {stem s behind : Text} {block : Block}
    (cut : Block.cut? s = some (block, behind))
    (none_found : Declaration.documented? stem behind = none) :
    scan stem s = (scan stem behind).cons (.passed block) := by
  rw [scan]
  split
  · simp_all
  · next cut' =>
    rw [cut] at cut'
    cases cut'
    split <;> simp_all

theorem scan_of_paired {stem s behind rest : Text} {block : Block} {declaration : Declaration}
    (cut : Block.cut? s = some (block, behind))
    (found : Declaration.documented? stem behind = some (declaration, rest)) :
    scan stem s = (scan stem rest).cons (.paired block declaration) := by
  rw [scan]
  split
  · simp_all
  · next cut' =>
    rw [cut] at cut'
    cases cut'
    split
    · simp_all
    · next found' =>
      rw [found] at found'
      cases found'
      rfl

/-- A scan loses nothing of the header. -/
theorem text_scan (stem s : Text) : (scan stem s).text = s := by
  fun_induction scan stem s with
  | case1 s => simp [Scan.text]
  | case2 s block behind cut none_found ih =>
    rw [Block.eq_append_of_cut? cut]
    simpa [Scan.text, Scan.cons, Step.text] using ih
  | case3 s block behind cut declaration rest found ih =>
    rw [Block.eq_append_of_cut? cut, Declaration.eq_append_of_documented? found]
    simpa [Scan.text, Scan.cons, Step.text] using ih

end Header

end TypedExports
