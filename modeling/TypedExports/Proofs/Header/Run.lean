import Mathlib.Data.List.Induction
import TypedExports.Header.Scan
import TypedExports.Proofs.Header.Block
import TypedExports.Proofs.Header.Declaration

/-!
# Runs of a scan

`Run stem s steps m` says that scanning `s` takes the given steps and then
stands before `m`. Runs compose and split, and the scan is the run that
cannot go on (`run_scan`, `cut?_rest_scan`).

A comment is passed by for one of two reasons: the gap behind it holds no
line feed, or no declaration follows at all. Before a pairing the second
reason is out, and the first is settled by the gap alone. So what a run has
decided up to a pairing depends neither on the text behind that pairing nor
on the body of its comment (`Run.replace`).
-/

namespace TypedExports

/-- What the steps take up. -/
def Step.texts (steps : List Step) : Text := steps.flatMap Step.text

@[simp] theorem Step.texts_nil : Step.texts [] = [] := rfl

@[simp] theorem Step.texts_cons (step : Step) (steps : List Step) :
    Step.texts (step :: steps) = step.text ++ Step.texts steps := rfl

@[simp] theorem Step.texts_append (steps steps' : List Step) :
    Step.texts (steps ++ steps') = Step.texts steps ++ Step.texts steps' := by
  simp [texts]

/-- The comment that the step takes. -/
def Step.block : Step → Block
  | .passed block => block
  | .paired block _ => block

/-- Before the comment of a step nothing but its lead counts for the gap. -/
theorem Step.takeWhile_text (step : Step) (v : Text) :
    (step.text ++ v).takeWhile Text.isBlank = step.block.lead.takeWhile Text.isBlank := by
  cases step with
  | passed block => exact block.takeWhile_text v
  | paired block d =>
      rw [text, List.append_assoc]
      exact block.takeWhile_text _

namespace Header

/-- Scanning a text takes some steps and leaves the rest for later. -/
inductive Run (stem : Text) : Text → List Step → Text → Prop
  | refl (s : Text) : Run stem s [] s
  | passed {s behind m : Text} {block : Block} {steps : List Step}
      (hcut : Block.cut? s = some (block, behind))
      (hnone : Declaration.documented? stem behind = none)
      (hrun : Run stem behind steps m) : Run stem s (.passed block :: steps) m
  | paired {s behind rest m : Text} {block : Block} {d : Declaration} {steps : List Step}
      (hcut : Block.cut? s = some (block, behind))
      (hfound : Declaration.documented? stem behind = some (d, rest))
      (hrun : Run stem rest steps m) : Run stem s (.paired block d :: steps) m

theorem run_scan (stem s : Text) : Run stem s (scan stem s).steps (scan stem s).rest := by
  fun_induction scan stem s with
  | case1 s => exact .refl s
  | case2 s block behind hcut hnone ih => exact .passed hcut hnone ih
  | case3 s block behind hcut d rest hfound ih => exact .paired hcut hfound ih

theorem cut?_rest_scan (stem s : Text) : Block.cut? (scan stem s).rest = none := by
  fun_induction scan stem s with
  | case1 s hcut => exact hcut
  | case2 s block behind hcut hnone ih => exact ih
  | case3 s block behind hcut d rest hfound ih => exact ih

namespace Run

variable {stem s m : Text} {steps steps' : List Step}

theorem eq_append (h : Run stem s steps m) : s = Step.texts steps ++ m := by
  induction h with
  | refl s => rfl
  | passed hcut hnone hrun ih =>
      rw [Block.eq_append_of_cut? hcut, Step.texts_cons, List.append_assoc, ← ih]
      rfl
  | paired hcut hfound hrun ih =>
      rw [Block.eq_append_of_cut? hcut, Declaration.eq_append_of_documented? hfound,
        Step.texts_cons, List.append_assoc, ← ih]
      simp [Step.text]

theorem split {r : Text} (h : Run stem s (steps ++ steps') r) :
    ∃ m, Run stem s steps m ∧ Run stem m steps' r := by
  induction steps generalizing s with
  | nil => exact ⟨s, .refl s, h⟩
  | cons step steps ih =>
      cases h with
      | passed hcut hnone hrun =>
          obtain ⟨m, hfirst, hlast⟩ := ih hrun
          exact ⟨m, .passed hcut hnone hfirst, hlast⟩
      | paired hcut hfound hrun =>
          obtain ⟨m, hfirst, hlast⟩ := ih hrun
          exact ⟨m, .paired hcut hfound hfirst, hlast⟩

/-- A run is the beginning of the scan. -/
theorem steps_scan (h : Run stem s steps m) :
    (scan stem s).steps = steps ++ (scan stem m).steps := by
  induction h with
  | refl s => rfl
  | passed hcut hnone hrun ih =>
      rw [scan_of_passed hcut hnone, Scan.cons, ih]
      rfl
  | paired hcut hfound hrun ih =>
      rw [scan_of_paired hcut hfound, Scan.cons, ih]
      rfl

theorem extract_eq (h : Run stem s steps m) :
    extract stem s = steps.filterMap Step.export? ++ extract stem m := by
  rw [extract, Scan.exports, h.steps_scan, List.filterMap_append]
  rfl

/-! ## Runs that end in a pairing -/

/-- Before a pairing there is always a declaration ahead. -/
theorem find?_isSome {block : Block} {d : Declaration}
    (h : Run stem s (steps ++ [.paired block d]) m) (before : Char) :
    (Declaration.find? stem before s).isSome = true := by
  induction steps generalizing s before with
  | nil =>
      cases h with
      | paired hcut hfound hrun =>
          rw [Block.eq_append_of_cut? hcut]
          apply Declaration.find?_isSome_append
          rw [List.getLastD_eq_getLast?, Block.getLast?_text, Option.getD_some]
          unfold Declaration.documented? at hfound
          split at hfound
          · rw [hfound]; rfl
          · cases hfound
  | cons step steps ih =>
      cases h with
      | passed hcut hnone hrun =>
          rw [Block.eq_append_of_cut? hcut]
          exact Declaration.find?_isSome_append (ih hrun _)
      | paired hcut hfound hrun =>
          rw [Block.eq_append_of_cut? hcut, Declaration.eq_append_of_documented? hfound,
            ← List.append_assoc]
          exact Declaration.find?_isSome_append (ih hrun _)

/-- The gap before a pairing ends at the next comment at the latest, which
keeps its lead. -/
theorem gap_replace (steps : List Step) (block : Block) (d : Declaration) {body : Text}
    (m t : Text) :
    (Step.texts (steps ++ [.paired block d]) ++ m).takeWhile Text.isBlank =
      (Step.texts (steps ++ [.paired { block with body := body } d]) ++ t).takeWhile
        Text.isBlank := by
  cases steps with
  | nil =>
      simp only [List.nil_append, Step.texts_cons, List.append_assoc, Step.takeWhile_text]
      rfl
  | cons step steps =>
      simp only [List.cons_append, Step.texts_cons, List.append_assoc, Step.takeWhile_text]

/-- **Replacement.** Up to its last pairing a run depends neither on the
body of that pairing's comment nor on the text behind. -/
theorem replace {block : Block} {d : Declaration} {body : Text}
    (h : Run stem s (steps ++ [.paired block d]) m) (hbody : ¬ Comment.closer <:+: body)
    (t : Text) :
    Run stem (Step.texts (steps ++ [.paired { block with body := body } d]) ++ t)
      (steps ++ [.paired { block with body := body } d]) t := by
  -- from the front of the run: every step but the last keeps its own body
  induction steps generalizing s with
  | nil =>
      cases h with
      | paired hcut hfound hrun =>
          have hcut' := Block.cut?_replace hcut hbody (d.text ++ t)
          rw [Declaration.eq_append_of_documented? hfound] at hfound
          have hfound' := Declaration.documented?_local hfound t
          simpa [Step.text] using Run.paired hcut' hfound' (.refl t)
  | cons step steps ih =>
      rw [List.cons_append, Step.texts_cons, List.append_assoc]
      cases h with
      | @passed _ behind _ block' _ hcut hnone hrun =>
          have hcut' := Block.cut?_replace hcut (Block.not_closer_of_cut? hcut)
            (Step.texts (steps ++ [.paired { block with body := body } d]) ++ t)
          refine .passed hcut' (Declaration.documented?_eq_none_of_gap ?_) (ih hrun)
          -- the pairing ahead has a declaration, so it was the gap that failed
          have hgap := Declaration.not_mem_gap_of_documented? hnone (hrun.find?_isSome '/')
          have hbehind : behind = Step.texts (steps ++ [.paired block d]) ++ m := hrun.eq_append
          rwa [hbehind, gap_replace steps block d m t] at hgap
      | @paired _ behind rest _ block' d' _ hcut hfound hrun =>
          have hcut' := Block.cut?_replace hcut (Block.not_closer_of_cut? hcut)
            (d'.text ++ (Step.texts (steps ++ [.paired { block with body := body } d]) ++ t))
          rw [Declaration.eq_append_of_documented? hfound] at hfound
          rw [Step.text, List.append_assoc]
          exact .paired hcut' (Declaration.documented?_local hfound _) (ih hrun)

end Run

/-! ## The last pairing -/

/-- Steps none of which is passed by after the last pairing. -/
def Closed (steps : List Step) : Prop :=
  steps = [] ∨ ∃ before block d, steps = before ++ [.paired block d]

/-- Behind a closed run the text may change. -/
theorem Run.replace_rest {stem s m : Text} {steps : List Step} (h : Run stem s steps m)
    (hclosed : Closed steps) (t : Text) : Run stem (Step.texts steps ++ t) steps t := by
  rcases hclosed with rfl | ⟨before, block, d, rfl⟩
  · exact .refl t
  · obtain ⟨_, _, hlast⟩ := h.split
    cases hlast with
    | paired hcut hfound hrun => exact h.replace (Block.not_closer_of_cut? hcut) t

/-- The steps up to the last pairing, and those after it, which document
nothing. -/
theorem exists_closed (steps : List Step) :
    ∃ closed after, steps = closed ++ after ∧ Closed closed ∧
      ∀ step ∈ after, step.export? = none := by
  induction steps using List.reverseRecOn with
  | nil => exact ⟨[], [], rfl, Or.inl rfl, by simp⟩
  | append_singleton steps step ih =>
      cases step with
      | passed block =>
          obtain ⟨closed, after, rfl, hclosed, hafter⟩ := ih
          refine ⟨closed, after ++ [.passed block], by simp, hclosed, ?_⟩
          intro step hmem
          rcases List.mem_append.mp hmem with hmem | hmem
          · exact hafter step hmem
          · rw [List.mem_singleton.mp hmem]
            rfl
      | paired block d =>
          exact ⟨steps ++ [.paired block d], [], by simp, Or.inr ⟨steps, block, d, rfl⟩, by simp⟩

end Header

end TypedExports
