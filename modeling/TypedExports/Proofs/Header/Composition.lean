import TypedExports.Proofs.Header.Pairing
import TypedExports.Proofs.Header.Run

/-!
# Headers written one after another

What a header documents up to its last declaration is settled there:
appended text is read as if it followed the remainder alone
(`extract_append_eq`). A remainder without an opener, or with half of one at
its end, does not show in what follows, so that headers which end so compose
(`extract_append`, `extract_flatten`).
-/

namespace TypedExports.Header

/-- What follows the last declaration that a comment documents. -/
def remainder (stem header : Text) : Text :=
  header.drop (cursorAfter 0 (pairings stem header))

/-! ## Pairings of consecutive steps -/

theorem pairingsFrom_append (offset : Nat) (steps steps' : List Step) :
    pairingsFrom offset (steps ++ steps') =
      pairingsFrom offset steps ++ pairingsFrom (offset + (Step.texts steps).length) steps' := by
  induction steps generalizing offset with
  | nil => rfl
  | cons step steps ih =>
      rw [List.cons_append, pairingsFrom, pairingsFrom, ih, Step.texts_cons, List.length_append,
        List.append_assoc, Nat.add_assoc]

theorem pairingsFrom_eq_nil {steps : List Step} (h : ∀ step ∈ steps, step.export? = none)
    (offset : Nat) : pairingsFrom offset steps = [] := by
  induction steps generalizing offset with
  | nil => rfl
  | cons step steps ih =>
      cases step with
      | passed block => exact ih (fun step hmem => h step (List.mem_cons_of_mem _ hmem)) _
      | paired block d => cases h _ List.mem_cons_self

/-- Closed steps end where their last declaration ends. -/
theorem cursorAfter_of_closed {steps : List Step} (h : Closed steps) :
    cursorAfter 0 (pairingsFrom 0 steps) = (Step.texts steps).length := by
  rcases h with rfl | ⟨before, block, d, rfl⟩
  · rfl
  · rw [pairingsFrom_append, cursorAfter, List.map_append, List.getLastD_eq_getLast?]
    simp [pairingsFrom, Step.pairing?, Step.text]

/-- The scan runs up to the remainder and documents nothing in it. -/
theorem exists_run_remainder (stem s : Text) :
    ∃ steps, Run stem s steps (remainder stem s) ∧ Closed steps ∧
      extract stem s = steps.filterMap Step.export? := by
  obtain ⟨closed, after, hsteps, hclosed, hafter⟩ := exists_closed (scan stem s).steps
  have hrun := run_scan stem s
  rw [hsteps] at hrun
  obtain ⟨m, hrun, _⟩ := hrun.split
  have hcursor : cursorAfter 0 (pairings stem s) = (Step.texts closed).length := by
    rw [pairings, hsteps, pairingsFrom_append, pairingsFrom_eq_nil hafter, List.append_nil,
      cursorAfter_of_closed hclosed]
  have hm : remainder stem s = m := by
    rw [remainder, hcursor]
    conv => lhs; rw [hrun.eq_append]
    rw [List.drop_left]
  refine ⟨closed, hm ▸ hrun, hclosed, ?_⟩
  have hnone : after.filterMap Step.export? = [] := List.filterMap_eq_nil_iff.mpr hafter
  rw [extract, Scan.exports, hsteps, List.filterMap_append, hnone, List.append_nil]

/-! ## Appending -/

/-- Appended text is read as if it followed the remainder alone. -/
theorem extract_append_eq (stem s t : Text) :
    extract stem (s ++ t) = extract stem s ++ extract stem (remainder stem s ++ t) := by
  obtain ⟨steps, hrun, hclosed, hextract⟩ := exists_run_remainder stem s
  have hrun' := hrun.replace_rest hclosed (remainder stem s ++ t)
  rw [← List.append_assoc, ← hrun.eq_append] at hrun'
  rw [hrun'.extract_eq, hextract]

/-- A text that neither holds an opener nor ends in its slash leaves no
trace. -/
theorem extract_append_left {stem a : Text} (ha : ¬ Comment.opener <:+: a)
    (hlast : a.getLast? ≠ some '/') (s : Text) : extract stem (a ++ s) = extract stem s := by
  have hskip := Block.cut?_append_left ha hlast s
  cases hcut : Block.cut? s with
  | none =>
      rw [hcut] at hskip
      rw [extract, extract, scan_of_cut?_eq_none hcut, scan_of_cut?_eq_none hskip]
      rfl
  | some found =>
      obtain ⟨block, behind⟩ := found
      rw [hcut, Option.map_some] at hskip
      cases hfound : Declaration.documented? stem behind with
      | none =>
          rw [extract, extract, scan_of_passed hcut hfound, scan_of_passed hskip hfound]
          rfl
      | some pair =>
          obtain ⟨d, rest⟩ := pair
          rw [extract, extract, scan_of_paired hcut hfound, scan_of_paired hskip hfound]
          rfl

/-- A header whose remainder leaves no trace composes with what follows. -/
theorem extract_append_of_remainder {stem s : Text}
    (hopen : ¬ Comment.opener <:+: remainder stem s) (hlast : s.getLast? ≠ some '/') (t : Text) :
    extract stem (s ++ t) = extract stem s ++ extract stem t := by
  have hlast' : (remainder stem s).getLast? ≠ some '/' := by
    intro h
    rw [remainder, List.getLast?_drop] at h
    split at h
    · cases h
    · exact hlast h
  rw [extract_append_eq, extract_append_left hopen hlast']

/-- A part of a header whose remainder leaves no trace. -/
structure SelfContained (stem block : Text) : Prop where
  no_opener : ¬ Comment.opener <:+: remainder stem block
  no_slash : block.getLast? ≠ some '/'

/-- A header made of such parts documents what each part documents. -/
theorem extract_flatten {stem : Text} {blocks : List Text}
    (hblocks : ∀ block ∈ blocks, SelfContained stem block) :
    extract stem blocks.flatten = blocks.flatMap (extract stem) := by
  induction blocks with
  | nil =>
      rw [List.flatten_nil, extract, scan_of_cut?_eq_none rfl]
      rfl
  | cons block blocks ih =>
      rw [List.forall_mem_cons] at hblocks
      obtain ⟨hblock, hrest⟩ := hblocks
      rw [List.flatten_cons, extract_append_of_remainder hblock.no_opener hblock.no_slash,
        ih hrest, List.flatMap_cons]

/-- **Composition.** Appending text keeps what was extracted. A header that
holds no opener behind its last declaration, and does not end in a slash,
contributes exactly what it documents on its own. -/
theorem extract_append (stem s t : Text) :
    extract stem s <+: extract stem (s ++ t) ∧
      (¬ Comment.opener <:+: remainder stem s → s.getLast? ≠ some '/' →
        extract stem (s ++ t) = extract stem s ++ extract stem t) := by
  refine ⟨?_, fun hopen hlast => extract_append_of_remainder hopen hlast t⟩
  rw [extract_append_eq]
  exact List.prefix_append _ _

/-- A comment that documents what stands inside the next one. Behind it are a
closer and a slash, and the text ends inside a parameter list. -/
def seamFront : Text := "/**/\n/* H_1() */ / H_0(".toList

/-- A text that starts with an asterisk, and whose comment holds another opener. -/
def seamBack : Text := "*) /*/ /**/\nH_2()".toList

theorem extract_append_seam :
    ¬ Comment.opener <:+: remainder "H_".toList seamFront ∧
      seamFront.getLast? ≠ some '/' ∧
      extract "H_".toList seamFront = [{ name := "H_1".toList }] ∧
      extract "H_".toList seamBack = [{ name := "H_2".toList }] ∧
      extract "H_".toList (seamFront ++ seamBack) =
        extract "H_".toList seamFront ++ extract "H_".toList seamBack := by
  have hopen : ¬ Comment.opener <:+: remainder "H_".toList seamFront := by decide +kernel
  have hlast : seamFront.getLast? ≠ some '/' := by decide
  have hfront : extract "H_".toList seamFront = [{ name := "H_1".toList }] := by decide +kernel
  have hback : extract "H_".toList seamBack = [{ name := "H_2".toList }] := by decide +kernel
  exact ⟨hopen, hlast, hfront, hback, (extract_append _ _ _).2 hopen hlast⟩

end TypedExports.Header
