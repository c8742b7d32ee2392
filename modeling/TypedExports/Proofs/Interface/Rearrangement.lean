import TypedExports.Interface.Document
import TypedExports.Proofs.Catalogue
import TypedExports.Proofs.Header.Composition

/-!
# Rearranged headers

A generated file does not show the order in which functions stand in the
header, as long as category and name tell them apart: self-contained parts of
a header may change places (`document_flatten_eq_of_perm`).
-/

namespace TypedExports.Interface

/-- The file for a list of functions does not depend on their order. -/
theorem document_eq_of_perm (name : Text) (provenance : Provenance)
    {fs fs' : List ExportedFunction} (hperm : fs.Perm fs')
    (hdistinct : (fs.map fun f => (f.effectiveCategory, f.name)).Nodup) :
    document name fs provenance = document name fs' provenance := by
  have hsections : Catalogue.sections id fs = Catalogue.sections id fs' :=
    Catalogue.sections_eq_of_perm hperm hdistinct
  rw [document, document, lines, lines, body, body, hsections]

/-- **Rearrangement.** The parts of a header may change places without any
effect on the generated file. Each part must be self-contained, and no two of
the documented functions may agree in both category and name. -/
theorem document_flatten_eq_of_perm (stem name : Text) (provenance : Provenance)
    {blocks blocks' : List Text} (hperm : blocks.Perm blocks')
    (hblocks : ∀ block ∈ blocks, Header.SelfContained stem block)
    (hdistinct : ((blocks.flatMap (Header.extract stem)).map fun f =>
      (f.effectiveCategory, f.name)).Nodup) :
    document name (Header.extract stem blocks.flatten) provenance =
      document name (Header.extract stem blocks'.flatten) provenance := by
  have hblocks' : ∀ block ∈ blocks', Header.SelfContained stem block :=
    fun block hmem => hblocks block (hperm.mem_iff.mpr hmem)
  rw [Header.extract_flatten hblocks, Header.extract_flatten hblocks']
  exact document_eq_of_perm name provenance (hperm.flatMap_right _) hdistinct

/-- Parts of a header: a call that is never closed, a closer without a
comment, stars, and a declaration that ends inside a comment. -/
def movableParts : List Text :=
  ["/** @category Memory */\nvoid H_2();\nint H_1(".toList,
    "*/ x) /**/\nH_1()".toList,
    "**".toList,
    "/**\n@category Aux */ /* @brief late */\nH_2(a, /* b) */;".toList]

theorem document_flatten_eq_of_perm_movableParts :
    movableParts.Perm movableParts.reverse ∧
      (∀ block ∈ movableParts, Header.SelfContained "H_".toList block) ∧
      ((movableParts.flatMap (Header.extract "H_".toList)).map fun f =>
        (f.effectiveCategory, f.name)).Nodup ∧
      document defaultName (Header.extract "H_".toList movableParts.flatten)
          { generatedAt := ⟨2025, 3, 14, 9, 26, 53, 0⟩ } =
        document defaultName (Header.extract "H_".toList movableParts.reverse.flatten)
          { generatedAt := ⟨2025, 3, 14, 9, 26, 53, 0⟩ } := by
  have hperm : movableParts.Perm movableParts.reverse := (List.reverse_perm _).symm
  have hopen : ∀ block ∈ movableParts,
      ¬ Comment.opener <:+: Header.remainder "H_".toList block := by decide +kernel
  have hslash : ∀ block ∈ movableParts, block.getLast? ≠ some '/' := by decide
  have hblocks : ∀ block ∈ movableParts, Header.SelfContained "H_".toList block :=
    fun block hmem => ⟨hopen block hmem, hslash block hmem⟩
  have hdistinct : ((movableParts.flatMap (Header.extract "H_".toList)).map fun f =>
      (f.effectiveCategory, f.name)).Nodup := by decide +kernel
  exact ⟨hperm, hblocks, hdistinct, document_flatten_eq_of_perm _ _ _ hperm hblocks hdistinct⟩

end TypedExports.Interface
