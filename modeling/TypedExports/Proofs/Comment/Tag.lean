import TypedExports.Header.Written
import TypedExports.Proofs.Comment.Basic
import TypedExports.Proofs.Comment.Field

/-!
# Written values and fields

A field that was written is a value that may be written, and cutting it gives
the field back.
-/

namespace TypedExports

instance (value : Text) : Decidable (Tag.IsValue value) :=
  decidable_of_iff (value ≠ [] ∧ Text.trim value = value ∧ Text.lineFeed ∉ value ∧
      ¬ Comment.closer <:+: value)
    ⟨fun ⟨hne, htrim, hline, hcloser⟩ => ⟨hne, htrim, hline, hcloser⟩,
      fun ⟨hne, htrim, hline, hcloser⟩ => ⟨hne, htrim, hline, hcloser⟩⟩

instance (name : Text) : Decidable (Field.IsName name) :=
  decidable_of_iff (name ≠ [] ∧ name.all (!Text.isBlank ·) = true ∧ ¬ Comment.closer <:+: name)
    ⟨fun ⟨hne, hblank, hcloser⟩ => ⟨hne, by simpa using hblank, hcloser⟩,
      fun ⟨hne, hblank, hcloser⟩ => ⟨hne, by simpa using hblank, hcloser⟩⟩

theorem Tag.IsValue.isTrimmed {value : Text} (h : Tag.IsValue value) : Text.Trimmed value :=
  Text.trim_eq_self_iff.mp h.trimmed

namespace Field

/-- A field that was written is cut at its first blank again. -/
theorem split?_written {field : Field} (hname : ∀ c ∈ field.name, Text.isBlank c = false)
    (htext : Text.Trimmed field.text) : split? field.written = some field := by
  refine Divides.split? ⟨⟨[' '], List.cons_ne_nil _ _, Text.isBlank_of_mem_space, ?_⟩, hname,
    htext.head⟩
  rw [written, List.append_assoc, List.singleton_append]

theorem isValue_written {field : Field} (hname : IsName field.name)
    (htext : Tag.IsValue field.text) : Tag.IsValue field.written := by
  refine ⟨by simp [written], ?_, ?_, ?_⟩
  · refine Text.trim_eq_self ⟨?_, ?_⟩
    · intro c hc
      rw [written, List.head?_append_of_ne_nil _ hname.ne_nil] at hc
      exact hname.no_blank c (List.mem_of_mem_head? hc)
    · intro c hc
      rw [written, List.append_cons, List.getLast?_append_of_ne_nil _ htext.ne_nil] at hc
      exact htext.isTrimmed.last c hc
  · rw [written, List.mem_append, List.mem_cons, not_or, not_or]
    refine ⟨?_, by decide, htext.one_line⟩
    intro hmem
    exact absurd (hname.no_blank _ hmem) (by decide)
  · rw [written, List.append_cons]
    refine Comment.not_closer_append ?_ htext.no_closer (Or.inl (by simp))
    exact Comment.not_closer_append hname.no_closer (by decide) (Or.inr (by decide))

end Field

end TypedExports
