import TypedExports.FileSystem.Path
import TypedExports.Proofs.Text.Lenient
import TypedExports.Proofs.Text.Lines

/-!
# Components of paths

A path that is given as a text has texts for components (`splitOn_bytes`). The
last one is what follows the last slash, and the last step along the path goes
to it, unless it stands for a directory.
-/

namespace TypedExports.Path

/-! ## Slashes -/

theorem bytes_slash_cons (s : Text) : Text.bytes ('/' :: s) = slash :: Text.bytes s := rfl

theorem slash_mem_bytes_iff {s : Text} : slash ∈ Text.bytes s ↔ '/' ∈ s :=
  Text.toUInt8_mem_bytes_iff (by decide)

/-- The text and its bytes are cut at the same slashes. -/
theorem splitOn_bytes (s : Text) :
    (Text.bytes s).splitOn slash = (s.splitOn '/').map Text.bytes := by
  by_cases hslash : '/' ∈ s
  · obtain ⟨front, rest, hs, hfront⟩ := List.eq_append_cons_of_mem hslash
    have hbytes : slash ∉ Text.bytes front := mt slash_mem_bytes_iff.mp hfront
    rw [hs, Text.bytes_append, bytes_slash_cons, List.splitOn_append_cons_self,
      List.splitOn_append_cons_self, List.splitOn_eq_singleton hbytes,
      List.splitOn_eq_singleton hfront, splitOn_bytes rest]
    rfl
  · rw [List.splitOn_eq_singleton hslash,
      List.splitOn_eq_singleton (mt slash_mem_bytes_iff.mp hslash)]
    rfl
termination_by s.length
decreasing_by
  rw [hs, List.length_append, List.length_cons]
  omega

theorem Step.eq_of_ofComponent {component name : Bytes}
    (h : Step.ofComponent component = .into name) : component = name := by
  unfold Step.ofComponent at h
  split at h
  · cases h
  · split at h
    · cases h
    · cases h
      rfl

/-- The name of what a path leads to is one component of it. -/
theorem exists_component_of_fileName? {s : Text} {name : Bytes}
    (h : (parse (Text.bytes s)).fileName? = some name) :
    ∃ component, '/' ∉ component ∧ name = Text.bytes component := by
  unfold fileName? at h
  split at h
  · next last hlast =>
      cases h
      have hstep := List.mem_of_mem_filter (List.mem_of_getLast? hlast)
      rw [parse, splitOn_bytes, List.mem_map] at hstep
      obtain ⟨_, hcomponent, hname⟩ := hstep
      obtain ⟨component, hmem, rfl⟩ := List.mem_map.mp (List.mem_of_mem_filter hcomponent)
      exact ⟨component, (Text.mem_splitOn hmem).1, (Step.eq_of_ofComponent hname).symm⟩
  · cases h

/-! ## The last component -/

/-- What follows the last slash of a path, or the whole path if it has none. -/
structure IsLastComponent (path name : Text) : Prop where
  ne_nil : name ≠ []
  no_slash : '/' ∉ name
  ends : path = name ∨ ∃ front, path = front ++ '/' :: name

theorem exists_lastComponent {path : Text} (hne : path ≠ []) (hlast : path.getLast? ≠ some '/') :
    ∃ name, IsLastComponent path name := by
  by_cases hslash : '/' ∈ path
  · obtain ⟨name, front, hpath, hname⟩ :=
      List.eq_append_cons_of_mem (List.mem_reverse.mpr hslash)
    rw [List.reverse_eq_iff, List.reverse_append, List.reverse_cons, List.append_assoc,
      List.singleton_append] at hpath
    refine ⟨name.reverse, ?_, by simpa using hname, Or.inr ⟨front.reverse, hpath⟩⟩
    intro hnil
    rw [hpath, hnil] at hlast
    exact hlast List.getLast?_concat
  · exact ⟨path, hne, hslash, Or.inl rfl⟩

/-- The last step along a path is the one of its last component. -/
theorem IsLastComponent.steps_parse {path name : Text} (h : IsLastComponent path name) :
    ∃ steps, (parse (Text.bytes path)).steps = steps ++ [Step.ofComponent (Text.bytes name)] := by
  have hname : ([Text.bytes name].filter (· ≠ [])) = [Text.bytes name] := by
    simp [Text.bytes_eq_nil_iff, h.ne_nil]
  have hslash : slash ∉ Text.bytes name := mt slash_mem_bytes_iff.mp h.no_slash
  rcases h.ends with rfl | ⟨front, rfl⟩
  · refine ⟨[], ?_⟩
    rw [parse, List.splitOn_eq_singleton hslash, hname]
    rfl
  · refine ⟨(((Text.bytes front).splitOn slash).filter (· ≠ [])).map Step.ofComponent, ?_⟩
    rw [parse, Text.bytes_append, bytes_slash_cons, List.splitOn_append_cons_self,
      List.splitOn_eq_singleton hslash, List.filter_append, List.map_append, hname]
    rfl

end TypedExports.Path
