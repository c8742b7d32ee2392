import Mathlib.Data.List.Induction
import Mathlib.Data.List.Sort
import Std.Data.TreeMap.Lemmas
import TypedExports.Proofs.Catalogue

/-!
# Sections by grouping

A catalogue can be made in one pass: each item is put behind the others of its
category in a map that is ordered by category, then the memory functions are
taken out and put in front, and each group is sorted by name. What comes out
are the sections (`sections_eq_ofGroups`).
-/

namespace TypedExports

/-! ## Texts as keys -/

def Text.compare (s t : Text) : Ordering :=
  if s = t then .eq else if le s t then .lt else .gt

theorem Text.isLE_compare {s t : Text} : (compare s t).isLE = le s t := by
  unfold compare
  split
  · next heq =>
      subst heq
      simpa using (le_total s s).symm
  · cases le s t <;> rfl

theorem Text.compare_eq_eq_iff {s t : Text} : compare s t = .eq ↔ s = t := by
  unfold compare
  split
  · next heq => simp [heq]
  · next hne => cases le s t <;> simp [hne]

theorem Text.compare_eq_lt_iff {s t : Text} : compare s t = .lt ↔ le s t = true ∧ s ≠ t := by
  unfold compare
  split
  · next heq => simp [heq]
  · next hne => cases le s t <;> simp [hne]

instance : Std.TransCmp Text.compare where
  eq_swap := by
    intro s t
    by_cases heq : s = t
    · rw [Text.compare_eq_eq_iff.mpr heq, Text.compare_eq_eq_iff.mpr heq.symm]
      rfl
    · have htotal := Text.le_total s t
      have hanti := fun h h' => heq (Text.le_antisymm (s := s) (t := t) h h')
      unfold Text.compare
      rw [if_neg heq, if_neg (Ne.symm heq)]
      cases hst : Text.le s t <;> cases hts : Text.le t s <;> simp_all
  isLE_trans := by
    intro s t u
    rw [Text.isLE_compare, Text.isLE_compare, Text.isLE_compare]
    exact Text.le_trans

instance : Std.LawfulEqCmp Text.compare where
  compare_self := Text.compare_eq_eq_iff.mpr rfl
  eq_of_compare := Text.compare_eq_eq_iff.mp

namespace Catalogue

/-! ## Groups -/

/-- The items by category, each group in the order in which its items came. -/
abbrev Groups (α : Type) := Std.TreeMap Text (List α) Text.compare

variable {α : Type} (function : α → ExportedFunction)

/-- Puts an item behind those of its category. -/
def Groups.push (groups : Groups α) (item : α) : Groups α :=
  groups.alter (function item).effectiveCategory fun group => some (group.getD [] ++ [item])

def Groups.ofItems (items : List α) : Groups α := items.foldl (Groups.push function) ∅

def sortedSection (group : Text × List α) : Section α :=
  ⟨group.1, group.2.mergeSort fun a b => Text.le (function a).name (function b).name⟩

/-- The sections, made from the groups: the memory functions first, then what
is left without them. -/
def ofGroups (items : List α) : List (Section α) :=
  let groups := Groups.ofItems function items
  let memory := groups[memoryCategory]?.map (memoryCategory, ·)
  (memory.toList ++ (groups.erase memoryCategory).toList).map (sortedSection function)

/-- The items of a category. -/
def itemsOf (items : List α) (category : Text) : List α :=
  items.filter fun item => (function item).effectiveCategory = category

variable {function} {items : List α} {category : Text} {group : List α}

theorem itemsOf_concat (item : α) :
    itemsOf function (items ++ [item]) category =
      if (function item).effectiveCategory = category then itemsOf function items category ++ [item]
      else itemsOf function items category := by
  rw [itemsOf, itemsOf, List.filter_append]
  by_cases hcategory : (function item).effectiveCategory = category
  · simp [hcategory]
  · simp [hcategory]

theorem itemsOf_ne_nil_iff :
    itemsOf function items category ≠ [] ↔
      category ∈ items.map fun item => (function item).effectiveCategory := by
  rw [itemsOf, Ne, List.filter_eq_nil_iff, List.mem_map]
  simp

/-- The group of a category holds its items, and there is none without items. -/
theorem getElem?_ofItems (items : List α) (category : Text) :
    (Groups.ofItems function items)[category]? =
      if itemsOf function items category = [] then none
      else some (itemsOf function items category) := by
  induction items using List.reverseRecOn with
  | nil => exact Std.TreeMap.getElem?_emptyc
  | append_singleton items item ih =>
      rw [Groups.ofItems, List.foldl_append, List.foldl_cons, List.foldl_nil, Groups.push,
        Std.TreeMap.getElem?_alter, itemsOf_concat]
      by_cases hcategory : (function item).effectiveCategory = category
      · subst hcategory
        rw [if_pos (Text.compare_eq_eq_iff.mpr rfl), if_pos rfl, ← Groups.ofItems, ih]
        by_cases hnil : itemsOf function items (function item).effectiveCategory = []
        · simp [hnil]
        · simp [hnil]
      · rw [if_neg (mt Text.compare_eq_eq_iff.mp hcategory), if_neg hcategory, ← Groups.ofItems, ih]

theorem getElem?_ofItems_eq_some_iff :
    (Groups.ofItems function items)[category]? = some group ↔
      (category ∈ items.map fun item => (function item).effectiveCategory) ∧
        group = itemsOf function items category := by
  rw [getElem?_ofItems, ← itemsOf_ne_nil_iff]
  by_cases hnil : itemsOf function items category = []
  · simp [hnil]
  · simp [hnil, eq_comm]

/-! ## Sections -/

/-- Groups that ascend by their categories are the same if they have the same members. -/
theorem eq_of_ascending {groups groups' : List (Text × List α)}
    (h : groups.Pairwise fun a b => Text.compare a.1 b.1 = .lt)
    (h' : groups'.Pairwise fun a b => Text.compare a.1 b.1 = .lt)
    (hmem : ∀ group, group ∈ groups ↔ group ∈ groups') : groups = groups' := by
  have hnodup : ∀ l : List (Text × List α),
      (l.Pairwise fun a b => Text.compare a.1 b.1 = .lt) → l.Nodup := by
    intro l hl
    refine hl.imp fun {a b} hlt heq => ?_
    rw [heq] at hlt
    exact (Text.compare_eq_lt_iff.mp hlt).2 rfl
  refine List.Perm.eq_of_pairwise (fun a b _ _ hab hba => ?_) h h'
    ((List.perm_ext_iff_of_nodup (hnodup _ h) (hnodup _ h')).mpr hmem)
  obtain ⟨hle, hne⟩ := Text.compare_eq_lt_iff.mp hab
  exact absurd (Text.le_antisymm hle (Text.compare_eq_lt_iff.mp hba).1) hne

theorem ascending_mergeSort {names : List Text} (h : names.Nodup) :
    (names.mergeSort Text.le).Pairwise fun a b => Text.compare a b = .lt := by
  have hsorted :=
    @List.pairwise_mergeSort _ Text.le (fun _ _ _ => Text.le_trans) Text.le_total names
  have hnodup : (names.mergeSort Text.le).Nodup := List.nodup_mergeSort.mpr h
  exact (hsorted.and hnodup).imp Text.compare_eq_lt_iff.mpr

/-- The group that is taken out is the one for the category, if it occurs. -/
theorem toList_getElem?_ofItems (category : Text) :
    ((Groups.ofItems function items)[category]?.map (category, ·)).toList =
      ((items.map fun item => (function item).effectiveCategory).eraseDups.filter
        (· = category)).map fun category => (category, itemsOf function items category) := by
  rw [List.filter_eq, (nodup_eraseDups _).count]
  simp only [List.mem_eraseDups, ← itemsOf_ne_nil_iff, getElem?_ofItems]
  by_cases hnil : itemsOf function items category = []
  · simp [hnil]
  · simp [hnil]

/-- The groups that are left without one category come in the order of theirs. -/
theorem toList_erase_ofItems (category : Text) :
    ((Groups.ofItems function items).erase category).toList =
      (((items.map fun item => (function item).effectiveCategory).eraseDups.filter
        (· ≠ category)).mergeSort Text.le).map
          fun category => (category, itemsOf function items category) := by
  refine eq_of_ascending Std.TreeMap.ordered_keys_toList ?_ fun group => ?_
  · rw [List.pairwise_map]
    exact ascending_mergeSort ((nodup_eraseDups _).filter _)
  · obtain ⟨name, group⟩ := group
    rw [Std.TreeMap.mem_toList_iff_getElem?_eq_some, Std.TreeMap.getElem?_erase, List.mem_map]
    by_cases hcategory : category = name
    · subst hcategory
      rw [if_pos (Text.compare_eq_eq_iff.mpr rfl)]
      constructor
      · rintro ⟨⟩
      · rintro ⟨other, hother, hgroup⟩
        cases hgroup
        simp [List.mem_mergeSort] at hother
    · rw [if_neg (mt Text.compare_eq_eq_iff.mp hcategory), getElem?_ofItems_eq_some_iff]
      simp only [List.mem_mergeSort, List.mem_filter, List.mem_eraseDups, decide_eq_true_eq]
      constructor
      · rintro ⟨hmem, rfl⟩
        exact ⟨name, ⟨hmem, Ne.symm hcategory⟩, rfl⟩
      · rintro ⟨other, ⟨hmem, _⟩, hgroup⟩
        cases hgroup
        exact ⟨hmem, rfl⟩

/-- Grouping in one pass makes the sections. -/
theorem sections_eq_ofGroups (function : α → ExportedFunction) (items : List α) :
    sections function items = ofGroups function items := by
  rw [sections, categories, ofGroups]
  rw [toList_getElem?_ofItems, toList_erase_ofItems, List.map_append, List.map_append,
    List.map_map, List.map_map]
  rfl

end Catalogue

end TypedExports
