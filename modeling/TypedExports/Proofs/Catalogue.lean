import Mathlib.Data.List.Nodup
import Mathlib.Data.List.Perm.Basic
import TypedExports.Catalogue

/-!
# The sections hold the items

The categories of a catalogue are the distinct categories of its items, so
that each item stands in exactly one section: the sections one after another
are a rearrangement of the items (`flatMap_members_perm`).

Sorting keeps the order of items only where it cannot tell them apart. Items
of which no two share category and name are listed alike in whatever order
they come (`sections_eq_of_perm`).
-/

namespace TypedExports.Catalogue

/-! ## The categories -/

theorem nodup_eraseDups {α : Type} [BEq α] [LawfulBEq α] (values : List α) :
    values.eraseDups.Nodup := by
  match values with
  | [] => exact List.nodup_nil
  | value :: values =>
      have hshorter := List.length_filter_le (fun other => !other == value) values
      rw [List.eraseDups_cons, List.nodup_cons]
      refine ⟨?_, nodup_eraseDups _⟩
      rw [List.mem_eraseDups, List.mem_filter]
      simp
termination_by values.length
decreasing_by
  simp only [List.length_cons]
  omega

theorem mem_categories_iff {given : List Text} {category : Text} :
    category ∈ categories given ↔ category ∈ given := by
  by_cases hmemory : category = memoryCategory <;>
    simp [categories, List.mem_mergeSort, List.mem_eraseDups, hmemory]

theorem nodup_categories (given : List Text) : (categories given).Nodup := by
  have hdistinct := nodup_eraseDups given
  refine (hdistinct.filter _).append (List.nodup_mergeSort.mpr (hdistinct.filter _)) ?_
  intro category hmemory hother
  rw [List.mem_mergeSort, List.mem_filter, decide_eq_true_eq] at hother
  rw [List.mem_filter, decide_eq_true_eq] at hmemory
  exact hother.2 hmemory.2

/-! ## The members -/

variable {α : Type} {function : α → ExportedFunction} {items : List α}

theorem mem_members_iff {category : Text} {item : α} :
    item ∈ members function items category ↔
      item ∈ items ∧ (function item).effectiveCategory = category := by
  rw [members, List.mem_mergeSort, List.mem_filter, decide_eq_true_eq]

theorem members_perm (function : α → ExportedFunction) (items : List α) (category : Text) :
    (members function items category).Perm
      (items.filter fun item => (function item).effectiveCategory = category) :=
  List.mergeSort_perm _ _

theorem mem_of_mem_sections {s : Section α} (h : s ∈ sections function items) :
    (∃ item ∈ items, (function item).effectiveCategory = s.category) ∧
      ∀ item ∈ s.members, item ∈ items := by
  obtain ⟨category, hcategory, rfl⟩ := List.mem_map.mp h
  exact ⟨List.mem_map.mp (mem_categories_iff.mp hcategory),
    fun item hitem => (mem_members_iff.mp hitem).1⟩

/-! ## Each item in one section -/

/-- Items taken out by distinct keys, among them their own, are all the items. -/
theorem flatMap_filter_perm (key : α → Text) {keys : List Text} (hnodup : keys.Nodup)
    (items : List α) (hkeys : ∀ item ∈ items, key item ∈ keys) :
    (keys.flatMap fun k => items.filter (key · = k)).Perm items := by
  induction keys generalizing items with
  | nil =>
      have : items = [] := List.eq_nil_iff_forall_not_mem.mpr fun item hitem =>
        absurd (hkeys item hitem) List.not_mem_nil
      rw [this, List.flatMap_nil]
  | cons k keys ih =>
      rw [List.nodup_cons] at hnodup
      have hrest : ∀ item ∈ items.filter (fun item => !decide (key item = k)), key item ∈ keys := by
        intro item hitem
        obtain ⟨hitem, hne⟩ := List.mem_filter.mp hitem
        exact (List.mem_cons.mp (hkeys item hitem)).resolve_left (by simpa using hne)
      -- the other keys take nothing away from `k`
      have hfilter : ∀ k' ∈ keys, items.filter (key · = k') =
          (items.filter fun item => !decide (key item = k)).filter (key · = k') := by
        intro k' hk'
        rw [List.filter_filter]
        refine List.filter_congr fun item _ => ?_
        by_cases hkey : key item = k'
        · have hne : k' ≠ k := fun heq => hnodup.1 (heq ▸ hk')
          simp [hkey, hne]
        · simp [hkey]
      rw [List.flatMap_cons, List.flatMap_congr hfilter]
      exact ((ih hnodup.2 _ hrest).append_left _).trans (List.filter_append_perm _ items)

theorem flatMap_members_perm (function : α → ExportedFunction) (items : List α) :
    ((sections function items).flatMap Section.members).Perm items := by
  have hmembers : ((sections function items).flatMap Section.members).Perm
      ((categories (items.map fun item => (function item).effectiveCategory)).flatMap
        fun category => items.filter fun item => (function item).effectiveCategory = category) := by
    rw [sections, List.flatMap_map]
    exact List.Perm.flatMap_left _ fun category _ => members_perm function items category
  refine hmembers.trans (flatMap_filter_perm _ (nodup_categories _) items ?_)
  intro item hitem
  exact mem_categories_iff.mpr (List.mem_map_of_mem hitem)

/-! ## Rearranged items -/

/-- Sorting forgets the order of items that the comparison tells apart. -/
theorem mergeSort_eq_of_perm (le : α → α → Bool)
    (htrans : ∀ a b c, le a b = true → le b c = true → le a c = true)
    (htotal : ∀ a b, (le a b || le b a) = true) {values values' : List α}
    (hperm : values.Perm values')
    (hanti : ∀ a ∈ values, ∀ b ∈ values, le a b = true → le b a = true → a = b) :
    values.mergeSort le = values'.mergeSort le := by
  have hsorted := List.pairwise_mergeSort htrans htotal
  refine List.Perm.eq_of_pairwise ?_ (hsorted values) (hsorted values') ?_
  · intro a b ha hb
    rw [List.mem_mergeSort] at ha hb
    exact hanti a ha b (hperm.mem_iff.mpr hb)
  · exact (List.mergeSort_perm _ _).trans (hperm.trans (List.mergeSort_perm _ _).symm)

theorem categories_eq_of_perm {given given' : List Text} (hperm : given.Perm given') :
    categories given = categories given' := by
  have hdistinct : given.eraseDups.Perm given'.eraseDups := by
    rw [List.perm_ext_iff_of_nodup (nodup_eraseDups _) (nodup_eraseDups _)]
    intro category
    rw [List.mem_eraseDups, List.mem_eraseDups, hperm.mem_iff]
  have hmemory : given.eraseDups.filter (· = memoryCategory) =
      given'.eraseDups.filter (· = memoryCategory) := by
    -- all that is left on either side is the one category
    refine List.Perm.eq_of_pairwise (fun a b ha hb _ _ => ?_)
      (List.pairwise_of_forall fun _ _ => trivial) (List.pairwise_of_forall fun _ _ => trivial)
      (hdistinct.filter _)
    rw [List.mem_filter, decide_eq_true_eq] at ha hb
    rw [ha.2, hb.2]
  have hothers := mergeSort_eq_of_perm Text.le (fun _ _ _ => Text.le_trans) Text.le_total
    (hdistinct.filter (· ≠ memoryCategory)) fun _ _ _ _ => Text.le_antisymm
  rw [categories, categories, hmemory, hothers]

theorem members_eq_of_perm {items' : List α} (hperm : items.Perm items')
    (hdistinct : (items.map fun item =>
      ((function item).effectiveCategory, (function item).name)).Nodup) (category : Text) :
    members function items category = members function items' category := by
  rw [members, members]
  refine mergeSort_eq_of_perm _ ?_ ?_ (hperm.filter _) ?_
  · exact fun _ _ _ => Text.le_trans
  · exact fun _ _ => Text.le_total _ _
  · intro a ha b hb hab hba
    rw [List.mem_filter, decide_eq_true_eq] at ha hb
    refine List.inj_on_of_nodup_map hdistinct ha.1 hb.1 ?_
    rw [ha.2, hb.2, Text.le_antisymm hab hba]

/-- The sections of items with distinct categories and names do not depend on
the order of the items. -/
theorem sections_eq_of_perm {items' : List α} (hperm : items.Perm items')
    (hdistinct : (items.map fun item =>
      ((function item).effectiveCategory, (function item).name)).Nodup) :
    sections function items = sections function items' := by
  rw [sections, sections, categories_eq_of_perm (hperm.map _)]
  refine List.map_congr_left fun category _ => ?_
  rw [members_eq_of_perm hperm hdistinct]

end TypedExports.Catalogue
