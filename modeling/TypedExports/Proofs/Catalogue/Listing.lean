import Mathlib.Data.Prod.Lex
import TypedExports.Proofs.Catalogue
import TypedExports.Proofs.Text.Order

/-!
# The sections as one stable sort

A catalogue is made section by section, but a reader who goes through it from
top to bottom meets the items in one order: that of `listingKey`, which looks
at the memory category first, then at the bytes of the category, then at
those of the name. Items that agree in all of these stay in the order in
which they came. `sections_isListing` says so, and that the sections cut the
sorted items exactly where the category changes.

A stable sort is known by what it does to the items of one key: it leaves
their order alone (`filter_mergeSort`), and two sorted lists that agree on the
items of each key are the same (`eq_of_filter_eq`).
-/

namespace TypedExports

/-- Where a category stands: the memory category first, the others by their
bytes. -/
def Catalogue.categoryKey (category : Text) : Bool ×ₗ List ℕ :=
  toLex (decide (category ≠ memoryCategory), Text.octets category)

/-- Where a function stands: by its category, then by the bytes of its name. -/
def ExportedFunction.listingKey (f : ExportedFunction) : (Bool ×ₗ List ℕ) ×ₗ List ℕ :=
  toLex (Catalogue.categoryKey f.effectiveCategory, Text.octets f.name)

namespace Catalogue

/-! ## Stable sorts -/

section StableSort

variable {α κ : Type} {key : α → κ} {l l' : List α}

theorem decide_le_trans [LinearOrder κ] (key : α → κ) (a b c : α)
    (hab : decide (key a ≤ key b) = true) (hbc : decide (key b ≤ key c) = true) :
    decide (key a ≤ key c) = true :=
  decide_eq_true ((of_decide_eq_true hab).trans (of_decide_eq_true hbc))

theorem decide_le_total [LinearOrder κ] (key : α → κ) (a b : α) :
    (decide (key a ≤ key b) || decide (key b ≤ key a)) = true := by
  rw [Bool.or_eq_true, decide_eq_true_eq, decide_eq_true_eq]
  exact le_total (key a) (key b)

theorem pairwise_mergeSort_key [LinearOrder κ] (key : α → κ) (items : List α) :
    (items.mergeSort fun a b => key a ≤ key b).Pairwise fun a b => key a ≤ key b := by
  have hsorted := List.pairwise_mergeSort (decide_le_trans key) (decide_le_total key) items
  exact hsorted.imp of_decide_eq_true

variable [DecidableEq κ]

theorem mem_iff_of_filter_eq (hfilter : ∀ a, l.filter (key · = key a) = l'.filter (key · = key a))
    (a : α) : a ∈ l ↔ a ∈ l' := by
  have hself : ∀ m : List α, a ∈ m ↔ a ∈ m.filter (key · = key a) := by simp
  rw [hself l, hfilter a, ← hself]

variable [LinearOrder κ]

/-- Items of one key are in the sorted list as they were in the given one. -/
theorem filter_mergeSort (key : α → κ) (items : List α) (k : κ) :
    (items.mergeSort fun a b => key a ≤ key b).filter (key · = k) = items.filter (key · = k) := by
  have htied : (items.filter (key · = k)).Pairwise fun a b => decide (key a ≤ key b) = true := by
    apply List.pairwise_of_forall_mem_list
    intro a ha b hb
    rw [List.mem_filter, decide_eq_true_eq] at ha hb
    rw [decide_eq_true_eq, ha.2, hb.2]
  have hkept : (items.filter (key · = k)).Sublist (items.mergeSort fun a b => key a ≤ key b) :=
    List.sublist_mergeSort (decide_le_trans key) (decide_le_total key) htied List.filter_sublist
  have hsub := hkept.filter (key · = k)
  simp only [List.filter_filter, Bool.and_self] at hsub
  have hlen := ((List.mergeSort_perm items fun a b => key a ≤ key b).filter (key · = k)).length_eq
  exact (hsub.eq_of_length hlen.symm).symm

/-- A sorted list is known by its items of each key. -/
theorem eq_of_filter_eq (hl : l.Pairwise fun a b => key a ≤ key b)
    (hl' : l'.Pairwise fun a b => key a ≤ key b)
    (hfilter : ∀ a, l.filter (key · = key a) = l'.filter (key · = key a)) : l = l' := by
  induction l generalizing l' with
  | nil =>
      have hmem := mem_iff_of_filter_eq hfilter
      exact (List.eq_nil_iff_forall_not_mem.mpr fun a ha => by simpa using (hmem a).mpr ha).symm
  | cons a l ih =>
      have hmem := mem_iff_of_filter_eq hfilter
      cases l' with
      | nil => exact absurd ((hmem a).mp List.mem_cons_self) List.not_mem_nil
      | cons b l' =>
          rw [List.pairwise_cons] at hl hl'
          -- each head is in the other list, so neither comes later
          have hab : key a ≤ key b := by
            rcases List.mem_cons.mp ((hmem b).mpr List.mem_cons_self) with rfl | hb
            · exact le_refl _
            · exact hl.1 b hb
          have hba : key b ≤ key a := by
            rcases List.mem_cons.mp ((hmem a).mp List.mem_cons_self) with rfl | ha
            · exact le_refl _
            · exact hl'.1 a ha
          have hkey : key b = key a := le_antisymm hba hab
          have hhead := hfilter a
          rw [List.filter_cons_of_pos (by simp), List.filter_cons_of_pos (by simpa using hkey),
            List.cons.injEq] at hhead
          obtain ⟨rfl, _⟩ := hhead
          have htail : ∀ c, l.filter (key · = key c) = l'.filter (key · = key c) := by
            intro c
            have hc := hfilter c
            rw [List.filter_cons, List.filter_cons] at hc
            split at hc
            · exact (List.cons.inj hc).2
            · exact hc
          rw [ih hl.2 hl'.2 htail]

end StableSort

/-! ## Keys -/

theorem categoryKey_lt {c d : Text} (hle : Text.le c d = true) (hne : c ≠ d)
    (hc : c ≠ memoryCategory) (hd : d ≠ memoryCategory) : categoryKey c < categoryKey d := by
  have hoctets : Text.octets c < Text.octets d :=
    lt_of_le_of_ne (Text.octets_le_iff.mpr hle) fun heq => hne (Text.octets_injective heq)
  rw [categoryKey, categoryKey, Prod.Lex.toLex_lt_toLex]
  exact Or.inr ⟨by simp [hc, hd], hoctets⟩

theorem memory_categoryKey_lt {d : Text} (hd : d ≠ memoryCategory) :
    categoryKey memoryCategory < categoryKey d := by
  rw [categoryKey, categoryKey, Prod.Lex.toLex_lt_toLex]
  exact Or.inl (by simp [hd])

/-- The categories of a catalogue ascend strictly. -/
theorem pairwise_categories (given : List Text) :
    (categories given).Pairwise fun c d => categoryKey c < categoryKey d := by
  have hnodup := nodup_categories given
  rw [categories, List.nodup_append] at hnodup
  obtain ⟨hmemory, hothers, _⟩ := hnodup
  rw [categories, List.pairwise_append]
  refine ⟨?_, ?_, ?_⟩
  · refine List.Pairwise.imp_of_mem ?_ hmemory
    intro c d hc hd hne
    rw [List.mem_filter, decide_eq_true_eq] at hc hd
    exact absurd (hc.2.trans hd.2.symm) hne
  · have htrans : ∀ c d e, Text.le c d = true → Text.le d e = true → Text.le c e = true :=
      fun _ _ _ => Text.le_trans
    have hsorted := List.pairwise_mergeSort htrans Text.le_total
      (given.eraseDups.filter (· ≠ memoryCategory))
    refine List.Pairwise.imp_of_mem ?_ (hsorted.and hothers)
    rintro c d hc hd ⟨hle, hne⟩
    rw [List.mem_mergeSort, List.mem_filter, decide_eq_true_eq] at hc hd
    exact categoryKey_lt hle hne hc.2 hd.2
  · intro c hc d hd
    rw [List.mem_filter, decide_eq_true_eq] at hc
    rw [List.mem_mergeSort, List.mem_filter, decide_eq_true_eq] at hd
    rw [hc.2]
    exact memory_categoryKey_lt hd.2

theorem listingKey_eq_iff {f g : ExportedFunction} :
    f.listingKey = g.listingKey ↔
      f.effectiveCategory = g.effectiveCategory ∧ f.name = g.name := by
  constructor
  · intro heq
    rw [ExportedFunction.listingKey, ExportedFunction.listingKey, categoryKey, categoryKey] at heq
    simp only [toLex_inj, Prod.mk.injEq] at heq
    exact ⟨Text.octets_injective heq.1.2, Text.octets_injective heq.2⟩
  · rintro ⟨hcategory, hname⟩
    rw [ExportedFunction.listingKey, ExportedFunction.listingKey, hcategory, hname]

/-! ## Sections and keys -/

variable {α : Type} {function : α → ExportedFunction} {items : List α}

theorem members_eq_mergeSort (function : α → ExportedFunction) (items : List α)
    (category : Text) :
    members function items category =
      (items.filter fun item => (function item).effectiveCategory = category).mergeSort
        fun a b => Text.octets (function a).name ≤ Text.octets (function b).name := by
  have hle : (fun a b => Text.le (function a).name (function b).name) = fun a b =>
      decide (Text.octets (function a).name ≤ Text.octets (function b).name) := by
    funext a b
    rw [Bool.eq_iff_iff, decide_eq_true_eq, Text.octets_le_iff]
  rw [members, hle]

/-- The members of a section are in the order of their keys. -/
theorem pairwise_members (function : α → ExportedFunction) (items : List α) (category : Text) :
    (members function items category).Pairwise fun a b =>
      (function a).listingKey ≤ (function b).listingKey := by
  have hsorted := pairwise_mergeSort_key (fun item => Text.octets (function item).name)
    (items.filter fun item => (function item).effectiveCategory = category)
  rw [← members_eq_mergeSort] at hsorted
  refine List.Pairwise.imp_of_mem ?_ hsorted
  intro a b ha hb hname
  have hcategory := (mem_members_iff.mp ha).2.trans (mem_members_iff.mp hb).2.symm
  rw [ExportedFunction.listingKey, ExportedFunction.listingKey, Prod.Lex.toLex_le_toLex]
  exact Or.inr ⟨congrArg categoryKey hcategory, hname⟩

theorem pairwise_flatMap_members (function : α → ExportedFunction) (items : List α) :
    ((sections function items).flatMap Section.members).Pairwise fun a b =>
      (function a).listingKey ≤ (function b).listingKey := by
  rw [sections, List.flatMap_map, List.pairwise_flatMap]
  refine ⟨fun category _ => pairwise_members function items category, ?_⟩
  refine (pairwise_categories _).imp ?_
  intro c d hlt a ha b hb
  rw [ExportedFunction.listingKey, ExportedFunction.listingKey, Prod.Lex.toLex_le_toLex,
    (mem_members_iff.mp ha).2, (mem_members_iff.mp hb).2]
  exact Or.inl hlt

/-- A section has the items of a name in the order in which they came. -/
theorem filter_members (function : α → ExportedFunction) (items : List α) (category name : Text) :
    (members function items category).filter (fun item => (function item).name = name) =
      items.filter fun item =>
        (function item).effectiveCategory = category ∧ (function item).name = name := by
  have hname : ∀ item : α, decide ((function item).name = name) =
      decide (Text.octets (function item).name = Text.octets name) := by
    intro item
    rw [decide_eq_decide]
    exact Text.octets_injective.eq_iff.symm
  simp only [hname]
  rw [members_eq_mergeSort,
    filter_mergeSort (fun item => Text.octets (function item).name), List.filter_filter]
  refine List.filter_congr fun item _ => ?_
  simp [Text.octets_injective.eq_iff, and_comm]

/-- What only one of several distinct keys yields is all that they yield. -/
theorem flatMap_eq_of_unique {keys : List Text} (hnodup : keys.Nodup) {k : Text} (hk : k ∈ keys)
    {part : Text → List α} (hpart : ∀ c ∈ keys, c ≠ k → part c = []) :
    keys.flatMap part = part k := by
  obtain ⟨u, v, rfl⟩ := List.append_of_mem hk
  rw [List.nodup_middle, List.nodup_cons, List.mem_append, not_or] at hnodup
  have hu : u.flatMap part = [] := by
    rw [List.flatMap_eq_nil_iff]
    intro c hc
    exact hpart c (List.mem_append_left _ hc) (ne_of_mem_of_not_mem hc hnodup.1.1)
  have hv : v.flatMap part = [] := by
    rw [List.flatMap_eq_nil_iff]
    intro c hc
    exact hpart c (List.mem_append_right _ (List.mem_cons_of_mem _ hc))
      (ne_of_mem_of_not_mem hc hnodup.1.2)
  rw [List.flatMap_append, List.flatMap_cons, hu, hv, List.nil_append, List.append_nil]

/-- So has the whole catalogue. -/
theorem filter_flatMap_members (function : α → ExportedFunction) (items : List α)
    (category name : Text) :
    ((sections function items).flatMap Section.members).filter (fun item =>
        (function item).effectiveCategory = category ∧ (function item).name = name) =
      items.filter fun item =>
        (function item).effectiveCategory = category ∧ (function item).name = name := by
  have hpart : ∀ c, (members function items c).filter (fun item =>
      (function item).effectiveCategory = category ∧ (function item).name = name) =
        if c = category then items.filter fun item =>
          (function item).effectiveCategory = category ∧ (function item).name = name
        else [] := by
    intro c
    by_cases hc : c = category
    · subst hc
      rw [if_pos rfl]
      refine Eq.trans ?_ (filter_members function items c name)
      refine List.filter_congr fun item hitem => ?_
      simp [(mem_members_iff.mp hitem).2]
    · rw [if_neg hc, List.filter_eq_nil_iff]
      intro item hitem
      simp [(mem_members_iff.mp hitem).2, hc]
  rw [sections, List.flatMap_map, List.filter_flatMap]
  simp only [hpart]
  by_cases hmem : category ∈ categories (items.map fun item => (function item).effectiveCategory)
  · rw [flatMap_eq_of_unique (nodup_categories _) hmem fun c _ hne => if_neg hne, if_pos rfl]
  · have hnone : items.filter (fun item =>
        (function item).effectiveCategory = category ∧ (function item).name = name) = [] := by
      rw [List.filter_eq_nil_iff]
      intro item hitem
      rw [decide_eq_true_eq]
      rintro ⟨rfl, _⟩
      exact hmem (mem_categories_iff.mpr (List.mem_map_of_mem hitem))
    rw [hnone]
    simp

theorem flatMap_members_eq_mergeSort (function : α → ExportedFunction) (items : List α) :
    (sections function items).flatMap Section.members =
      items.mergeSort fun a b => (function a).listingKey ≤ (function b).listingKey := by
  have hlisted := pairwise_flatMap_members function items
  have hsorted := pairwise_mergeSort_key (fun item => (function item).listingKey) items
  refine eq_of_filter_eq hlisted hsorted ?_
  intro a
  rw [filter_mergeSort]
  simp only [listingKey_eq_iff]
  exact filter_flatMap_members function items _ _

/-! ## The listing -/

/-- Sections that list the items in the order of their keys, cut where the
category changes. -/
structure IsListing (function : α → ExportedFunction) (items : List α)
    (listed : List (Section α)) : Prop where
  /-- one section after another is the stable sort of the items -/
  sorted : listed.flatMap Section.members =
    items.mergeSort fun a b => (function a).listingKey ≤ (function b).listingKey
  nonempty : ∀ s ∈ listed, s.members ≠ []
  /-- a section holds the items of its category, each as often as it came -/
  members : ∀ s ∈ listed,
    s.members.Perm (items.filter fun item => (function item).effectiveCategory = s.category)
  distinct : (listed.map Section.category).Nodup
  complete : (listed.flatMap Section.members).Perm items
  memory_first : (∃ item ∈ items, (function item).effectiveCategory = memoryCategory) →
    listed.head?.map Section.category = some memoryCategory
  /-- items that agree in category and name keep their order -/
  stable : ∀ category name,
    (listed.flatMap Section.members).filter (fun item =>
        (function item).effectiveCategory = category ∧ (function item).name = name) =
      items.filter fun item =>
        (function item).effectiveCategory = category ∧ (function item).name = name

theorem head?_categories {given : List Text} (h : memoryCategory ∈ given) :
    (categories given).head? = some memoryCategory := by
  have hmem : memoryCategory ∈ given.eraseDups.filter (· = memoryCategory) := by
    rw [List.mem_filter, decide_eq_true_eq]
    exact ⟨List.mem_eraseDups.mpr h, rfl⟩
  have hne := List.ne_nil_of_mem hmem
  rw [categories, List.head?_append_of_ne_nil _ hne, List.head?_eq_some_head hne]
  have hhead := List.head_mem hne
  rw [List.mem_filter, decide_eq_true_eq] at hhead
  rw [hhead.2]

/-- **Listing.** The sections of a catalogue are one stable sort of the items,
cut into its categories. -/
theorem sections_isListing (function : α → ExportedFunction) (items : List α) :
    IsListing function items (sections function items) where
  sorted := flatMap_members_eq_mergeSort function items
  nonempty := by
    intro s hs
    obtain ⟨category, hcategory, rfl⟩ := List.mem_map.mp hs
    obtain ⟨item, hitem, hitems⟩ := List.mem_map.mp (mem_categories_iff.mp hcategory)
    exact List.ne_nil_of_mem (mem_members_iff.mpr ⟨hitem, hitems⟩)
  members := by
    intro s hs
    obtain ⟨category, _, rfl⟩ := List.mem_map.mp hs
    exact members_perm function items category
  distinct := by
    rw [sections, List.map_map]
    show ((categories _).map id).Nodup
    rw [List.map_id]
    exact nodup_categories _
  complete := flatMap_members_perm function items
  memory_first := by
    rintro ⟨item, hitem, hmemory⟩
    rw [sections, List.head?_map, Option.map_map]
    rw [head?_categories (List.mem_map.mpr ⟨item, hitem, hmemory⟩)]
    rfl
  stable := filter_flatMap_members function items

end Catalogue

end TypedExports
