import Mathlib.Data.List.Lex
import TypedExports.Text.Encoding

/-!
# The order of texts and the order of bytes

UTF-8 was made so that texts stand in the same order whether they are compared
by code points or by bytes. `octets_le_iff` says so of `Text.le`. A character
with a larger code point has the larger octet where the spellings first
differ (`spelling_lt`); neither spelling can end before that place.
-/

namespace TypedExports.Text

/-- The bytes of a text, as numbers. -/
def octets (s : Text) : List ℕ := (encode s).data.toList.map UInt8.toNat

/-! ## The spelling of one character -/

/-- The octets behind the first one hold six bits each, this one the last. -/
def trailing (v : ℕ) : ℕ := v % 64 + 128

/-- The octets that spell a code point. -/
def spelling (v : ℕ) : List ℕ :=
  if v ≤ 127 then [v]
  else if v ≤ 2047 then [v / 64 + 192, trailing v]
  else if v ≤ 65535 then [v / 64 / 64 + 224, trailing (v / 64), trailing v]
  else [v / 64 / 64 / 64 + 240, trailing (v / 64 / 64), trailing (v / 64), trailing v]

theorem spelling_toNat (c : Char) :
    (String.utf8EncodeChar c).map UInt8.toNat = spelling c.toNat := by
  have hbound : c.toNat < 1114112 := by
    rcases c.valid with hlow | ⟨_, hhigh⟩
    · exact Nat.lt_trans hlow (by decide)
    · exact hhigh
  show (String.utf8EncodeChar c).map UInt8.toNat = spelling c.val.toNat
  change c.val.toNat < 1114112 at hbound
  unfold String.utf8EncodeChar spelling trailing
  generalize c.val.toNat = v at hbound
  dsimp only
  split_ifs <;> simp only [List.map_cons, List.map_nil, UInt8.toNat_ofNat', List.cons.injEq,
    and_true] <;> omega

theorem octets_cons (c : Char) (s : Text) : octets (c :: s) = spelling c.toNat ++ octets s := by
  rw [octets, octets, encode, encode, String.toUTF8_eq_toByteArray, String.toUTF8_eq_toByteArray,
    String.toByteArray_ofList, String.toByteArray_ofList, List.utf8Encode, List.utf8Encode,
    List.data_toByteArray, List.data_toByteArray, List.flatMap_cons, List.map_append,
    spelling_toNat]

/-- The first list comes before the second one whatever follows either. -/
def Precedes (p q : List ℕ) : Prop := ∀ x y, p ++ x < q ++ y

theorem precedes_singleton {m n : ℕ} (h : m < n) (p q : List ℕ) : Precedes (m :: p) (n :: q) :=
  fun _ _ => List.cons_lt_cons_iff.mpr (Or.inl h)

/-- Six more bits decide only between equal numbers of those before them. -/
theorem Precedes.append_trailing {p q : List ℕ} {v w : ℕ} (hlt : v / 64 < w / 64 → Precedes p q)
    (heq : v / 64 = w / 64 → p = q) (h : v < w) :
    Precedes (p ++ [trailing v]) (q ++ [trailing w]) := by
  intro x y
  rw [List.append_assoc, List.append_assoc]
  by_cases hhigh : v / 64 < w / 64
  · exact hlt hhigh _ _
  · have hsame : v / 64 = w / 64 := by omega
    rw [heq hsame]
    apply List.append_left_lt
    apply precedes_singleton
    unfold trailing
    omega

section

variable {v w : ℕ} (k : ℕ)

theorem precedes_two (h : v < w) : Precedes [v / 64 + k, trailing v] [w / 64 + k, trailing w] := by
  refine Precedes.append_trailing (p := [_]) (q := [_]) ?_ ?_ h
  · intro hlt
    exact precedes_singleton (Nat.add_lt_add_right hlt k) [] []
  · intro heq
    rw [heq]

theorem precedes_three (h : v < w) :
    Precedes [v / 64 / 64 + k, trailing (v / 64), trailing v]
      [w / 64 / 64 + k, trailing (w / 64), trailing w] := by
  refine Precedes.append_trailing (p := [_, _]) (q := [_, _]) (precedes_two k) ?_ h
  intro heq
  rw [heq]

theorem precedes_four (h : v < w) :
    Precedes [v / 64 / 64 / 64 + k, trailing (v / 64 / 64), trailing (v / 64), trailing v]
      [w / 64 / 64 / 64 + k, trailing (w / 64 / 64), trailing (w / 64), trailing w] := by
  refine Precedes.append_trailing (p := [_, _, _]) (q := [_, _, _]) (precedes_three k) ?_ h
  intro heq
  rw [heq]

end

/-- Longer spellings start with larger octets, and spellings of one length
are compared by their numbers. -/
theorem spelling_lt {v w : ℕ} (h : v < w) : Precedes (spelling v) (spelling w) := by
  unfold spelling
  split_ifs
  all_goals first
    | exact precedes_two 192 h
    | exact precedes_three 224 h
    | exact precedes_four 240 h
    | exact precedes_singleton (by omega) _ _

theorem spelling_ne_nil (v : ℕ) : spelling v ≠ [] := by
  unfold spelling
  split_ifs <;> exact List.cons_ne_nil _ _

/-! ## Texts -/

theorem octets_lt_of_not_le {s t : Text} (h : le t s = false) : octets s < octets t := by
  induction s generalizing t with
  | nil =>
      cases t with
      | nil => cases h
      | cons d t =>
          obtain ⟨m, ms, hspelling⟩ := List.exists_cons_of_ne_nil (spelling_ne_nil d.toNat)
          rw [octets_cons, hspelling]
          exact List.nil_lt_cons m _
  | cons c s ih =>
      cases t with
      | nil => cases h
      | cons d t =>
          rw [octets_cons, octets_cons]
          rw [le] at h
          by_cases hsame : d = c
          · subst hsame
            rw [if_pos rfl] at h
            exact List.append_left_lt (ih h)
          · have hne : d.toNat ≠ c.toNat := fun heq => hsame (Char.toNat_inj.mp heq)
            rw [if_neg hsame, decide_eq_false_iff_not] at h
            exact spelling_lt (by omega) _ _

/-- **Order of bytes.** Texts stand in the order of their bytes. -/
theorem octets_le_iff {s t : Text} : octets s ≤ octets t ↔ le s t = true := by
  constructor
  · intro hle
    by_contra hnot
    rw [Bool.not_eq_true] at hnot
    exact absurd hle (not_le.mpr (octets_lt_of_not_le hnot))
  · intro hle
    cases hback : le t s with
    | true => rw [le_antisymm hle hback]
    | false => exact (octets_lt_of_not_le hback).le

theorem octets_injective : Function.Injective octets := by
  intro s t heq
  exact le_antisymm (octets_le_iff.mp heq.le) (octets_le_iff.mp heq.ge)

end TypedExports.Text
