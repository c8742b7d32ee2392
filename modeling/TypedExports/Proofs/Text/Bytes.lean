import TypedExports.Proofs.Text.Order
import TypedExports.Proofs.Text.Search

/-!
# Offsets in bytes

A text can be cut at an offset in bytes if the offset lies between two of its
characters, and nowhere else (`splitBytes_eq_ok_iff`). The bytes of a mark of
ASCII characters occur only where the mark itself stands
(`standsAt_iff`), for no octet inside the spelling of a character is that of
an ASCII character. So a search for such a mark comes out between two
characters, and finds the first place where its bytes are.
-/

namespace TypedExports.Text

@[simp] theorem byteLength_append (s t : Text) :
    byteLength (s ++ t) = byteLength s + byteLength t := by
  simp [byteLength, encode]

theorem byteLength_cons (c : Char) (s : Text) :
    byteLength (c :: s) = c.utf8Size + byteLength s := by
  rw [← List.singleton_append, byteLength_append]
  simp [byteLength, encode, List.utf8Encode]

theorem length_octets (s : Text) : (octets s).length = byteLength s := by
  simp [octets, byteLength]

theorem eq_nil_of_byteLength {s : Text} (h : byteLength s = 0) : s = [] := by
  cases s with
  | nil => rfl
  | cons c s =>
      have := c.utf8Size_pos
      rw [byteLength_cons] at h
      omega

theorem byteLength_mono {s t : Text} (h : s <+: t) : byteLength s ≤ byteLength t := by
  obtain ⟨r, rfl⟩ := h
  rw [byteLength_append]
  exact Nat.le_add_right _ _

/-- A split of `u ++ s` that comes no fewer bytes in than `u` is a split of
`s`. -/
theorem exists_append_of_byteLength_le {u s a r : Text} (h : u ++ s = a ++ r)
    (hle : byteLength u ≤ byteLength a) : ∃ v, a = u ++ v ∧ s = v ++ r := by
  refine exists_append_of_le h ?_
  by_contra hlt
  have hpre : a <+: u :=
    List.prefix_of_prefix_length_le ⟨r, h.symm⟩ (List.prefix_append u s) (by omega)
  obtain ⟨v, rfl⟩ := hpre
  rw [byteLength_append] at hle
  have hv : v = [] := eq_nil_of_byteLength (by omega)
  simp [hv] at hlt

/-! ## Cutting at an offset -/

/-- The offset lies at an end of the text or between two characters. -/
def IsBoundary (s : Text) (i : Nat) : Prop := ∃ a b, s = a ++ b ∧ i = byteLength a

/-- Why a text cannot be cut. -/
inductive Misplaced where
  /-- the offset is larger than the text -/
  | behindEnd
  /-- the offset lies between two bytes of one character -/
  | insideCharacter
  /-- the piece would end before it starts -/
  | reversed
  deriving DecidableEq, Repr

/-- The text up to an offset and from there on. -/
def splitBytes : Text → Nat → Except Misplaced (Text × Text)
  | s, 0 => .ok ([], s)
  | [], _ + 1 => .error .behindEnd
  | c :: s, n + 1 =>
    if c.utf8Size ≤ n + 1 then do
      let (before, behind) ← splitBytes s (n + 1 - c.utf8Size)
      return (c :: before, behind)
    else .error .insideCharacter

/-- The piece of a text between two offsets. -/
def sliceBytes (s : Text) (i j : Nat) : Except Misplaced Text :=
  if j < i then .error .reversed
  else do
    let (_, behind) ← s.splitBytes i
    let (piece, _) ← behind.splitBytes (j - i)
    return piece

@[simp] theorem splitBytes_append (a b : Text) :
    (a ++ b).splitBytes (byteLength a) = .ok (a, b) := by
  induction a with
  | nil => cases b <;> rfl
  | cons c a ih =>
      have hpos := c.utf8Size_pos
      obtain ⟨n, hn⟩ : ∃ n, byteLength (c :: a) = n + 1 :=
        ⟨byteLength (c :: a) - 1, by rw [byteLength_cons]; omega⟩
      have hrest : n + 1 - c.utf8Size = byteLength a := by
        rw [← hn, byteLength_cons]
        omega
      have hle : c.utf8Size ≤ n + 1 := by
        rw [← hn, byteLength_cons]
        omega
      rw [hn, List.cons_append, splitBytes, if_pos hle, hrest, ih]
      rfl

/-- A text is cut exactly where characters meet. -/
theorem splitBytes_eq_ok_iff {s a b : Text} {i : Nat} :
    s.splitBytes i = .ok (a, b) ↔ s = a ++ b ∧ i = byteLength a := by
  constructor
  · fun_induction splitBytes s i generalizing a with
    | case1 s =>
        intro h
        cases h
        exact ⟨rfl, rfl⟩
    | case2 n => intro h; cases h
    | case3 c s n hle ih =>
        intro h
        cases hsplit : splitBytes s (n + 1 - c.utf8Size) with
        | error why =>
            rw [hsplit] at h
            cases h
        | ok parts =>
            obtain ⟨before, behind⟩ := parts
            rw [hsplit] at h
            cases h
            obtain ⟨rfl, hlen⟩ := ih hsplit
            refine ⟨rfl, ?_⟩
            rw [byteLength_cons]
            omega
    | case4 => intro h; cases h
  · rintro ⟨rfl, rfl⟩
    exact splitBytes_append a b

theorem sliceBytes_append (a b r : Text) :
    (a ++ b ++ r).sliceBytes (byteLength a) (byteLength (a ++ b)) = .ok b := by
  have hle : ¬ byteLength (a ++ b) < byteLength a := by simp
  rw [sliceBytes, if_neg hle, List.append_assoc, splitBytes_append, byteLength_append,
    Nat.add_sub_cancel_left]
  show (do let (piece, _) ← (b ++ r).splitBytes (byteLength b); return piece) = _
  rw [splitBytes_append]
  rfl

/-! ## The bytes of a mark -/

/-- The bytes of the mark stand at the offset. -/
def StandsAt (mark s : Text) (i : Nat) : Prop := octets mark <+: (octets s).drop i

/-- Characters with one octet, which is their code point. -/
def IsAscii (s : Text) : Prop := ∀ c ∈ s, c.toNat ≤ 127

theorem spelling_ascii {v : ℕ} (h : v ≤ 127) : spelling v = [v] := if_pos h

/-- No octet of another character is the one of an ASCII character. -/
theorem lt_of_mem_spelling {v : ℕ} (h : 127 < v) : ∀ o ∈ spelling v, 127 < o := by
  unfold spelling trailing
  split_ifs
  all_goals
    simp only [List.mem_cons, List.not_mem_nil, or_false, forall_eq_or_imp, forall_eq]
    omega

theorem length_spelling (c : Char) : (spelling c.toNat).length = c.utf8Size := by
  have hlen := length_octets [c]
  rw [octets_cons, byteLength_cons] at hlen
  simpa [octets, byteLength, encode] using hlen

/-- Inside a character stands no octet of an ASCII character. -/
theorem exists_drop_spelling {c : Char} {i : ℕ} (hpos : i ≠ 0) (hlt : i < c.utf8Size) :
    ∃ o os, (spelling c.toNat).drop i = o :: os ∧ 127 < o := by
  have hc : 127 < c.toNat := by
    by_contra hascii
    have hone := length_spelling c
    rw [spelling_ascii (Nat.le_of_not_lt hascii), List.length_singleton] at hone
    omega
  have hne : (spelling c.toNat).drop i ≠ [] := by
    rw [ne_eq, List.drop_eq_nil_iff, length_spelling]
    omega
  obtain ⟨o, os, hdrop⟩ := List.exists_cons_of_ne_nil hne
  exact ⟨o, os, hdrop, lt_of_mem_spelling hc o (List.mem_of_mem_drop (hdrop ▸ List.mem_cons_self))⟩

theorem octets_nil : octets [] = [] := rfl

theorem octets_append (s t : Text) : octets (s ++ t) = octets s ++ octets t := by
  induction s with
  | nil => rfl
  | cons c s ih => rw [List.cons_append, octets_cons, octets_cons, ih, List.append_assoc]

section Marks

variable {mark s : Text} {i : Nat}

theorem prefix_of_octets (hmark : IsAscii mark) (h : octets mark <+: octets s) : mark <+: s := by
  induction mark generalizing s with
  | nil => exact List.nil_prefix
  | cons m mark ih =>
      obtain ⟨hm, hmark⟩ := List.forall_mem_cons.mp hmark
      rw [octets_cons, spelling_ascii hm] at h
      cases s with
      | nil => simp [octets_nil] at h
      | cons c s =>
          rw [octets_cons] at h
          by_cases hc : c.toNat ≤ 127
          · rw [spelling_ascii hc, List.singleton_append, List.singleton_append,
              List.cons_prefix_cons, Char.toNat_inj] at h
            rw [h.1]
            exact (List.prefix_cons_inj c).mpr (ih hmark h.2)
          · obtain ⟨o, os, hspelling⟩ := List.exists_cons_of_ne_nil (spelling_ne_nil c.toNat)
            have ho := lt_of_mem_spelling (Nat.lt_of_not_le hc) o (hspelling ▸ List.mem_cons_self)
            rw [hspelling, List.singleton_append, List.cons_append, List.cons_prefix_cons] at h
            omega

/-- The bytes of an ASCII mark stand only where the mark stands. -/
theorem standsAt_iff (hne : mark ≠ []) (hmark : IsAscii mark) :
    StandsAt mark s i ↔ ∃ a r, s = a ++ mark ++ r ∧ i = byteLength a := by
  constructor
  · intro h
    obtain ⟨m, mark, rfl⟩ := List.exists_cons_of_ne_nil hne
    -- on the text: a character that is passed over takes its bytes off the offset
    induction s generalizing i with
    | nil => simp [StandsAt, octets_nil, octets_cons, spelling_ne_nil] at h
    | cons c s ih =>
        rw [StandsAt, octets_cons c s, List.drop_append, length_spelling] at h
        by_cases hsize : c.utf8Size ≤ i
        · -- the character is passed over
          rw [List.drop_eq_nil_of_le (by rwa [length_spelling]), List.nil_append] at h
          obtain ⟨a, r, rfl, hi⟩ := ih h
          refine ⟨c :: a, r, rfl, ?_⟩
          rw [byteLength_cons]
          omega
        · by_cases hi : i = 0
          · subst hi
            rw [List.drop_zero, Nat.zero_sub, List.drop_zero, ← octets_cons] at h
            obtain ⟨r, hr⟩ := prefix_of_octets hmark h
            exact ⟨[], r, hr.symm, rfl⟩
          · -- inside a character no octet is the one that the mark starts with
            obtain ⟨o, os, hdrop, ho⟩ := exists_drop_spelling hi (Nat.lt_of_not_le hsize)
            have hm := hmark m List.mem_cons_self
            rw [octets_cons, spelling_ascii hm, hdrop, List.singleton_append, List.cons_append,
              List.cons_prefix_cons] at h
            omega
  · rintro ⟨a, r, rfl, rfl⟩
    rw [StandsAt, octets_append, octets_append, List.append_assoc, ← length_octets,
      List.drop_left]
    exact List.prefix_append _ _

end Marks

/-! ## The search from an offset on -/

/-- Where the mark stands first, from an offset on. -/
def findBytes (s mark : Text) (i : Nat) : Except Misplaced (Option Nat) := do
  let (_, ahead) ← s.splitBytes i
  return (cut? mark ahead).map fun found => i + byteLength found.1

/-- The mark stands at `j`, and at no offset between `i` and `j`. -/
structure FirstAt (mark s : Text) (i j : Nat) : Prop where
  le : i ≤ j
  standsAt : StandsAt mark s j
  first : ∀ k, i ≤ k → StandsAt mark s k → j ≤ k

section Search

variable {mark u s a r : Text} {i j j' : Nat}

theorem FirstAt.unique (h : FirstAt mark s i j) (h' : FirstAt mark s i j') : j = j' :=
  Nat.le_antisymm (h.first j' h'.le h'.standsAt) (h'.first j h.le h.standsAt)

theorem findBytes_append (mark u s : Text) :
    (u ++ s).findBytes mark (byteLength u) =
      .ok ((cut? mark s).map fun found => byteLength (u ++ found.1)) := by
  simp only [findBytes, splitBytes_append, byteLength_append]
  rfl

/-- The mark that is found cuts the whole text as well. -/
theorem append_eq_of_cut? (h : cut? mark s = some (a, r)) (u : Text) :
    u ++ s = u ++ a ++ mark ++ r := by
  rw [eq_append_of_cut? h]
  simp only [List.append_assoc]

/-- Bytes of the mark behind `u` come from the mark in what follows. -/
theorem exists_of_standsAt (hne : mark ≠ []) (hmark : IsAscii mark) (h : StandsAt mark (u ++ s) i)
    (hle : byteLength u ≤ i) : ∃ v y, s = v ++ mark ++ y ∧ i = byteLength (u ++ v) := by
  obtain ⟨x, y, heq, rfl⟩ := (standsAt_iff hne hmark).mp h
  rw [List.append_assoc x] at heq
  obtain ⟨v, rfl, hs⟩ := exists_append_of_byteLength_le heq hle
  exact ⟨v, y, by rw [hs, List.append_assoc], rfl⟩

/-- What is found is the first place where the bytes of the mark stand. -/
theorem firstAt_of_cut? (hne : mark ≠ []) (hmark : IsAscii mark) (h : cut? mark s = some (a, r))
    (u : Text) : FirstAt mark (u ++ s) (byteLength u) (byteLength (u ++ a)) := by
  have hs := eq_append_of_cut? h
  refine ⟨by simp, ?_, ?_⟩
  · exact (standsAt_iff hne hmark).mpr ⟨u ++ a, r, append_eq_of_cut? h u, rfl⟩
  · intro k hle hat
    obtain ⟨v, y, hs', rfl⟩ := exists_of_standsAt hne hmark hat hle
    have ha : a <+: s := ⟨mark ++ r, by rw [hs, List.append_assoc]⟩
    have hv : v <+: s := ⟨mark ++ y, by rw [hs', List.append_assoc]⟩
    have hpre : a <+: v := List.prefix_of_prefix_length_le ha hv (length_le_of_cut? h hs')
    rw [byteLength_append, byteLength_append]
    exact Nat.add_le_add_left (byteLength_mono hpre) _

theorem not_standsAt_of_cut? (hne : mark ≠ []) (hmark : IsAscii mark) (h : cut? mark s = none)
    (hle : byteLength u ≤ i) : ¬ StandsAt mark (u ++ s) i := by
  intro hat
  obtain ⟨v, y, rfl, _⟩ := exists_of_standsAt hne hmark hat hle
  exact cut?_eq_none_iff.mp h (List.infix_append v mark y)

end Search

end TypedExports.Text
