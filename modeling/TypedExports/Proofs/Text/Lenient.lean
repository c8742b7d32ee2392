import TypedExports.Proofs.Text.Bytes
import TypedExports.Text.Lenient

/-!
# Texts among the bytes

Bytes that spell a text are shown as that text (`ofBytes_bytes`), and the byte
of an ASCII character is among them only where the character is in the text.
-/

namespace TypedExports.Text

/-! ## The bytes one by one -/

theorem map_toNat_bytes (s : Text) : (bytes s).map UInt8.toNat = octets s := by
  induction s with
  | nil => rfl
  | cons c s ih =>
      rw [octets_cons, ← spelling_toNat, ← ih]
      exact List.map_append

theorem bytes_append (s t : Text) : bytes (s ++ t) = bytes s ++ bytes t := List.flatMap_append

theorem bytes_eq_nil_iff {s : Text} : bytes s = [] ↔ s = [] := by
  rw [← List.map_eq_nil_iff, map_toNat_bytes]
  cases s with
  | nil => simp [octets_nil]
  | cons c s => simp [octets_cons, spelling_ne_nil]

theorem mem_spelling_ascii_iff {a v : ℕ} (ha : a ≤ 127) : a ∈ spelling v ↔ a = v := by
  by_cases hv : v ≤ 127
  · rw [spelling_ascii hv, List.mem_singleton]
  · constructor
    · intro hmem
      have := lt_of_mem_spelling (Nat.lt_of_not_le hv) a hmem
      omega
    · omega

theorem toNat_mem_octets_iff {a : Char} (ha : a.toNat ≤ 127) {s : Text} :
    a.toNat ∈ octets s ↔ a ∈ s := by
  induction s with
  | nil => exact iff_of_false List.not_mem_nil List.not_mem_nil
  | cons c s ih =>
      rw [octets_cons, List.mem_append, ih, List.mem_cons, mem_spelling_ascii_iff ha,
        Char.toNat_inj]

theorem toUInt8_mem_bytes_iff {a : Char} (ha : a.toNat ≤ 127) {s : Text} :
    a.toUInt8 ∈ bytes s ↔ a ∈ s := by
  have hinj : Function.Injective UInt8.toNat := fun _ _ => UInt8.toNat_inj.mp
  have hbyte : a.toUInt8.toNat = a.toNat := by
    rw [Char.toUInt8, UInt32.toNat_toUInt8]
    exact Nat.mod_eq_of_lt (Nat.lt_of_le_of_lt ha (by decide))
  rw [← List.mem_map_of_injective hinj, map_toNat_bytes, hbyte, toNat_mem_octets_iff ha]

/-! ## What bytes are shown as -/

theorem readOctet_trailing {u : Unfinished} {v : ℕ} (hleast : u.least ≤ trailing v)
    (hgreatest : trailing v ≤ u.greatest) :
    readOctet (some u) (trailing v) =
      if u.missing = 1 then ([Char.ofNat (u.bits * 64 + v % 64)], none)
      else ([], some { bits := u.bits * 64 + v % 64, missing := u.missing - 1 }) := by
  have hbits : trailing v % 64 = v % 64 := by
    unfold trailing
    omega
  rw [readOctet, if_pos ⟨hleast, hgreatest⟩, hbits]

theorem trailing_bounds (v : ℕ) : 0x80 ≤ trailing v ∧ trailing v ≤ 0xBF := by
  unfold trailing
  omega

theorem readFirst_two {n : ℕ} (hle : 2 ≤ n) (hlt : n < 32) :
    readFirst (n + 192) = ([], some { bits := n, missing := 1 }) := by
  unfold readFirst
  split_ifs
  all_goals first
    | omega
    | simp

/-- The bounds of the second byte keep out what is spelled with fewer bytes,
and what is no code point. -/
theorem readFirst_three {n : ℕ} (hlt : n < 16) :
    ∃ least greatest, readFirst (n + 224) = ([], some ⟨n, 2, least, greatest⟩) ∧
      ∀ w, w / 64 = n → 32 ≤ w → (w < 0x360 ∨ 0x37F < w) →
        least ≤ trailing w ∧ trailing w ≤ greatest := by
  unfold trailing
  by_cases hzero : n = 0
  · exact ⟨0xA0, 0xBF, by rw [hzero]; rfl, by omega⟩
  · by_cases hsurrogate : n = 13
    · exact ⟨0x80, 0x9F, by rw [hsurrogate]; rfl, by omega⟩
    · refine ⟨0x80, 0xBF, ?_, by omega⟩
      unfold readFirst
      rw [if_neg (by omega), if_neg (by omega), if_neg (by omega), if_neg (by omega),
        if_neg (by omega), if_pos (by omega), Nat.add_sub_cancel]

theorem readFirst_four {n : ℕ} (hle : n ≤ 4) :
    ∃ least greatest, readFirst (n + 240) = ([], some ⟨n, 3, least, greatest⟩) ∧
      ∀ w, w / 64 = n → 16 ≤ w → w < 0x110 → least ≤ trailing w ∧ trailing w ≤ greatest := by
  unfold trailing
  by_cases hzero : n = 0
  · exact ⟨0x90, 0xBF, by rw [hzero]; rfl, by omega⟩
  · by_cases hlast : n = 4
    · exact ⟨0x80, 0x8F, by rw [hlast]; rfl, by omega⟩
    · refine ⟨0x80, 0xBF, ?_, by omega⟩
      unfold readFirst
      rw [if_neg (by omega), if_neg (by omega), if_neg (by omega), if_neg (by omega),
        if_neg (by omega), if_neg (by omega), if_neg (by omega), if_pos (by omega),
        Nat.add_sub_cancel]

theorem ofOctets_spelling (c : Char) (rest : List ℕ) :
    ofOctets none (spelling c.toNat ++ rest) = c :: ofOctets none rest := by
  have hvalid : c.toNat < 0xD800 ∨ 0xDFFF < c.toNat ∧ c.toNat < 0x110000 := c.valid
  have hc : Char.ofNat c.toNat = c := Char.ofNat_toNat c
  generalize c.toNat = v at hvalid hc
  unfold spelling
  split_ifs with h₁ h₂ h₃
  · have hfirst : readFirst v = ([Char.ofNat v], none) := if_pos (by omega)
    simp [ofOctets, readOctet, hfirst, hc]
  · have hbits : v / 64 * 64 + v % 64 = v := by omega
    obtain ⟨hleast, hgreatest⟩ := trailing_bounds v
    simp only [List.cons_append, List.nil_append, ofOctets]
    rw [readOctet, readFirst_two (by omega) (by omega), readOctet_trailing hleast hgreatest]
    simp [hbits, hc]
  · have hbits : (v / 64 / 64 * 64 + v / 64 % 64) * 64 + v % 64 = v := by omega
    obtain ⟨least, greatest, hfirst, hbounds⟩ := readFirst_three (n := v / 64 / 64) (by omega)
    obtain ⟨hsecond, hsecond'⟩ := hbounds (v / 64) rfl (by omega) (by omega)
    obtain ⟨hthird, hthird'⟩ := trailing_bounds v
    simp only [List.cons_append, List.nil_append, ofOctets]
    rw [readOctet, hfirst, readOctet_trailing hsecond hsecond']
    simp only [Nat.reduceEqDiff, if_false, Nat.reduceSub]
    rw [readOctet_trailing hthird hthird']
    simp [hbits, hc]
  · have hbits : ((v / 64 / 64 / 64 * 64 + v / 64 / 64 % 64) * 64 + v / 64 % 64) * 64 + v % 64 =
        v := by omega
    obtain ⟨least, greatest, hfirst, hbounds⟩ := readFirst_four (n := v / 64 / 64 / 64) (by omega)
    obtain ⟨hsecond, hsecond'⟩ := hbounds (v / 64 / 64) rfl (by omega) (by omega)
    obtain ⟨hthird, hthird'⟩ := trailing_bounds (v / 64)
    obtain ⟨hfourth, hfourth'⟩ := trailing_bounds v
    simp only [List.cons_append, List.nil_append, ofOctets]
    rw [readOctet, hfirst, readOctet_trailing hsecond hsecond']
    simp only [Nat.reduceEqDiff, if_false, Nat.reduceSub]
    rw [readOctet_trailing hthird hthird']
    simp only [Nat.reduceEqDiff, if_false, Nat.reduceSub]
    rw [readOctet_trailing hfourth hfourth']
    simp [hbits, hc]

/-- Bytes that spell a text are shown as that text. -/
theorem ofBytes_bytes (s : Text) : ofBytes (bytes s) = s := by
  rw [ofBytes, map_toNat_bytes]
  induction s with
  | nil => rfl
  | cons c s ih => rw [octets_cons, ofOctets_spelling, ih]

end TypedExports.Text
