import Mathlib.Data.List.Basic
import TypedExports.Proofs.Text.Lines
import TypedExports.Proofs.Text.Trim
import TypedExports.Text.Search

/-!
# Line endings

Some systems put a carriage return in front of every line feed, and `crlf`
does so to a text. Whoever looks only for marks without either character
(`cut?_crlf`), or for classes that hold both or neither (`takeWhile_crlf`),
finds the same things at the same places, with the text between them
rewritten. A cut of the rewritten text is the rewritten cut of a text unless
it parts a return from its line feed (`exists_append_of_crlf`).
-/

namespace TypedExports.Text

/-- The character that some systems put in front of a line feed. -/
def carriageReturn : Char := '\r'

/-- The text with a carriage return in front of every line feed. -/
def crlf (s : Text) : Text :=
  s.flatMap fun c => if c = lineFeed then [carriageReturn, lineFeed] else [c]

variable {c : Char} {p : Char → Bool} {mark s : Text}

@[simp] theorem crlf_nil : crlf [] = [] := rfl

@[simp] theorem crlf_append (s t : Text) : crlf (s ++ t) = crlf s ++ crlf t :=
  List.flatMap_append

theorem crlf_cons_lineFeed (s : Text) :
    crlf (lineFeed :: s) = carriageReturn :: lineFeed :: crlf s := rfl

theorem crlf_cons_of_ne (hc : c ≠ lineFeed) (s : Text) : crlf (c :: s) = c :: crlf s := by
  rw [crlf, List.flatMap_cons, if_neg hc]
  rfl

theorem crlf_eq_self (hs : lineFeed ∉ s) : crlf s = s := by
  induction s with
  | nil => rfl
  | cons c s ih =>
      rw [List.mem_cons, not_or] at hs
      rw [crlf_cons_of_ne (Ne.symm hs.1), ih hs.2]

theorem eq_nil_of_crlf_eq_nil (hs : crlf s = []) : s = [] := by
  cases s with
  | nil => rfl
  | cons c s =>
      by_cases hc : c = lineFeed
      · subst hc
        cases hs
      · rw [crlf_cons_of_ne hc] at hs
        cases hs

/-! ## What stays where it is -/

theorem mem_crlf_iff : c ∈ crlf s ↔ c ∈ s ∨ (c = carriageReturn ∧ lineFeed ∈ s) := by
  induction s with
  | nil => simp
  | cons d s ih =>
      by_cases hd : d = lineFeed
      · subst hd
        rw [crlf_cons_lineFeed, List.mem_cons, List.mem_cons, ih]
        simp
        tauto
      · rw [crlf_cons_of_ne hd, List.mem_cons, ih, List.mem_cons, List.mem_cons]
        have : lineFeed ≠ d := Ne.symm hd
        tauto

theorem lineFeed_mem_crlf_iff : lineFeed ∈ crlf s ↔ lineFeed ∈ s := by
  have hne : lineFeed ≠ carriageReturn := by decide
  rw [mem_crlf_iff]
  tauto

theorem forall_mem_crlf_iff (hp : p carriageReturn = p lineFeed) :
    (∀ c ∈ crlf s, p c = true) ↔ ∀ c ∈ s, p c = true := by
  constructor
  · intro h c hc
    exact h c (mem_crlf_iff.mpr (Or.inl hc))
  · intro h c hc
    rcases mem_crlf_iff.mp hc with hc | ⟨rfl, hfeed⟩
    · exact h c hc
    · rw [hp]
      exact h lineFeed hfeed

theorem head?_crlf_any (hp : p carriageReturn = p lineFeed) :
    (crlf s).head?.any p = s.head?.any p := by
  cases s with
  | nil => rfl
  | cons c s =>
      by_cases hc : c = lineFeed
      · subst hc
        exact hp
      · rw [crlf_cons_of_ne hc]
        rfl

/-- A class that holds both characters or neither has the same run. -/
theorem takeWhile_crlf (hp : p carriageReturn = p lineFeed) (s : Text) :
    (crlf s).takeWhile p = crlf (s.takeWhile p) := by
  induction s with
  | nil => rfl
  | cons c s ih =>
      by_cases hc : c = lineFeed
      · subst hc
        rw [crlf_cons_lineFeed, List.takeWhile_cons, List.takeWhile_cons, List.takeWhile_cons, hp,
          ih]
        cases p lineFeed <;> rfl
      · rw [crlf_cons_of_ne hc, List.takeWhile_cons, List.takeWhile_cons, ih]
        cases p c with
        | true => exact (crlf_cons_of_ne hc _).symm
        | false => rfl

/-! ## Cuts -/

/-- A cut that parts no return from its line feed is the cut of a text. -/
theorem exists_append_of_crlf {a b : Text} (h : crlf s = a ++ b)
    (hcut : a.getLast? ≠ some carriageReturn ∨ b.head? ≠ some lineFeed) :
    ∃ a' b', s = a' ++ b' ∧ a = crlf a' ∧ b = crlf b' := by
  -- on the text; an empty first part is the empty cut, and else the first
  -- character goes to it with what was put in front of it
  induction s generalizing a with
  | nil =>
      obtain ⟨rfl, rfl⟩ := List.append_eq_nil_iff.mp h.symm
      exact ⟨[], [], rfl, rfl, rfl⟩
  | cons c s ih =>
      have hrest : ∀ {u v : Text}, u ++ v = a → v.getLast? ≠ some carriageReturn ∨
          b.head? ≠ some lineFeed := by
        rintro u v rfl
        refine hcut.imp_left fun hlast hv => hlast ?_
        rw [List.getLast?_append, hv, Option.some_or]
      by_cases hc : c = lineFeed
      · subst hc
        rw [crlf_cons_lineFeed] at h
        rcases a with _ | ⟨x, _ | ⟨y, a⟩⟩
        · exact ⟨[], lineFeed :: s, rfl, rfl, h.symm⟩
        · obtain ⟨rfl, rfl⟩ := List.cons.inj h
          rcases hcut with hcut | hcut
          · exact absurd rfl hcut
          · exact absurd rfl hcut
        · rw [List.cons_append, List.cons_append, List.cons.injEq, List.cons.injEq] at h
          obtain ⟨rfl, rfl, h⟩ := h
          obtain ⟨a', b', rfl, rfl, rfl⟩ := ih h (hrest (u := [_, _]) rfl)
          exact ⟨lineFeed :: a', b', rfl, rfl, rfl⟩
      · rw [crlf_cons_of_ne hc] at h
        rcases a with _ | ⟨x, a⟩
        · exact ⟨[], c :: s, rfl, rfl, by rw [crlf_cons_of_ne hc]; exact h.symm⟩
        · rw [List.cons_append, List.cons.injEq] at h
          obtain ⟨rfl, h⟩ := h
          obtain ⟨a', b', rfl, rfl, rfl⟩ := ih h (hrest (u := [_]) rfl)
          exact ⟨c :: a', b', rfl, (crlf_cons_of_ne hc a').symm, rfl⟩

theorem exists_append_of_crlf_mark {a b : Text} (h : crlf s = a ++ mark ++ b) (hne : mark ≠ [])
    (hfeed : lineFeed ∉ mark) (hlast : mark.getLast? ≠ some carriageReturn) :
    ∃ a' b', s = a' ++ mark ++ b' ∧ a = crlf a' ∧ b = crlf b' := by
  have hhead : (mark ++ b).head? ≠ some lineFeed := by
    rw [List.head?_append_of_ne_nil _ hne]
    exact fun hmem => hfeed (List.mem_of_mem_head? hmem)
  rw [List.append_assoc] at h
  obtain ⟨a', t, rfl, ha, ht⟩ := exists_append_of_crlf h (Or.inr hhead)
  obtain ⟨m, b', rfl, hm, hb⟩ := exists_append_of_crlf ht.symm (Or.inl hlast)
  have hmark : crlf m = m := by
    refine crlf_eq_self ?_
    rwa [← lineFeed_mem_crlf_iff, ← hm]
  exact ⟨a', b', by rw [hm, hmark, List.append_assoc], ha, hb⟩

/-! ## Marks that hold neither character -/

theorem after?_crlf (hreturn : carriageReturn ∉ mark) (hfeed : lineFeed ∉ mark) (s : Text) :
    after? mark (crlf s) = (after? mark s).map crlf := by
  induction mark generalizing s with
  | nil => rfl
  | cons m mark ih =>
      rw [List.mem_cons, not_or] at hreturn hfeed
      cases s with
      | nil => rfl
      | cons c s =>
          by_cases hc : c = lineFeed
          · subst hc
            rw [crlf_cons_lineFeed, after?, after?, if_neg (Ne.symm hreturn.1),
              if_neg (Ne.symm hfeed.1)]
            rfl
          · rw [crlf_cons_of_ne hc, after?, after?, ih hreturn.2 hfeed.2]
            split <;> rfl

theorem cut?_crlf (hne : mark ≠ []) (hreturn : carriageReturn ∉ mark) (hfeed : lineFeed ∉ mark)
    (s : Text) :
    cut? mark (crlf s) = (cut? mark s).map fun cut => (crlf cut.1, crlf cut.2) := by
  have hafter := after?_crlf hreturn hfeed
  induction s with
  | nil =>
      obtain ⟨m, mark, rfl⟩ := List.exists_cons_of_ne_nil hne
      rfl
  | cons c s ih =>
      by_cases hc : c = lineFeed
      · subst hc
        have hstart : after? mark (lineFeed :: s) = none := by
          obtain ⟨m, mark, rfl⟩ := List.exists_cons_of_ne_nil hne
          rw [after?, if_neg (Ne.symm (List.ne_of_not_mem_cons hfeed))]
        have hstart' : after? mark (carriageReturn :: lineFeed :: crlf s) = none := by
          rw [← crlf_cons_lineFeed, hafter, hstart]
          rfl
        have hstart'' : after? mark (lineFeed :: crlf s) = none := by
          obtain ⟨m, mark, rfl⟩ := List.exists_cons_of_ne_nil hne
          rw [after?, if_neg (Ne.symm (List.ne_of_not_mem_cons hfeed))]
        rw [crlf_cons_lineFeed, cut?_cons, cut?_cons, cut?_cons, hstart, hstart', hstart'', ih]
        cases cut? mark s <;> rfl
      · rw [crlf_cons_of_ne hc, cut?_cons, cut?_cons, ← crlf_cons_of_ne hc, hafter, ih]
        cases after? mark (c :: s) with
        | some rest => rfl
        | none =>
            rw [Option.map_none, Option.map_map, Option.map_map]
            refine congrArg (Option.map · _) (funext fun cut => ?_)
            rw [Function.comp_apply, Function.comp_apply, crlf_cons_of_ne hc]

/-! ## Lines -/

theorem isBlank_of_mem_carriageReturn : ∀ c ∈ [carriageReturn], isBlank c = true := by
  intro c hc
  rw [List.mem_singleton.mp hc]
  decide

/-- The return in front of a line feed is trimmed off the line that it ends. -/
theorem map_trim_lines_append_crlf {a : Text} (ha : lineFeed ∉ a) (s : Text) :
    (lines (a ++ crlf s)).map trim = (lines (a ++ s)).map trim := by
  -- on the text, with the line that has begun in front of it
  induction s generalizing a with
  | nil => rfl
  | cons c s ih =>
      by_cases hc : c = lineFeed
      · subst hc
        have hreturn : lineFeed ∉ a ++ [carriageReturn] := by
          rw [List.mem_append, not_or]
          exact ⟨ha, by decide⟩
        have htrim : trim (a ++ [carriageReturn]) = trim a :=
          trim_append (u := []) (List.forall_mem_nil _) isBlank_of_mem_carriageReturn a
        have hrest : (lines (crlf s)).map trim = (lines s).map trim := ih List.not_mem_nil
        rw [crlf_cons_lineFeed, List.append_cons, lines_append_cons hreturn, lines_append_cons ha,
          List.map_cons, List.map_cons, htrim, hrest]
      · have hac : lineFeed ∉ a ++ [c] := by
          rw [List.mem_append, List.mem_singleton, not_or]
          exact ⟨ha, Ne.symm hc⟩
        rw [crlf_cons_of_ne hc, List.append_cons, List.append_cons a c s]
        exact ih hac

theorem map_trim_lines_crlf (s : Text) : (lines (crlf s)).map trim = (lines s).map trim :=
  map_trim_lines_append_crlf (a := []) List.not_mem_nil s

end TypedExports.Text
