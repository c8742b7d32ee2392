import TypedExports.CommandLine.Run
import TypedExports.Proofs.Comment.Basic
import TypedExports.Proofs.FileSystem.Path
import TypedExports.Proofs.Text.Lines

/-!
# The provenance block is closed once

Each fact stands on a line of its own behind a label, so that no closer
arises on a seam. Neither a date nor the name of a source holds one. What
version control answers is put down as it is, and a closer in it ends the
block early: the block is closed once exactly when no answer holds a closer
(`closesOnce_lines_iff`).
-/

namespace TypedExports

/-- The joined lines hold one closer, on the last line but one. -/
def ClosesOnce (ls : List Text) : Prop :=
  ∃ front, ls = front ++ [" */".toList, []] ∧
    ∀ i, Text.OccursAt Comment.closer (Text.unlines ls) i ↔ i = (Text.unlines front).length + 2

/-- What is known of the version, in the order of the lines. -/
def Revision.facts (revision : Revision) : List Text :=
  revision.commit.toList ++ revision.branch.toList ++ revision.author.toList ++
    revision.remote.toList

theorem closesOnce_append_iff {front : List Text} (hne : front ≠ []) :
    ClosesOnce (front ++ [" */".toList, []]) ↔ ∀ line ∈ front, ¬ Comment.closer <:+: line := by
  have htext : Text.unlines (front ++ [" */".toList, []]) =
      Text.unlines front ++ [Text.lineFeed, ' '] ++ Comment.closer ++ [Text.lineFeed] := by
    rw [Text.unlines_append hne (List.cons_ne_nil _ _), List.append_assoc, List.append_assoc]
    rfl
  have hfront : Comment.closer <:+: Text.unlines front ↔
      ∃ line ∈ front, Comment.closer <:+: line :=
    Text.pair_infix_unlines_iff (by decide) (by decide)
  constructor
  · rintro ⟨front', heq, honce⟩ line hline hclose
    obtain rfl := List.append_cancel_right heq
    obtain ⟨u, v, huv⟩ := hfront.mpr ⟨line, hline, hclose⟩
    have hat : Text.OccursAt Comment.closer (Text.unlines (front ++ [" */".toList, []]))
        u.length := by
      rw [Text.occursAt_iff (by decide), htext, ← huv]
      exact ⟨u, v ++ [Text.lineFeed, ' '] ++ Comment.closer ++ [Text.lineFeed], by simp, rfl⟩
    have hlen := (honce u.length).mp hat
    rw [← huv] at hlen
    simp only [List.length_append, Comment.length_closer] at hlen
    omega
  · intro hnone
    refine ⟨front, rfl, fun i => ?_⟩
    have hbefore : ¬ Comment.closer <:+: Text.unlines front ++ [Text.lineFeed, ' '] := by
      refine Comment.not_closer_append ?_ (by decide) (Or.inr (by decide))
      rw [hfront]
      rintro ⟨line, hline, hclose⟩
      exact hnone line hline hclose
    have honce := Text.occursAt_pair_iff (by decide) hbefore (b := [Text.lineFeed]) (by decide) i
    rw [htext]
    rw [List.length_append] at honce
    exact honce

/-! ## Dates and sources -/

theorem Timestamp.star_not_mem_padded (width n : Nat) : '*' ∉ padded width n := by
  rw [padded, List.leftpad, List.mem_append, List.mem_replicate, not_or]
  refine ⟨by simp, ?_⟩
  intro hmem
  exact absurd (Nat.isDigit_of_mem_toDigits (by decide) (by decide) hmem) (by decide)

theorem Timestamp.star_not_mem_text (t : Timestamp) : '*' ∉ t.text := by
  have hyear : '*' ∉ yearText t.year := by
    unfold yearText
    split
    · exact star_not_mem_padded _ _
    · rw [List.mem_cons, not_or]
      refine ⟨?_, star_not_mem_padded _ _⟩
      split <;> decide
  simp [text, hyear, star_not_mem_padded]

theorem CommandLine.slash_not_mem_of_sourceName? {input name : Text}
    (h : sourceName? input = some name) : '/' ∉ name := by
  unfold sourceName? at h
  split at h
  · cases h
  · obtain ⟨_, hname, rfl⟩ := Option.map_eq_some_iff.mp h
    obtain ⟨component, hslash, rfl⟩ := Path.exists_component_of_fileName? hname
    rwa [Text.ofBytes_bytes]

/-! ## Facts on their lines -/

theorem forall_mem_factLine_iff {label : Text} {value : Option Text}
    (hlabel : ¬ Comment.closer <:+: " * ".toList ++ label ++ ": ".toList) :
    (∀ line ∈ factLine label value, ¬ Comment.closer <:+: line) ↔
      ∀ text ∈ value.toList, ¬ Comment.closer <:+: text := by
  have hline : ∀ text, Comment.closer <:+: " * ".toList ++ label ++ ": ".toList ++ text ↔
      Comment.closer <:+: text := by
    intro text
    have hlast : (" * ".toList ++ label ++ ": ".toList).getLast? ≠ some '*' := by
      rw [List.getLast?_append_of_ne_nil _ (by decide)]
      decide
    rw [Comment.closer_infix_append_iff]
    tauto
  cases value with
  | none => simp [factLine]
  | some text => simpa [factLine] using not_congr (hline text)

theorem Revision.forall_mem_lines_iff (ask : Query → Reply) :
    (∀ line ∈ (collect ask).lines, ¬ Comment.closer <:+: line) ↔
      ∀ fact ∈ (collect ask).facts, ¬ Comment.closer <:+: fact := by
  unfold collect
  cases (ask .commit).answer? with
  | none => simp [lines, facts]
  | some commit =>
      simp only [lines, facts, List.forall_mem_append]
      rw [forall_mem_factLine_iff (by decide), forall_mem_factLine_iff (by decide),
        forall_mem_factLine_iff (by decide), forall_mem_factLine_iff (by decide)]

/-- **The provenance block is closed once**, on its last line, exactly when
no answer of version control holds a closer. The date and the source make no
difference. -/
theorem closesOnce_lines_iff (time : Timestamp) (input : Text) (ask : Query → Reply) :
    ClosesOnce (Provenance.lines ⟨time, CommandLine.sourceName? input, Revision.collect ask⟩) ↔
      ∀ fact ∈ (Revision.collect ask).facts, ¬ Comment.closer <:+: fact := by
  have htime : ∀ text ∈ (some time.text).toList, ¬ Comment.closer <:+: text := by
    intro text htext hclose
    obtain rfl := List.mem_singleton.mp htext
    exact time.star_not_mem_text (hclose.subset List.mem_cons_self)
  have hsource : ∀ name ∈ (CommandLine.sourceName? input).toList, ¬ Comment.closer <:+: name := by
    intro name hname hclose
    exact CommandLine.slash_not_mem_of_sourceName? (Option.mem_toList.mp hname)
      (hclose.subset (List.mem_cons_of_mem _ List.mem_cons_self))
  rw [Provenance.lines, closesOnce_append_iff (by simp), List.forall_mem_append,
    List.forall_mem_append, List.forall_mem_append, forall_mem_factLine_iff (by decide),
    forall_mem_factLine_iff (by decide), Revision.forall_mem_lines_iff]
  have hopen : ∀ line ∈ ["/**".toList], ¬ Comment.closer <:+: line := by
    intro line hline
    rw [List.mem_singleton.mp hline]
    decide
  exact ⟨fun h => h.2, fun h => ⟨⟨⟨hopen, htime⟩, hsource⟩, h⟩⟩

/-- Version control that knows an author with a closer in the name. -/
def starredAnswers : Query → Reply
  | .commit => .exited 0 (Text.encode "0123abcd\n".toList)
  | .branch => .exited 0 (Text.encode "main\n".toList)
  | .author => .exited 0 (Text.encode "Jo */ <jo@example.com>".toList)
  | .remote => .exited 2 .empty

theorem Reply.answer?_encode (s : Text) :
    (exited 0 (Text.encode s)).answer? = (some (Text.trim s)).filter (· ≠ []) := by
  rw [answer?, if_pos rfl, Text.decode?_encode, Option.map_some]

theorem collect_starredAnswers :
    Revision.collect starredAnswers =
      ⟨some "0123abcd".toList, some "main".toList, some "Jo */ <jo@example.com>".toList, none⟩ := by
  have hcommit : (starredAnswers .commit).answer? = some "0123abcd".toList :=
    (Reply.answer?_encode _).trans (by decide)
  have hbranch : (starredAnswers .branch).answer? = some "main".toList :=
    (Reply.answer?_encode _).trans (by decide)
  have hauthor : (starredAnswers .author).answer? = some "Jo */ <jo@example.com>".toList :=
    (Reply.answer?_encode _).trans (by decide)
  have hremote : (starredAnswers .remote).answer? = none := rfl
  rw [Revision.collect, hcommit, hbranch, hauthor, hremote]

/-- An author can end the block early. -/
theorem not_closesOnce_starredAnswers :
    ¬ ClosesOnce (Provenance.lines ⟨⟨2025, 3, 14, 9, 26, 53, 0⟩,
      CommandLine.sourceName? "hako.h".toList, Revision.collect starredAnswers⟩) := by
  rw [collect_starredAnswers, Provenance.lines, closesOnce_append_iff (by simp)]
  intro hnone
  refine hnone " * Git author: Jo */ <jo@example.com>".toList ?_ (by decide)
  exact List.mem_append_right _ (by decide)

end TypedExports
