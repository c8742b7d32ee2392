import Mathlib.Logic.Function.Basic
import TypedExports.Proofs.CommandLine.Environment
import TypedExports.Proofs.Provenance
import TypedExports.Proofs.Text.Trim

/-!
# Version control field by field

A question is settled by its own reply and by the reply about the commit, and
by nothing else (`fact?_collect`). The provenance block tells of the answers
in one order, each on a line that starts like no other line of the block. So a
failing question costs its own line, and the commit costs them all
(`collect_fieldwise`).
-/

namespace TypedExports

/-! ## Replies -/

namespace Reply

/-- Somebody was there to ask, it ended well, and what it printed is a text
that is not blank throughout. -/
def IsGood (reply : Reply) : Prop :=
  ∃ s, reply = .exited 0 (Text.encode s) ∧ ∃ c ∈ s, Text.isBlank c = false

/-- The reply prints the value, and around it nothing but blanks. -/
structure Says (reply : Reply) (value : Text) : Prop where
  printed : ∃ before after, reply = .exited 0 (Text.encode (before ++ value ++ after)) ∧
    (∀ c ∈ before, Text.isBlank c = true) ∧ ∀ c ∈ after, Text.isBlank c = true
  trimmed : Text.Trimmed value
  ne_nil : value ≠ []

/-- An answer is the trimmed output of a program that ended well. -/
theorem answer?_eq_some_iff {reply : Reply} {value : Text} :
    reply.answer? = some value ↔
      ∃ s, reply = .exited 0 (Text.encode s) ∧ Text.trim s = value ∧ value ≠ [] := by
  cases reply with
  | unavailable => simp [answer?]
  | exited status output =>
      simp only [answer?, Option.ite_none_right_eq_some, Option.filter_eq_some_iff,
        Option.map_eq_some_iff, Text.decode?_eq_some_iff, exited.injEq, decide_eq_true_eq]
      constructor
      · rintro ⟨hstatus, ⟨s, houtput, htrim⟩, hne⟩
        exact ⟨s, ⟨hstatus, houtput⟩, htrim, hne⟩
      · rintro ⟨s, ⟨hstatus, houtput⟩, htrim, hne⟩
        exact ⟨hstatus, ⟨s, houtput, htrim⟩, hne⟩

theorem answer?_isSome_iff {reply : Reply} : reply.answer?.isSome = true ↔ reply.IsGood := by
  rw [Option.isSome_iff_exists]
  constructor
  · rintro ⟨value, hvalue⟩
    obtain ⟨s, hreply, rfl, hne⟩ := answer?_eq_some_iff.mp hvalue
    refine ⟨s, hreply, ?_⟩
    rw [ne_eq, Text.trim_eq_nil_iff] at hne
    simpa using hne
  · rintro ⟨s, hreply, c, hc, hblank⟩
    refine ⟨Text.trim s, answer?_eq_some_iff.mpr ⟨s, hreply, rfl, ?_⟩⟩
    rw [ne_eq, Text.trim_eq_nil_iff]
    intro hall
    rw [hall c hc] at hblank
    cases hblank

theorem says_of_answer? {reply : Reply} {value : Text} (h : reply.answer? = some value) :
    reply.Says value := by
  obtain ⟨s, rfl, rfl, hne⟩ := answer?_eq_some_iff.mp h
  obtain ⟨before, hbefore, hstart⟩ := Text.exists_blanks_trimStart s
  obtain ⟨after, hafter, hend⟩ := Text.exists_blanks_trimEnd (Text.trimStart s)
  refine ⟨⟨before, after, ?_, hbefore, hafter⟩, Text.trimmed_trim s, hne⟩
  rw [Text.trim, List.append_assoc, ← hend, ← hstart]

end Reply

/-! ## Lines about the version -/

namespace Query

/-- The questions in the order of their lines. -/
def inOrder : List Query := [.commit, .branch, .author, .remote]

/-- What the line about the answer starts with. -/
def lineStart : Query → Text
  | .commit => " * Git commit: ".toList
  | .branch => " * Git branch: ".toList
  | .author => " * Git author: ".toList
  | .remote => " * Git remote: ".toList

/-- What every line about the version starts with. -/
def commonStart : Text := " * Git ".toList

theorem mem_inOrder (q : Query) : q ∈ inOrder := by
  cases q <;> decide

theorem exists_inOrder_eq (q : Query) :
    ∃ qs qs', inOrder = qs ++ q :: qs' ∧ q ∉ qs ∧ q ∉ qs' := by
  obtain ⟨qs, qs', hsplit⟩ := List.append_of_mem q.mem_inOrder
  have hnodup : (qs ++ q :: qs').Nodup := by
    rw [← hsplit]
    decide
  rw [List.nodup_append, List.nodup_cons] at hnodup
  obtain ⟨_, ⟨hafter, _⟩, hdisjoint⟩ := hnodup
  exact ⟨qs, qs', hsplit, fun hq => hdisjoint q hq q List.mem_cons_self rfl, hafter⟩

theorem length_lineStart (q : Query) : q.lineStart.length = 15 := by
  cases q <;> rfl

theorem commonStart_prefix (q : Query) : commonStart <+: q.lineStart := by
  cases q <;> decide

theorem lineStart_injective : Function.Injective lineStart := by
  intro q q' h
  revert h
  cases q <;> cases q' <;> decide

/-- A line about one question does not start like a line about another one. -/
theorem not_lineStart_prefix {q q' : Query} (hne : q' ≠ q) (value : Text) :
    ¬ q.lineStart <+: q'.lineStart ++ value := by
  intro h
  have hlen : q.lineStart.length = q'.lineStart.length := by
    rw [length_lineStart, length_lineStart]
  have hpre : q.lineStart <+: q'.lineStart :=
    List.prefix_of_prefix_length_le h (List.prefix_append _ _) hlen.le
  exact hne (lineStart_injective (hpre.eq_of_length hlen)).symm

end Query

namespace Revision

open CommandLine.World (opening sourceLine closing)

/-- What is known in answer to a question. -/
def fact? (revision : Revision) : Query → Option Text
  | .commit => revision.commit
  | .branch => revision.branch
  | .author => revision.author
  | .remote => revision.remote

/-- The line about the answer to a question, if it is known. -/
def line? (revision : Revision) (q : Query) : Option Text :=
  (revision.fact? q).map (q.lineStart ++ ·)

/-- **The gate.** An answer is kept if the commit is known. -/
theorem fact?_collect (ask : Query → Reply) (q : Query) :
    (collect ask).fact? q = (ask .commit).answer?.bind fun _ => (ask q).answer? := by
  unfold collect
  cases hcommit : (ask .commit).answer? with
  | none => cases q <;> rfl
  | some commit =>
      cases q with
      | commit => exact hcommit.symm
      | branch => rfl
      | author => rfl
      | remote => rfl

theorem factLine_eq (revision : Revision) (label : Text) (q : Query)
    (h : " * ".toList ++ label ++ ": ".toList = q.lineStart) :
    factLine label (revision.fact? q) = (revision.line? q).toList := by
  rw [factLine, line?, ← h]

/-- Without a commit there are no lines. With it there is one for each answer
that is known. -/
theorem lines_eq (revision : Revision) :
    revision.lines =
      if revision.commit = none then [] else Query.inOrder.filterMap revision.line? := by
  unfold lines
  split
  · next hcommit => rw [if_pos hcommit]
  · next commit hcommit =>
      have hknown : revision.commit ≠ none := by simp [hcommit]
      have hfirst := revision.factLine_eq "Git commit".toList .commit (by decide)
      have hbranch := revision.factLine_eq "Git branch".toList .branch (by decide)
      have hauthor := revision.factLine_eq "Git author".toList .author (by decide)
      have hremote := revision.factLine_eq "Git remote".toList .remote (by decide)
      simp only [fact?] at hfirst hbranch hauthor hremote
      rw [if_neg hknown, ← hcommit, hfirst, hbranch, hauthor, hremote,
        List.filterMap_eq_flatMap_toList]
      simp [Query.inOrder]

theorem commit_collect (ask : Query → Reply) : (collect ask).commit = (ask .commit).answer? := by
  unfold collect
  cases (ask .commit).answer? <;> rfl

theorem line?_collect_of_none {ask : Query → Reply} (h : (ask .commit).answer? = none) (q : Query) :
    (collect ask).line? q = none := by
  rw [line?, fact?_collect, h]
  rfl

theorem lines_collect (ask : Query → Reply) :
    (collect ask).lines = Query.inOrder.filterMap (collect ask).line? := by
  rw [lines_eq, commit_collect]
  split
  · next hnone =>
      symm
      exact List.filterMap_eq_nil_iff.mpr fun q _ => line?_collect_of_none hnone q
  · rfl

/-- What stands around the lines about the version. -/
theorem lines_provenance (time : Timestamp) (source : Option Text) (ask : Query → Reply) :
    Provenance.lines ⟨time, source, collect ask⟩ =
      opening time ++ (source.map sourceLine).toList ++
        Query.inOrder.filterMap (collect ask).line? ++ [" */".toList, []] := by
  cases source with
  | none =>
      rw [CommandLine.World.lines_of_no_source, closing, lines_collect]
      simp
  | some name =>
      rw [CommandLine.World.lines_of_source, closing, lines_collect]
      simp

/-! ## One reply at a time -/

section Update

variable {ask : Query → Reply} {q : Query} {reply : Reply}

/-- The reply to one question has no say in the answer to another, unless it
is about the commit. -/
theorem fact?_collect_update {q' : Query} (hcommit : q ≠ .commit) (hne : q' ≠ q) :
    (collect (Function.update ask q reply)).fact? q' = (collect ask).fact? q' := by
  rw [fact?_collect, fact?_collect, Function.update_of_ne hcommit.symm, Function.update_of_ne hne]

theorem filterMap_line?_update {qs : List Query} (hcommit : q ≠ .commit) (hqs : q ∉ qs) :
    qs.filterMap (collect (Function.update ask q reply)).line? =
      qs.filterMap (collect ask).line? := by
  refine List.filterMap_congr fun q' hq' => ?_
  have hne : q' ≠ q := fun h => hqs (h ▸ hq')
  rw [line?, line?, fact?_collect_update hcommit hne]

end Update

theorem not_lineStart_prefix_of_mem {revision : Revision} {q : Query} {qs : List Query}
    (hqs : q ∉ qs) : ∀ line ∈ qs.filterMap revision.line?, ¬ q.lineStart <+: line := by
  intro line hline
  obtain ⟨q', hq', hline⟩ := List.mem_filterMap.mp hline
  obtain ⟨value, _, rfl⟩ := Option.map_eq_some_iff.mp hline
  have hne : q' ≠ q := fun h => hqs (h ▸ hq')
  exact Query.not_lineStart_prefix hne value

/-- No other line of the block starts like one about the version. -/
theorem not_commonStart_prefix (time : Timestamp) (source : Option Text) :
    ∀ line ∈ opening time ++ (source.map sourceLine).toList ++ [" */".toList, []],
      ¬ Query.commonStart <+: line := by
  have hbehind : ∀ {start : Text} (value), Query.commonStart.length ≤ start.length →
      ¬ Query.commonStart <+: start → ¬ Query.commonStart <+: start ++ value :=
    fun value hlen hnot h =>
      hnot (List.prefix_of_prefix_length_le h (List.prefix_append _ value) hlen)
  intro line hline
  simp only [opening, List.mem_append, List.mem_cons, List.not_mem_nil, or_false,
    Option.mem_toList, Option.map_eq_some_iff] at hline
  rcases hline with ((rfl | rfl) | ⟨name, _, rfl⟩) | rfl | rfl
  · decide
  · exact hbehind _ (by decide) (by decide)
  · exact hbehind _ (by decide) (by decide)
  · decide
  · decide

/-- The block around the line about one question. -/
theorem lines_provenance_around {q : Query} {qs qs' : List Query}
    (hsplit : Query.inOrder = qs ++ q :: qs') (time : Timestamp) (source : Option Text)
    (ask : Query → Reply) :
    Provenance.lines ⟨time, source, collect ask⟩ =
      opening time ++ (source.map sourceLine).toList ++ qs.filterMap (collect ask).line? ++
        ((collect ask).line? q).toList ++
        (qs'.filterMap (collect ask).line? ++ [" */".toList, []]) := by
  have hline : (q :: qs').filterMap (collect ask).line? =
      ((collect ask).line? q).toList ++ qs'.filterMap (collect ask).line? := by
    rw [List.filterMap_cons]
    cases (collect ask).line? q <;> rfl
  rw [lines_provenance, hsplit, List.filterMap_append, hline]
  simp only [List.append_assoc]

/-- **Field by field.** A field is known exactly when its own query and the
one for the commit are good, with what its reply says. The block tells of the
known fields in one order. Another reply to a query, if it is not the one for
the commit, changes the line about it and no other line, and without a good
reply about the commit no line about the version is left. -/
theorem collect_fieldwise (time : Timestamp) (source : Option Text) (ask : Query → Reply) :
    (∀ q, ((collect ask).fact? q).isSome = true ↔ (ask .commit).IsGood ∧ (ask q).IsGood) ∧
    (∀ q value, (collect ask).fact? q = some value → (ask q).Says value) ∧
    Provenance.lines ⟨time, source, collect ask⟩ =
      opening time ++ (source.map sourceLine).toList ++
        Query.inOrder.filterMap (collect ask).line? ++ [" */".toList, []] ∧
    (∀ q reply, q ≠ .commit → ∃ before after,
      Provenance.lines ⟨time, source, collect ask⟩ =
        before ++ ((collect ask).line? q).toList ++ after ∧
      Provenance.lines ⟨time, source, collect (Function.update ask q reply)⟩ =
        before ++ ((collect (Function.update ask q reply)).line? q).toList ++ after ∧
      ∀ line ∈ before ++ after, ¬ q.lineStart <+: line) ∧
    (¬ (ask .commit).IsGood →
      ∀ line ∈ Provenance.lines ⟨time, source, collect ask⟩, ¬ Query.commonStart <+: line) := by
  have hframe := not_commonStart_prefix time source
  refine ⟨?known, ?value, lines_provenance time source ask, ?update, ?bad⟩
  case known =>
    intro q
    rw [fact?_collect, ← Reply.answer?_isSome_iff, ← Reply.answer?_isSome_iff]
    cases (ask .commit).answer? <;> simp
  case value =>
    intro q value hvalue
    rw [fact?_collect] at hvalue
    obtain ⟨_, _, hanswer⟩ := Option.bind_eq_some_iff.mp hvalue
    exact Reply.says_of_answer? hanswer
  case update =>
    intro q reply hcommit
    obtain ⟨qs, qs', hsplit, hbefore, hafter⟩ := q.exists_inOrder_eq
    have hchanged := lines_provenance_around hsplit time source (Function.update ask q reply)
    rw [filterMap_line?_update hcommit hbefore, filterMap_line?_update hcommit hafter] at hchanged
    refine ⟨_, _, lines_provenance_around hsplit time source ask, hchanged, ?_⟩
    intro line hline
    simp only [List.mem_append] at hline hframe
    rcases hline with (hline | hline) | hline | hline
    · exact fun h => hframe line (Or.inl hline) (q.commonStart_prefix.trans h)
    · exact not_lineStart_prefix_of_mem hbefore line hline
    · exact not_lineStart_prefix_of_mem hafter line hline
    · exact fun h => hframe line (Or.inr hline) (q.commonStart_prefix.trans h)
  case bad =>
    intro hbad
    rw [← Reply.answer?_isSome_iff, Option.not_isSome_iff_eq_none] at hbad
    rwa [lines_provenance, List.filterMap_eq_nil_iff.mpr fun q _ => line?_collect_of_none hbad q,
      List.append_nil]

/-- Version control that answers in part: blanks stand around the commit, the
branch is blank, and the remote is no text. -/
def sparseAnswers : Query → Reply
  | .commit => .exited 0 (Text.encode "\u00a00123abcd\r\n".toList)
  | .branch => .exited 0 (Text.encode " \n".toList)
  | .author => .exited 0 (Text.encode "Jo".toList)
  | .remote => .exited 0 ⟨#[0x68, 0xff]⟩

/-- An author who is not known any more takes one line away, and a commit that
is not known takes all. -/
theorem collect_fieldwise_sparse :
    Query.author ≠ .commit ∧
    (∃ before after,
      Provenance.lines ⟨⟨2025, 3, 14, 9, 26, 53, 0⟩, none, collect sparseAnswers⟩ =
        before ++ [" * Git author: Jo".toList] ++ after ∧
      Provenance.lines ⟨⟨2025, 3, 14, 9, 26, 53, 0⟩, none,
          collect (Function.update sparseAnswers .author .unavailable)⟩ = before ++ after) ∧
    ¬ (Function.update sparseAnswers .commit .unavailable .commit).IsGood ∧
    ∀ line ∈ Provenance.lines ⟨⟨2025, 3, 14, 9, 26, 53, 0⟩, none,
      collect (Function.update sparseAnswers .commit .unavailable)⟩,
      ¬ Query.commonStart <+: line := by
  have hother : Query.author ≠ .commit := by decide
  have hcommit : (sparseAnswers .commit).answer? = some "0123abcd".toList :=
    (Reply.answer?_encode _).trans (by decide)
  have hauthor : (sparseAnswers .author).answer? = some "Jo".toList :=
    (Reply.answer?_encode _).trans (by decide)
  have hbad : ¬ (Function.update sparseAnswers .commit .unavailable .commit).IsGood := by
    rw [Function.update_self]
    rintro ⟨_, hreply, _⟩
    cases hreply
  refine ⟨hother, ?_, hbad, (collect_fieldwise _ none _).2.2.2.2 hbad⟩
  obtain ⟨before, after, hlines, hchanged, _⟩ :=
    (collect_fieldwise ⟨2025, 3, 14, 9, 26, 53, 0⟩ none sparseAnswers).2.2.2.1
      .author .unavailable hother
  refine ⟨before, after, ?_, ?_⟩
  · rw [hlines, line?, fact?_collect, hcommit, hauthor]
    rfl
  · have hgone : Reply.unavailable.answer? = none := rfl
    rw [hchanged, line?, fact?_collect, Function.update_self, Function.update_of_ne hother.symm,
      hcommit, Option.bind_some, hgone, Option.map_none, Option.toList_none, List.append_nil]

end Revision

end TypedExports
