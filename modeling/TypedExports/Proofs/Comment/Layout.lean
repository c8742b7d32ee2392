import TypedExports.Proofs.Comment.Cleaned
import TypedExports.Proofs.Text.LineEnding

/-!
# Laid out comments

The same lines can be laid out as a comment in many ways: each on a row of its
own, indented or not, behind a marker or not, with rows between them that show
nothing. `LaidOut` lists these ways without mention of how a comment is read.
Reading undoes all of them (`parse_of_laidOut`): it takes the decoration away
and leaves what looks like decoration in the lines themselves.
-/

namespace TypedExports.Comment

/-! ## Rows -/

/-- Blanks that end no line. -/
structure IsGap (u : Text) : Prop where
  blank : ∀ c ∈ u, Text.isBlank c = true
  one_line : Text.lineFeed ∉ u

instance (u : Text) : Decidable (IsGap u) :=
  decidable_of_iff (u.all Text.isBlank = true ∧ Text.lineFeed ∉ u)
    ⟨fun ⟨hblank, hline⟩ => ⟨List.all_eq_true.mp hblank, hline⟩,
      fun ⟨hblank, hline⟩ => ⟨List.all_eq_true.mpr hblank, hline⟩⟩

/-- What ends a row. -/
inductive IsRowEnd : Text → Prop
  | feed : IsRowEnd [Text.lineFeed]
  | returnFeed : IsRowEnd [Text.carriageReturn, Text.lineFeed]

/-- A row, its end apart, with the line that it shows, if it shows one. -/
inductive Row : List Text → Text → Prop
  /-- a line with no marker in front of it; it must not look as if it had one -/
  | bare {l u w : Text} (hbare : ¬ marker <+: l) (hu : IsGap u) (hw : IsGap w) :
      Row [l] (u ++ l ++ w)
  /-- a line behind a marker -/
  | marked {l u v w : Text} (hu : IsGap u) (hv : IsGap v) (hw : IsGap w) :
      Row [l] (u ++ '*' :: (v ++ l) ++ w)
  /-- nothing -/
  | blank {u : Text} (hu : IsGap u) : Row [] u
  /-- a marker with nothing behind it -/
  | empty {u v : Text} (hu : IsGap u) (hv : IsGap v) : Row [] (u ++ ['*'] ++ v)

/-- Rows below one another, each with its end, and the lines that they show. -/
inductive Rows : List Text → Text → Prop
  | nil : Rows [] []
  | cons {shown ls : List Text} {row stop rest : Text} (hrow : Row shown row)
      (hstop : IsRowEnd stop) (hrest : Rows ls rest) : Rows (shown ++ ls) (row ++ stop ++ rest)

/-- The lines laid out as a comment. The opener, with or without another star,
has a row of its own, and so has the closer. -/
inductive LaidOut (ls : List Text) : Text → Prop
  | rows {before star stop rows last after : Text} (hbefore : ∀ c ∈ before, Text.isBlank c = true)
      (hstar : star = [] ∨ star = ['*']) (hstop : IsRowEnd stop) (hrows : Rows ls rows)
      (hlast : IsGap last) (hafter : ∀ c ∈ after, Text.isBlank c = true) :
      LaidOut ls (before ++ (opener ++ (star ++ stop ++ rows ++ last) ++ closer) ++ after)

/-! ## What a row shows -/

theorem cleanLine_blank {u : Text} (hu : ∀ c ∈ u, Text.isBlank c = true) : cleanLine u = [] := by
  have := cleanLine_append hu (List.forall_mem_nil _) []
  rwa [List.append_nil, List.append_nil] at this

variable {shown ls : List Text} {row rows stop last : Text}

/-- Cleaning a row leaves the line that it shows. -/
theorem Row.filter_cleanLine (h : Row shown row) (hshown : ∀ l ∈ shown, IsCleaned l) :
    [cleanLine row].filter (· ≠ []) = shown := by
  cases h with
  | @bare l u w hbare hu hw =>
      have hl := hshown l List.mem_cons_self
      rw [cleanLine_append hu.blank hw.blank, (cleanLine_eq_self_iff hl.trimmed).mpr hbare]
      exact List.filter_cons_of_pos (decide_eq_true hl.ne_nil)
  | @marked l u v w hu hv hw =>
      have hl := hshown l List.mem_cons_self
      rw [cleanLine_marked hu.blank hv.blank hw.blank hl.trimmed hl.ne_nil]
      exact List.filter_cons_of_pos (decide_eq_true hl.ne_nil)
  | blank hu =>
      rw [cleanLine_blank hu.blank]
      rfl
  | empty hu hv =>
      have hmark : cleanLine ['*'] = [] := by decide
      rw [cleanLine_append hu.blank hv.blank, hmark]
      rfl

theorem Row.one_line (h : Row shown row) (hshown : ∀ l ∈ shown, IsCleaned l) :
    Text.lineFeed ∉ row := by
  have hstar : Text.lineFeed ≠ '*' := by decide
  cases h with
  | @bare l u w hbare hu hw =>
      have hl := hshown l List.mem_cons_self
      simp [hu.one_line, hl.one_line, hw.one_line]
  | @marked l u v w hu hv hw =>
      have hl := hshown l List.mem_cons_self
      simp [hu.one_line, hv.one_line, hl.one_line, hw.one_line, hstar]
  | blank hu => exact hu.one_line
  | empty hu hv => simp [hu.one_line, hv.one_line, hstar]

/-! ## What rows show -/

/-- The lines of a text that are left when they are cleaned. -/
def cleanedLines (s : Text) : List Text := ((Text.lines s).map cleanLine).filter (· ≠ [])

/-- A row ends where a line does, a return at its end apart. -/
theorem IsRowEnd.exists_lines (h : IsRowEnd stop) (hrow : Text.lineFeed ∉ row) (rest : Text) :
    ∃ blanks, (∀ c ∈ blanks, Text.isBlank c = true) ∧
      Text.lines (row ++ stop ++ rest) = (row ++ blanks) :: Text.lines rest := by
  cases h with
  | feed =>
      refine ⟨[], List.forall_mem_nil _, ?_⟩
      rw [List.append_assoc, List.append_nil]
      exact Text.lines_append_cons hrow rest
  | returnFeed =>
      have hreturn : Text.lineFeed ∉ row ++ [Text.carriageReturn] := by
        rw [List.mem_append, not_or]
        exact ⟨hrow, by decide⟩
      refine ⟨[Text.carriageReturn], Text.isBlank_of_mem_carriageReturn, ?_⟩
      rw [List.append_assoc]
      have := Text.lines_append_cons hreturn rest
      rwa [List.append_assoc] at this

theorem cleanedLines_row (hstop : IsRowEnd stop) (hrow : Text.lineFeed ∉ row) (rest : Text) :
    cleanedLines (row ++ stop ++ rest) =
      [cleanLine row].filter (· ≠ []) ++ cleanedLines rest := by
  obtain ⟨blanks, hblanks, hlines⟩ := hstop.exists_lines hrow rest
  have hclean : cleanLine (row ++ blanks) = cleanLine row :=
    cleanLine_append (u := []) (List.forall_mem_nil _) hblanks row
  rw [cleanedLines, hlines, List.map_cons, hclean, ← List.singleton_append, List.filter_append]
  rfl

/-- Rows show their lines, whatever blanks stand below them. -/
theorem Rows.cleanedLines_append (h : Rows ls rows) (hls : ∀ l ∈ ls, IsCleaned l)
    (hlast : IsGap last) : cleanedLines (rows ++ last) = ls := by
  induction h with
  | nil =>
      rw [List.nil_append, cleanedLines, Text.lines, List.splitOn_eq_singleton hlast.one_line,
        List.map_singleton, cleanLine_blank hlast.blank]
      rfl
  | cons hrow hstop hrest ih =>
      rw [List.forall_mem_append] at hls
      rw [List.append_assoc, cleanedLines_row hstop (hrow.one_line hls.1),
        hrow.filter_cleanLine hls.1, ih hls.2]

/-! ## Reading a layout -/

theorem parse_append {before after : Text} (hbefore : ∀ c ∈ before, Text.isBlank c = true)
    (hafter : ∀ c ∈ after, Text.isBlank c = true) (raw : Text) :
    parse (before ++ raw ++ after) = parse raw := by
  rw [parse, parse, rawLines, rawLines, Text.trim_append hbefore hafter]

/-- **Layouts.** However lines are laid out as a comment, reading the comment
gives the lines. -/
theorem parse_of_laidOut {ls : List Text} {raw : Text} (hls : ∀ l ∈ ls, IsCleaned l)
    (h : LaidOut ls raw) : parse raw = ⟨ls⟩ := by
  cases h with
  | @rows before star stop rows last after hbefore hstar hstop hrows hlast hafter =>
      have hgap : IsGap [] := by decide
      -- the rest of the opener's row shows nothing
      have hopening : Row [] star := by
        rcases hstar with rfl | rfl
        · exact .blank hgap
        · exact .empty hgap hgap
      have hall : Rows ls (star ++ stop ++ rows) := .cons hopening hstop hrows
      rw [parse_append hbefore hafter, parse, rawLines_delimited, ← cleanedLines,
        hall.cleanedLines_append hls hlast]

/-- Lines that look like decoration. -/
def starryLines : List Text :=
  ["/* a".toList, "* b*/".toList, "*".toList, "c\rd".toList]

/-- Rows that show them, among rows that show nothing. -/
def starryRows : Text :=
  "  *\n".toList ++ ("/* a \r\n".toList ++ ("** b*/\n".toList ++ ("\n".toList ++
    ("\t* *\r\n".toList ++ ("\u2003c\rd\n".toList ++ [])))))

/-- The comment with these rows. -/
def starryComment : Text := " \n/**\r\n".toList ++ starryRows ++ "\t*/\n".toList

theorem parse_of_laidOut_starry :
    (∀ l ∈ starryLines, IsCleaned l) ∧ LaidOut starryLines starryComment ∧
      parse starryComment = ⟨starryLines⟩ := by
  have hcleaned : ∀ l ∈ starryLines, IsCleaned l := by decide
  have hrows : Rows starryLines starryRows :=
    .cons (@Row.empty [' ', ' '] [] (by decide) (by decide)) .feed <|
    .cons (@Row.bare "/* a".toList [] [' '] (by decide) (by decide) (by decide)) .returnFeed <|
    .cons (@Row.marked "* b*/".toList [] [] [] (by decide) (by decide) (by decide)) .feed <|
    .cons (@Row.blank [] (by decide)) .feed <|
    .cons (@Row.marked ['*'] ['\t'] [' '] [] (by decide) (by decide) (by decide)) .returnFeed <|
    .cons (@Row.bare "c\rd".toList ['\u2003'] [] (by decide) (by decide) (by decide)) .feed .nil
  have hlaid : LaidOut starryLines starryComment :=
    @LaidOut.rows _ [' ', '\n'] ['*'] _ _ ['\t'] ['\n'] (List.all_eq_true.mp (by decide))
      (Or.inr rfl) .returnFeed hrows (by decide) (List.all_eq_true.mp (by decide))
  exact ⟨hcleaned, hlaid, parse_of_laidOut hcleaned hlaid⟩

end TypedExports.Comment
