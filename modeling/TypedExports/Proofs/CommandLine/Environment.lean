import TypedExports.Proofs.CommandLine.Effect
import TypedExports.Proofs.Text.Lines

/-!
# What a generated file shows of its environment

Two runs that succeed on the same header, with the same settings for the
content, generate the same file behind the provenance block, whatever else is
different between them (`generates_agree`). Inside the block the way in which
the header was read shows in one line: there is one for the name of a file,
and every file has such a name.
-/

namespace TypedExports.CommandLine.World

/-- A run that succeeds on a header, and the document that it delivers. -/
structure Generates (world : World) (arguments : List Text) (settings : Settings)
    (header document : Text) : Prop where
  request : Request.ofArguments arguments = .ok (.generate settings)
  reads : world.Reads settings.input header
  succeeds : (world.run arguments).1.status = 0
  delivers : world.Delivers (world.run arguments).2 document settings.output

/-- What the run knows of when and from what it generates. -/
def provenance (world : World) (settings : Settings) : Provenance :=
  ⟨world.clock, sourceName? settings.input, Revision.collect world.ask⟩

/-! ## The document of a run -/

variable {world : World} {arguments : List Text} {settings : Settings} {header document : Text}

theorem run_of_request (hrequest : Request.ofArguments arguments = .ok (.generate settings)) :
    world.run arguments = host.perform settings world :=
  runWith_of_generate world (by rw [Request.ofTexts, hrequest]; rfl)

theorem generates_of_opens (hrequest : Request.ofArguments arguments = .ok (.generate settings))
    (hreads : world.Reads settings.input header) (haccepts : world.Accepts settings.stem)
    (hopens : ∀ output ∈ settings.output, world.Opens output) :
    world.Generates arguments settings header
      (CommandLine.document settings header world.clock world.ask) := by
  obtain ⟨hsuccess, _, hdelivers⟩ := deliver_of_opens hopens
    (CommandLine.document settings header world.clock world.ask)
  refine ⟨hrequest, hreads, ?_, ?_⟩
  · rw [run_of_request hrequest, perform_of_reads hreads haccepts, hsuccess]
    rfl
  · rwa [run_of_request hrequest, perform_of_reads hreads haccepts]

/-- At most one document has been delivered. -/
theorem Delivers.unique {after : World} {document' : Text} {output : Option Bytes}
    (h : world.Delivers after document output) (h' : world.Delivers after document' output) :
    document = document' := by
  cases output with
  | none =>
      have hsame := h.1.symm.trans h'.1
      rw [List.append_assoc, List.append_assoc] at hsame
      exact List.append_cancel_right (List.append_cancel_left hsame)
  | some name =>
      have hdecode := congrArg Text.decode? (h.2.unique h'.2)
      rwa [Text.decode?_encode, Text.decode?_encode, Option.some.injEq] at hdecode

theorem Fails.not_success {result : Ending × World} {attempt : Attempt}
    (h : world.Fails result attempt) : result.1.status ≠ 0 := by
  rw [h.status]
  decide

theorem Generates.eq_document (h : world.Generates arguments settings header document) :
    document = CommandLine.document settings header world.clock world.ask := by
  have hsucceeds := h.succeeds
  have hdelivers := h.delivers
  rw [run_of_request h.request] at hsucceeds hdelivers
  have haccepts : world.Accepts settings.stem := by
    by_contra hnot
    exact (fails_perform_of_not_accepts h.reads hnot).not_success hsucceeds
  rw [perform_of_reads h.reads haccepts] at hsucceeds hdelivers
  have hopens : ∀ output ∈ settings.output, world.Opens output := by
    intro output houtput
    by_contra hnot
    rw [Option.mem_def.mp houtput] at hsucceeds
    exact (fails_deliver hnot _).not_success hsucceeds
  exact hdelivers.unique (deliver_of_opens hopens _).2.2

/-! ## The provenance block -/

/-- The lines of a document up to the one that tells the time. -/
def opening (time : Timestamp) : List Text :=
  ["/**".toList, " * Generated on: ".toList ++ time.text]

/-- The line that tells the name of the source. -/
def sourceLine (name : Text) : Text := " * Source file: ".toList ++ name

/-- What follows the line about the source in the provenance block. -/
def closing (revision : Revision) : List Text := revision.lines ++ [" */".toList, []]

theorem factLine_some {label opened value : Text}
    (h : " * ".toList ++ label ++ ": ".toList = opened) :
    factLine label (some value) = [opened ++ value] := by
  rw [← h]
  rfl

theorem factLine_generatedOn (value : Text) :
    factLine "Generated on".toList (some value) = [" * Generated on: ".toList ++ value] :=
  factLine_some (by decide)

theorem factLine_sourceFile (name : Text) :
    factLine "Source file".toList (some name) = [sourceLine name] :=
  factLine_some (by decide)

theorem lines_of_no_source (time : Timestamp) (revision : Revision) :
    Provenance.lines ⟨time, none, revision⟩ = opening time ++ closing revision := by
  rw [Provenance.lines, factLine_generatedOn, List.append_assoc]
  rfl

theorem lines_of_source (time : Timestamp) (name : Text) (revision : Revision) :
    Provenance.lines ⟨time, some name, revision⟩ =
      opening time ++ sourceLine name :: closing revision := by
  rw [Provenance.lines, factLine_generatedOn, factLine_sourceFile, List.append_assoc,
    List.append_assoc]
  rfl

theorem sourceName?_standardInput : sourceName? standardInput = none := if_pos rfl

/-- A file from which a header is read has a name, which ends its path. -/
theorem exists_sourceName?_of_reads {input : Text} (hinput : input ≠ standardInput)
    (h : world.Reads input header) :
    ∃ name, Path.IsLastComponent input name ∧ sourceName? input = some name := by
  unfold Reads bytes at h
  rw [if_neg hinput] at h
  obtain ⟨name, hname, hfile⟩ := FileSystem.exists_lastComponent_of_read h
  refine ⟨name, hname, ?_⟩
  rw [sourceName?, if_neg hinput, hfile, Option.map_some, Text.ofBytes_bytes]

/-! ## The environment -/

/-- **The environment stays in the provenance block.** What two runs on one
header generate is the same behind it. If they agree in the clock and in what
version control answers, then the run that reads a file has one line more than
the run that reads standard input, with the last component of the path. Every
path under which a file can be read has one. -/
theorem generates_agree {first second : World} {arguments arguments' : List Text}
    {settings settings' : Settings} {header document document' : Text}
    (h : first.Generates arguments settings header document)
    (h' : second.Generates arguments' settings' header document')
    (hstem : settings.stem = settings'.stem)
    (hname : settings.interfaceName = settings'.interfaceName) :
    (∃ rest, document = Text.unlines (first.provenance settings).lines ++ rest ∧
      document' = Text.unlines (second.provenance settings').lines ++ rest) ∧
    (settings.input = standardInput → settings'.input ≠ standardInput →
      first.clock = second.clock → first.ask = second.ask →
      ∃ name tail, Path.IsLastComponent settings'.input name ∧
        document = Text.unlines (opening first.clock ++ tail) ∧
        document' = Text.unlines (opening first.clock ++ sourceLine name :: tail)) ∧
    ∀ (fs : FileSystem) working path bytes, fs.read working (Text.bytes path) = .ok bytes →
      ∃ name, Path.IsLastComponent path name := by
  obtain rfl := h.eq_document
  obtain rfl := h'.eq_document
  unfold CommandLine.document
  rw [← hstem, ← hname]
  generalize Header.extract settings.stem header = functions
  generalize settings.interfaceName = name
  refine ⟨?rest, ?source, ?named⟩
  case rest =>
    have hne : ∀ p : Provenance, p.lines ≠ [] := fun p => by simp [Provenance.lines]
    have hbody : Interface.body name functions ≠ [] := by simp [Interface.body]
    refine ⟨Text.lineFeed :: Text.unlines (Interface.body name functions), ?_, ?_⟩
    · exact Text.unlines_append (hne _) hbody
    · exact Text.unlines_append (hne _) hbody
  case source =>
    intro hinput hinput' hclock hask
    obtain ⟨file, hcomponent, hsource⟩ := exists_sourceName?_of_reads hinput' h'.reads
    refine ⟨file, closing (Revision.collect first.ask) ++ Interface.body name functions,
      hcomponent, ?_, ?_⟩
    · rw [Interface.document, Interface.lines, hinput, sourceName?_standardInput,
        lines_of_no_source, List.append_assoc]
    · rw [Interface.document, Interface.lines, hsource, lines_of_source, hclock, hask,
        List.append_assoc, List.cons_append]
  case named =>
    intro fs working path bytes hread
    obtain ⟨file, hcomponent, _⟩ := FileSystem.exists_lastComponent_of_read hread
    exact ⟨file, hcomponent⟩

/-- A header that can be read from standard input, and from a file with the
name that stands for it. -/
def routes : World where
  files :=
    { entry := fun l => if l = [Text.bytes "-".toList] then some (.file 0) else none
      file := fun _ => .regular (Text.encode "/***/\nint HAKO_F();\n".toList)
      count := 1
      lt_count := by
        intro l number h
        split_ifs at h
        cases h
        exact Nat.one_pos }
  input := .ok (Text.encode "/***/\nint HAKO_F();\n".toList)
  working := .existing []
  clock := ⟨2025, 3, 14, 9, 26, 53, 0⟩

theorem generates_agree_routes :
    ∃ document document' name tail,
      routes.Generates [] {} "/***/\nint HAKO_F();\n".toList document ∧
      routes.Generates ["./-".toList] { input := "./-".toList }
        "/***/\nint HAKO_F();\n".toList document' ∧
      Path.IsLastComponent "./-".toList name ∧
      document = Text.unlines (opening routes.clock ++ tail) ∧
      document' = Text.unlines (opening routes.clock ++ sourceLine name :: tail) := by
  have hinput : routes.Generates [] {} "/***/\nint HAKO_F();\n".toList
      (CommandLine.document {} "/***/\nint HAKO_F();\n".toList routes.clock routes.ask) :=
    generates_of_opens (by rfl) (by rfl) (by rfl) nofun
  have hfile : routes.Generates ["./-".toList] { input := "./-".toList }
      "/***/\nint HAKO_F();\n".toList
      (CommandLine.document { input := "./-".toList } "/***/\nint HAKO_F();\n".toList
        routes.clock routes.ask) :=
    generates_of_opens (by rfl) (by rfl) (by rfl) nofun
  obtain ⟨name, tail, hname, hdocuments⟩ :=
    (generates_agree hinput hfile rfl rfl).2.1 rfl (by decide) rfl rfl
  exact ⟨_, _, name, tail, hinput, hfile, hname, hdocuments⟩

end TypedExports.CommandLine.World
