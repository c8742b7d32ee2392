import TypedExports.CommandLine.World
import TypedExports.Proofs.FileSystem

/-!
# The effect of a run

A run has one effect or none. What it prints to standard output, or writes to
a file, comes last, when nothing is left that could fail but the opening of
the file; a failed run leaves a report on the error stream and nothing else.
`Untouched` and `Delivers` say what is left behind in either case, and
`run_effect` which of the two it is.

This holds of any arguments that can be read in any way, of a world in which
files may have several names or be special, and of searches that may be
refused. What `World` and `FileSystem` leave out is left out here: no log is
asked for, what is printed is taken, an open file takes what is written, and
no path leads back to a stream of the run.
-/

namespace TypedExports.CommandLine.World

/-! ## What a run needs and what it leaves -/

/-- The bytes of the input, unless it cannot be read. -/
def bytes (world : World) (input : Text) : Except SystemError ByteArray :=
  if input = standardInput then world.input
  else world.files.read world.working (Text.bytes input)

/-- The input can be read, and it is the header. -/
def Reads (world : World) (input header : Text) : Prop :=
  world.bytes input = .ok (Text.encode header)

/-- A search for the functions of the stem can be made ready. -/
def Accepts (world : World) (stem : Text) : Prop := world.unsearchable stem = none

/-- The output file can be opened for writing. -/
def Opens (world : World) (output : Bytes) : Prop :=
  ∃ location, world.files.destination world.working output = .ok location

/-- Nothing has been printed to standard output, and no file has changed. -/
structure Untouched (before after : World) : Prop where
  output : after.output = before.output
  files : after.files = before.files

/-- The run has failed and left a report of what it was about, nothing else. -/
structure Fails (before : World) (result : Ending × World) (attempt : Attempt) : Prop where
  status : result.1.status = 1
  untouched : before.Untouched result.2
  report : ∃ cause, result.2.errors = before.errors ++ Failure.report ⟨attempt, cause⟩

/-- The document has been delivered, and nothing else has happened: to
standard output with a line feed, or into the output file without one. -/
def Delivers (before after : World) (document : Text) : Option Bytes → Prop
  | none => after.output = before.output ++ document ++ [Text.lineFeed] ∧
      after.files = before.files
  | some name => after.output = before.output ∧
      FileSystem.Written before.files after.files before.working name (Text.encode document)

/-! ## Runs by their steps -/

variable {world : World} {settings : Settings} {header document : Text}

theorem headerOf_eq_ok_iff {attempt : Attempt} {result : Except SystemError ByteArray} :
    headerOf attempt result = .ok header ↔ result = .ok (Text.encode header) := by
  cases result with
  | error cause => exact iff_of_false nofun nofun
  | ok bytes =>
      rw [headerOf, Except.ok.injEq, ← Text.decode?_eq_some_iff]
      cases Text.decode? bytes with
      | none => exact iff_of_false nofun nofun
      | some text => simp

/-- What cannot be read is reported under the name of the input. -/
theorem headerOf_eq_error {attempt : Attempt} {result : Except SystemError ByteArray}
    {failure : Failure} (h : headerOf attempt result = .error failure) :
    failure.attempt = attempt := by
  cases result with
  | error cause =>
      cases h
      rfl
  | ok bytes =>
      rw [headerOf] at h
      split at h
      · cases h
        rfl
      · cases h

theorem fails_fail (world : World) (failure : Failure) :
    world.Fails (host.fail failure world) failure.attempt :=
  ⟨rfl, ⟨rfl, rfl⟩, failure.cause, rfl⟩

theorem readBytes_eq (world : World) (input : Text) :
    host.readBytes input world = (world.bytes input, world) := by
  unfold Host.readBytes bytes
  by_cases hinput : input = standardInput
  · rw [if_pos hinput, if_pos hinput]
    rfl
  · rw [if_neg hinput, if_neg hinput]
    rfl

theorem readHeader_eq (world : World) (input : Text) :
    host.readHeader input world = (headerOf (.ofInput input) (world.bytes input), world) := by
  simp only [Host.readHeader, bind, StateT.bind, readBytes_eq]
  rfl

theorem prepareSearch_eq (world : World) (stem : Text) :
    host.prepareSearch stem world =
      ((world.unsearchable stem).elim (.ok ()) .error, world) := by
  simp only [host, bind, StateT.bind, get, getThe, MonadStateOf.get, StateT.get, pure]
  cases world.unsearchable stem <;> rfl

theorem generate_of_accepts (h : world.Accepts settings.stem) (header : Text) :
    host.generate settings header world =
      (.ok (CommandLine.document settings header world.clock world.ask), world) := by
  have hnone : world.unsearchable settings.stem = none := h
  simp only [Host.generate, bind, StateT.bind, prepareSearch_eq, hnone]
  rfl

theorem generate_of_not_accepts (h : ¬ world.Accepts settings.stem) (header : Text) :
    ∃ cause, host.generate settings header world =
      (.error ⟨.prepareSearch settings.stem, cause⟩, world) := by
  obtain ⟨cause, hcause⟩ := Option.ne_none_iff_exists'.mp h
  refine ⟨cause, ?_⟩
  simp only [Host.generate, bind, StateT.bind, prepareSearch_eq, hcause]
  rfl

theorem writeFile_of_destination {name : Bytes} {location : Location}
    (h : world.files.destination world.working name = .ok location) (content : ByteArray) :
    host.writeFile name content world =
      (.ok (), { world with files := world.files.put location content }) := by
  have hwrite : world.files.write world.working name content =
      .ok (world.files.put location content) := by
    rw [FileSystem.write_eq, h]
    rfl
  simp only [host, bind, StateT.bind, get, getThe, MonadStateOf.get, StateT.get, pure, hwrite]
  rfl

theorem writeFile_of_error {name : Bytes} {cause : SystemError}
    (h : world.files.destination world.working name = .error cause) (content : ByteArray) :
    host.writeFile name content world = (.error cause, world) := by
  have hwrite : world.files.write world.working name content = .error cause := by
    rw [FileSystem.write_eq, h]
    rfl
  simp only [host, bind, StateT.bind, get, getThe, MonadStateOf.get, StateT.get, pure, hwrite]
  rfl

theorem deliver_of_destination {output : Bytes} {location : Location}
    (h : world.files.destination world.working output = .ok location) (document : Text) :
    host.deliver document (some output) world =
      (.success, { world with files := world.files.put location (Text.encode document) }) := by
  simp only [Host.deliver, bind, StateT.bind, writeFile_of_destination h]
  rfl

/-- A document is delivered when there is no output file, or one that can be
opened. -/
theorem deliver_of_opens {output : Option Bytes} (h : ∀ name ∈ output, world.Opens name)
    (document : Text) :
    (host.deliver document output world).1 = .success ∧
      (host.deliver document output world).2.errors = world.errors ∧
      world.Delivers (host.deliver document output world).2 document output := by
  cases output with
  | none => exact ⟨rfl, rfl, (List.append_assoc _ _ _).symm, rfl⟩
  | some name =>
      obtain ⟨location, hlocation⟩ := h name rfl
      rw [deliver_of_destination hlocation]
      exact ⟨rfl, rfl, rfl, FileSystem.written_of_destination hlocation _⟩

theorem fails_deliver {output : Bytes} (h : ¬ world.Opens output) (document : Text) :
    world.Fails (host.deliver document (some output) world) (.writeFile output) := by
  cases hdestination : world.files.destination world.working output with
  | ok location => exact absurd ⟨location, hdestination⟩ h
  | error cause =>
      have hdeliver : host.deliver document (some output) world =
          host.fail ⟨.writeFile output, cause.message⟩ world := by
        simp only [Host.deliver, bind, StateT.bind, writeFile_of_error hdestination]
      rw [hdeliver]
      exact fails_fail _ _

theorem perform_of_reads (h : world.Reads settings.input header)
    (hstem : world.Accepts settings.stem) :
    host.perform settings world =
      host.deliver (CommandLine.document settings header world.clock world.ask) settings.output
        world := by
  have hheader : headerOf (.ofInput settings.input) (world.bytes settings.input) = .ok header :=
    headerOf_eq_ok_iff.mpr h
  simp only [Host.perform, bind, StateT.bind, readHeader_eq, hheader, generate_of_accepts hstem]

theorem fails_perform_of_not_accepts (h : world.Reads settings.input header)
    (hstem : ¬ world.Accepts settings.stem) :
    world.Fails (host.perform settings world) (.prepareSearch settings.stem) := by
  have hheader : headerOf (.ofInput settings.input) (world.bytes settings.input) = .ok header :=
    headerOf_eq_ok_iff.mpr h
  obtain ⟨cause, hgenerate⟩ := generate_of_not_accepts hstem header
  have hperform : host.perform settings world =
      host.fail ⟨.prepareSearch settings.stem, cause⟩ world := by
    simp only [Host.perform, bind, StateT.bind, readHeader_eq, hheader, hgenerate]
  rw [hperform]
  exact fails_fail _ _

theorem fails_perform_of_not_reads (h : ∀ header, ¬ world.Reads settings.input header) :
    world.Fails (host.perform settings world) (.ofInput settings.input) := by
  cases hheader : headerOf (.ofInput settings.input) (world.bytes settings.input) with
  | ok header => exact absurd (headerOf_eq_ok_iff.mp hheader) (h header)
  | error failure =>
      have hperform : host.perform settings world = host.fail failure world := by
        simp only [Host.perform, bind, StateT.bind, readHeader_eq, hheader]
      rw [hperform, ← headerOf_eq_error hheader]
      exact fails_fail _ _

section Arguments

variable {α : Type} {read : α → Except Text Request} {arguments : α}

theorem runWith_of_generate (world : World) (h : read arguments = .ok (.generate settings)) :
    world.runWith read arguments = host.perform settings world := by
  simp only [runWith, Host.runWith, h]

theorem runWith_of_error (world : World) {message : Text} (h : read arguments = .error message) :
    world.runWith read arguments =
      (.misuse, { world with errors := world.errors ++ (message ++ [Text.lineFeed]) }) := by
  simp only [runWith, Host.runWith, h]
  rfl

end Arguments

/-! ## The effect -/

/-- **One effect or none.** Arguments that are rejected, an input that cannot
be read as a text, a stem that cannot be searched for, and an output file that
cannot be opened end the run with a report, and nothing else has happened. A
question for help or the version changes no file. Otherwise the run succeeds,
reports nothing, and has delivered the file generated for what the input held
when the run began. -/
theorem run_effect {α : Type} (read : α → Except Text Request) (world : World) (arguments : α) :
    (∀ message, read arguments = .error message →
      (world.runWith read arguments).1.status = 2 ∧
        world.Untouched (world.runWith read arguments).2 ∧
        (world.runWith read arguments).2.errors =
          world.errors ++ (message ++ [Text.lineFeed])) ∧
    (∀ request, read arguments = .ok request → (∀ settings, request ≠ .generate settings) →
      (world.runWith read arguments).1.status = 0 ∧
        (world.runWith read arguments).2.errors = world.errors ∧
        (world.runWith read arguments).2.files = world.files) ∧
    ∀ settings, read arguments = .ok (.generate settings) →
      ((∀ header, ¬ world.Reads settings.input header) →
        world.Fails (world.runWith read arguments) (.ofInput settings.input)) ∧
      ∀ header, world.Reads settings.input header →
        (¬ world.Accepts settings.stem →
          world.Fails (world.runWith read arguments) (.prepareSearch settings.stem)) ∧
        (world.Accepts settings.stem →
          (∀ output ∈ settings.output, ¬ world.Opens output →
            world.Fails (world.runWith read arguments) (.writeFile output)) ∧
          ((∀ output ∈ settings.output, world.Opens output) →
            (world.runWith read arguments).1.status = 0 ∧
              (world.runWith read arguments).2.errors = world.errors ∧
              world.Delivers (world.runWith read arguments).2
                (CommandLine.document settings header world.clock world.ask)
                settings.output)) := by
  refine ⟨?rejected, ?answered, fun settings hrequest => ⟨?unread, fun header hreads =>
    ⟨?refused, fun haccepts => ⟨?closed, ?delivered⟩⟩⟩⟩
  case rejected =>
    intro message hmessage
    rw [runWith_of_error world hmessage]
    exact ⟨rfl, ⟨rfl, rfl⟩, rfl⟩
  case answered =>
    intro request hrequest hnot
    cases request with
    | help =>
        rw [runWith, Host.runWith, hrequest]
        exact ⟨rfl, rfl, rfl⟩
    | version =>
        rw [runWith, Host.runWith, hrequest]
        exact ⟨rfl, rfl, rfl⟩
    | generate settings => exact absurd rfl (hnot settings)
  case unread =>
    intro hnot
    rw [runWith_of_generate world hrequest]
    exact fails_perform_of_not_reads hnot
  case refused =>
    intro hnot
    rw [runWith_of_generate world hrequest]
    exact fails_perform_of_not_accepts hreads hnot
  case closed =>
    intro output houtput hnot
    rw [runWith_of_generate world hrequest, perform_of_reads hreads haccepts,
      Option.mem_def.mp houtput]
    exact fails_deliver hnot _
  case delivered =>
    intro hopens
    rw [runWith_of_generate world hrequest, perform_of_reads hreads haccepts]
    obtain ⟨hsuccess, hdelivered⟩ := deliver_of_opens hopens
      (CommandLine.document settings header world.clock world.ask)
    rw [hsuccess]
    exact ⟨rfl, hdelivered⟩

/-- A header in a file with two names. A link in a directory leads to one of
them. Stems of a certain length cannot be searched for. -/
def overwriting : World where
  files :=
    { entry := fun l =>
        if l = [Text.bytes "h".toList] then some (.file 0)
        else if l = [Text.bytes "twin".toList] then some (.file 0)
        else if l = [Text.bytes "d".toList] then some .directory
        else if l = [Text.bytes "d".toList, Text.bytes "l".toList] then
          some (.link (Text.bytes "../twin".toList))
        else none
      file := fun _ => .regular (Text.encode "/***/\nint HAKO_F();\n".toList)
      count := 1
      lt_count := by
        intro l number h
        split_ifs at h <;> cases h <;> exact Nat.one_pos }
  working := .existing []
  clock := ⟨2025, 3, 14, 9, 26, 53, 0⟩
  unsearchable := fun stem =>
    if 400000 < stem.length then some "Compiled regex exceeds size limit of 10485760 bytes.".toList
    else none

/-- The header is read from the file that the output is written to. -/
theorem run_effect_overwriting :
    Request.ofTexts ["./h".toList, "d/l".toList] =
        .ok (.generate { input := "./h".toList, output := some (Text.bytes "d/l".toList) }) ∧
      overwriting.Reads "./h".toList "/***/\nint HAKO_F();\n".toList ∧
      overwriting.Accepts Header.defaultStem ∧
      (∀ output ∈ some (Text.bytes "d/l".toList), overwriting.Opens output) ∧
      (overwriting.runWith Request.ofTexts ["./h".toList, "d/l".toList]).1.status = 0 ∧
      (overwriting.runWith Request.ofTexts ["./h".toList, "d/l".toList]).2.errors =
        overwriting.errors ∧
      overwriting.Delivers (overwriting.runWith Request.ofTexts ["./h".toList, "d/l".toList]).2
        (CommandLine.document
          { input := "./h".toList, output := some (Text.bytes "d/l".toList) }
          "/***/\nint HAKO_F();\n".toList overwriting.clock overwriting.ask)
        (some (Text.bytes "d/l".toList)) := by
  have hrequest : Request.ofTexts ["./h".toList, "d/l".toList] =
      .ok (.generate { input := "./h".toList, output := some (Text.bytes "d/l".toList) }) := by rfl
  have hreads : overwriting.Reads "./h".toList "/***/\nint HAKO_F();\n".toList := by rfl
  have haccepts : overwriting.Accepts Header.defaultStem := by rfl
  have hopens : ∀ output ∈ some (Text.bytes "d/l".toList), overwriting.Opens output := by
    intro output houtput
    cases houtput
    exact ⟨[Text.bytes "twin".toList], by rfl⟩
  exact ⟨hrequest, hreads, haccepts, hopens,
    ((((run_effect Request.ofTexts overwriting _).2.2 _ hrequest).2 _ hreads).2 haccepts).2 hopens⟩

end TypedExports.CommandLine.World
