import TypedExports.CommandLine.Run

/-!
# Runs in a world

A world is a host made of values: a file system, a working directory, what reading standard input
gives, a clock that stands still, the stems for which no search can be made ready, and what version
control would answer. A run in a world is a function, so that what it changes can be compared with
what there was.

What such a run leaves out: the log, which is off unless it is asked for and goes to the error
stream; that standard output and standard error may fail to take what is printed; and that a path
may lead back to a stream of the run itself. A file that is open takes all that is written into it.
-/

namespace TypedExports.CommandLine

/-- Everything a run can see, and everything it has printed. `unsearchable` says why the search for
a stem cannot be made ready, if it cannot: the pattern for a stem may be larger than what the search
takes. `answers` are given in a working directory that exists. -/
structure World where
  files : FileSystem
  working : Place
  input : Except SystemError ByteArray := .ok .empty
  clock : Timestamp
  unsearchable : Text → Option Text := fun _ => none
  answers : Query → Reply := fun _ => .unavailable
  output : Text := []
  errors : Text := []

namespace World

/-- What version control answers. In a removed directory nobody can be asked. -/
def ask (world : World) (query : Query) : Reply :=
  match world.working with
  | .existing _ => world.answers query
  | .removed _ => .unavailable

def host : Host (StateM World) where
  readInput := do return (← get).input
  readFile name := do
    let world ← get
    return world.files.read world.working (Text.bytes name)
  writeFile name content := do
    let world ← get
    match world.files.write world.working name content with
    | .error cause => return .error cause
    | .ok files =>
      set { world with files := files }
      return .ok ()
  prepareSearch stem := do
    match (← get).unsearchable stem with
    | some cause => return .error cause
    | none => return .ok ()
  localTime := do return (← get).clock
  versionControl := do return (← get).ask
  print text := modify fun world => { world with output := world.output ++ text }
  printError text := modify fun world => { world with errors := world.errors ++ text }

/-- Runs the program: how the run ends, and the world that it leaves. The arguments may be of any
type, and `read` is any way to read them. -/
def runWith {α : Type} (world : World) (read : α → Except Text Request) (arguments : α) :
    Ending × World :=
  host.runWith read arguments world

def run (world : World) (arguments : List Text) : Ending × World :=
  world.runWith Request.ofTexts arguments

end World

end TypedExports.CommandLine
