import TypedExports.CommandLine.Arguments
import TypedExports.FileSystem.Basic

/-!
# Runs

A run reads one header and writes one generated file. What it needs from its surroundings is a
`Host`, in whatever monad the host lives; the order of the steps is fixed here. Nothing is printed
or written before everything that can fail has succeeded, except the writing itself.
-/

namespace TypedExports.CommandLine

/-- What a run needs from its surroundings. -/
structure Host (m : Type → Type) where
  readInput : m (Except SystemError ByteArray)
  readFile : Text → m (Except SystemError ByteArray)
  writeFile : Bytes → ByteArray → m (Except SystemError Unit)
  /-- makes ready to search for the functions of a stem, or says why that cannot be done -/
  prepareSearch : Text → m (Except Text Unit)
  localTime : m Timestamp
  versionControl : m (Query → Reply)
  print : Text → m Unit
  printError : Text → m Unit

/-! ## Endings -/

inductive Ending where
  | success
  /-- something cannot be read, searched for or written -/
  | failure
  /-- the arguments are rejected -/
  | misuse
  deriving DecidableEq, Repr

def Ending.status : Ending → Nat
  | .success => 0
  | .failure => 1
  | .misuse => 2

/-- What a run was about when it failed. -/
inductive Attempt where
  | readInput
  | readFile (name : Text)
  | prepareSearch (stem : Text)
  | writeFile (name : Bytes)
  deriving DecidableEq, Repr

def Attempt.failed : Attempt → Text
  | .readInput => "failed to read stdin".toList
  | .readFile name => "failed to read ".toList ++ name
  | .prepareSearch stem => "invalid function prefix: ".toList ++ stem
  | .writeFile name => "failed to write ".toList ++ Text.ofBytes name

structure Failure where
  attempt : Attempt
  cause : Text

def Failure.report (failure : Failure) : Text :=
  "Error: ".toList ++ failure.attempt.failed ++ "\n\nCaused by:\n    ".toList ++ failure.cause ++
    ['\n']

/-! ## The header and the file for it -/

/-- What reading a header is about. -/
def Attempt.ofInput (input : Text) : Attempt :=
  if input = standardInput then .readInput else .readFile input

/-- The header in the bytes that have been read, which must be a text. -/
def headerOf (attempt : Attempt) : Except SystemError ByteArray → Except Failure Text
  | .error cause => .error ⟨attempt, cause.message⟩
  | .ok bytes =>
    match Text.decode? bytes with
    | none => .error ⟨attempt, SystemError.notText.message⟩
    | some header => .ok header

/-- The name under which the input is recorded. A stream has none. -/
def sourceName? (input : Text) : Option Text :=
  if input = standardInput then none
  else (Path.parse (Text.bytes input)).fileName?.map Text.ofBytes

/-- The generated file for a header. -/
def document (settings : Settings) (header : Text) (time : Timestamp) (ask : Query → Reply) :
    Text :=
  Interface.document settings.interfaceName (Header.extract settings.stem header)
    ⟨time, sourceName? settings.input, Revision.collect ask⟩

/-! ## Answers -/

def versionText : Text := "hako-tsgen 0.1.0\n".toList

def helpText : Text :=
  "Generate a TypeScript exports interface from an annotated C header

Usage: hako-tsgen [OPTIONS] [INPUT] [OUTPUT]

Arguments:
  [INPUT]   Input header file, or \"-\" for stdin [default: -]
  [OUTPUT]  Output file. If omitted, writes to stdout

Options:
  -n, --interface-name <INTERFACE_NAME>  Name of the generated interface [default: HakoExports]
  -p, --prefix <PREFIX>                  Naming prefix of exported functions [default: HAKO_]
  -h, --help                             Print help
  -V, --version                          Print version
".toList

/-! ## Steps -/

section

variable {m : Type → Type} [Monad m]

def Host.fail (host : Host m) (failure : Failure) : m Ending := do
  host.printError failure.report
  return .failure

def Host.readBytes (host : Host m) (input : Text) : m (Except SystemError ByteArray) :=
  if input = standardInput then host.readInput else host.readFile input

def Host.readHeader (host : Host m) (input : Text) : m (Except Failure Text) := do
  return headerOf (.ofInput input) (← host.readBytes input)

/-- Generates a file. Time and version are asked for when the header has been searched. -/
def Host.generate (host : Host m) (settings : Settings) (header : Text) :
    m (Except Failure Text) := do
  match ← host.prepareSearch settings.stem with
  | .error cause => return .error ⟨.prepareSearch settings.stem, cause⟩
  | .ok () =>
    let time ← host.localTime
    let ask ← host.versionControl
    return .ok (document settings header time ask)

/-- Delivers a generated file: into the output file or, with a line feed, to standard output. -/
def Host.deliver (host : Host m) (document : Text) : Option Bytes → m Ending
  | none => do
    host.print (document ++ [Text.lineFeed])
    return .success
  | some output => do
    match ← host.writeFile output (Text.encode document) with
    | .ok () => return .success
    | .error cause => host.fail ⟨.writeFile output, cause.message⟩

/-- Reads, generates and delivers. -/
def Host.perform (host : Host m) (settings : Settings) : m Ending := do
  match ← host.readHeader settings.input with
  | .error failure => host.fail failure
  | .ok header =>
    match ← host.generate settings header with
    | .error failure => host.fail failure
    | .ok document => host.deliver document settings.output

/-- Does what the arguments ask for. They are of any type that `read` understands; reading them
does nothing else. -/
def Host.runWith {α : Type} (host : Host m) (read : α → Except Text Request) (arguments : α) :
    m Ending := do
  match read arguments with
  | .error message =>
    host.printError (message ++ [Text.lineFeed])
    return .misuse
  | .ok .help =>
    host.print helpText
    return .success
  | .ok .version =>
    host.print versionText
    return .success
  | .ok (.generate settings) => host.perform settings

def Host.run (host : Host m) (arguments : List Text) : m Ending :=
  host.runWith Request.ofTexts arguments

end

end TypedExports.CommandLine
