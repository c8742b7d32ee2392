import TypedExports.Header.Scan
import TypedExports.Interface.Document
import TypedExports.Text.Plain

/-!
# Command line arguments

There are two settings given by option, the interface's name and the stem of exported names, and
two given by position, input and output. The value of an option is the rest of its word or, failing
that, the next word, unless that word looks like an option itself. After the word `--` every word
counts by position.

A value is taken in two stages: it is noted when it is read, and it is settled when something after
it needs to know that it is complete. Only settling finds out that a value is missing, that a
setting is given twice, or that the output has no name. So of two mistakes the earlier one wins,
except that a word which cannot be understood at all is reported before the value noted last.

Arguments are read as texts here. The program does not depend on that: it takes the reading of its
arguments as it comes.
-/

namespace TypedExports.CommandLine

inductive Setting where
  | interfaceName
  | stem
  | input
  | output
  deriving DecidableEq, Repr

/-- How error messages show a setting. -/
def Setting.shown : Setting → Text
  | .interfaceName => "--interface-name <INTERFACE_NAME>".toList
  | .stem => "--prefix <PREFIX>".toList
  | .input => "[INPUT]".toList
  | .output => "[OUTPUT]".toList

def standardInput : Text := ['-']

/-- The output, which is only ever a path, need not be a text. -/
structure Settings where
  interfaceName : Text := Interface.defaultName
  stem : Text := Header.defaultStem
  input : Text := standardInput
  output : Option Bytes := none
  deriving DecidableEq, Repr

inductive Request where
  | help
  | version
  | generate (settings : Settings)
  deriving DecidableEq, Repr

inductive UsageError where
  | missingValue (setting : Setting)
  | repeated (setting : Setting)
  | unexpectedArgument (shown : Text)
  | unexpectedValue (option value : Text)
  deriving DecidableEq, Repr

/-- The message that reports the error. What it quotes of the arguments is plain text. -/
def UsageError.message : UsageError → Text
  | .missingValue setting =>
    "error: a value is required for '".toList ++ setting.shown ++
      "' but none was supplied".toList
  | .repeated setting =>
    "error: the argument '".toList ++ setting.shown ++
      "' cannot be used multiple times".toList
  | .unexpectedArgument shown =>
    "error: unexpected argument '".toList ++ Text.plain shown ++ "' found".toList
  | .unexpectedValue option value =>
    "error: unexpected value '".toList ++ Text.plain value ++ "' for '".toList ++ option ++
      "' found; no more were expected".toList

/-! ## Words -/

inductive Flag where
  | set (setting : Setting)
  | ask (request : Request)
  deriving DecidableEq, Repr

def Flag.ofName? (name : Text) : Option Flag :=
  if name = "interface-name".toList then some (.set .interfaceName)
  else if name = "prefix".toList then some (.set .stem)
  else if name = "help".toList then some (.ask .help)
  else if name = "version".toList then some (.ask .version)
  else none

def Flag.ofLetter? : Char → Option Flag
  | 'n' => some (.set .interfaceName)
  | 'p' => some (.set .stem)
  | 'h' => some (.ask .help)
  | 'V' => some (.ask .version)
  | _ => none

/-- A word of the command line as it looks. A long option may have its value behind an equals sign,
a short one behind its letter. -/
inductive Word where
  | separator
  | long (name : Text) (value : Option Text)
  | short (letter : Char) (behind : Text)
  | plain (text : Text)
  deriving DecidableEq, Repr

/-- Looks at a word. A single dash is a plain word. -/
def Word.ofText : Text → Word
  | ['-', '-'] => .separator
  | '-' :: '-' :: rest =>
    match Text.cut? ['='] rest with
    | some (name, value) => .long name (some value)
    | none => .long rest none
  | '-' :: letter :: behind => .short letter behind
  | text => .plain text

def longForm (name : Text) : Text := "--".toList ++ name

/-! ## Reading -/

structure Reading where
  settled : List (Setting × Text) := []
  /-- the setting noted last, with its value if that has been read -/
  noted : Option (Setting × Option Text) := none
  /-- how many words have counted by position -/
  operands : Nat := 0
  deriving DecidableEq, Repr

namespace Reading

def record (r : Reading) (setting : Setting) (value : Text) : Except UsageError Reading :=
  if r.settled.any (·.1 = setting) then .error (.repeated setting)
  else if setting = .output ∧ value = [] then .error (.missingValue setting)
  else .ok { r with settled := r.settled ++ [(setting, value)] }

def settle (r : Reading) : Except UsageError Reading :=
  match r.noted with
  | none => .ok r
  | some (setting, none) => .error (.missingValue setting)
  | some (setting, some value) => { r with noted := none }.record setting value

def set (r : Reading) (setting : Setting) (value : Option Text) :
    Except UsageError Reading := do
  let r ← r.settle
  match value with
  | none => return { r with noted := some (setting, none) }
  | some value => r.record setting value

/-- Reads a word that counts by position. There are two positions. -/
def operand (r : Reading) (word : Text) : Except UsageError Reading :=
  match r.operands with
  | 0 => do return { ← r.settle with noted := some (.input, some word), operands := 1 }
  | 1 => do return { ← r.settle with noted := some (.output, some word), operands := 2 }
  | _ => .error (.unexpectedArgument word)

/-- Reads a plain word: the value that is waited for, if one is, and an operand otherwise. -/
def plain (r : Reading) (word : Text) : Except UsageError Reading :=
  match r.noted with
  | some (setting, none) => .ok { r with noted := some (setting, some word) }
  | _ => r.operand word

def settings (r : Reading) : Settings where
  interfaceName := (r.settled.lookup .interfaceName).getD Interface.defaultName
  stem := (r.settled.lookup .stem).getD Header.defaultStem
  input := (r.settled.lookup .input).getD standardInput
  output := (r.settled.lookup .output).map Text.bytes

def finish (r : Reading) : Except UsageError Request := do
  return .generate (← r.settle).settings

/-- Answers at once, unless what was noted last cannot be settled. -/
def answer (r : Reading) (request : Request) : Except UsageError Request := do
  let _ ← r.settle
  return request

/-- The value in the word of a short option: what is written behind the letter, less one equals
sign. -/
def attached? (behind : Text) : Option Text :=
  if behind = [] then none else some (Text.dropMark ['='] behind)

def request (r : Reading) : List Text → Except UsageError Request
  | [] => r.finish
  | word :: words =>
    match Word.ofText word with
    | .separator => do (← words.foldlM operand r).finish
    | .plain text => do (← r.plain text).request words
    | .long name value =>
      match Flag.ofName? name, value with
      | none, _ => .error (.unexpectedArgument (longForm name))
      | some (.set setting), value => do (← r.set setting value).request words
      | some (.ask _), some value => .error (.unexpectedValue (longForm name) value)
      | some (.ask request), none => r.answer request
    | .short letter behind =>
      match Flag.ofLetter? letter with
      | none => .error (.unexpectedArgument ['-', letter])
      | some (.set setting) => do (← r.set setting (attached? behind)).request words
      | some (.ask request) => r.answer request

end Reading

def Request.ofArguments (words : List Text) : Except UsageError Request :=
  ({} : Reading).request words

/-- What texts ask for, or the message that rejects them. -/
def Request.ofTexts (words : List Text) : Except Text Request :=
  (Request.ofArguments words).mapError UsageError.message

end TypedExports.CommandLine
