import Std.Time
import TypedExports.CommandLine.Run

/-!
# The program

The host that the operating system is. Its version control cannot be asked, so the generated file
names no commit, and a search can be made ready for every stem.
-/

namespace TypedExports.CommandLine

/-- The number and the description that the system gave an error. -/
def systemCode? : IO.Error → Option (UInt32 × String)
  | .alreadyExists _ code details => some (code, details)
  | .otherError code details => some (code, details)
  | .resourceBusy code details => some (code, details)
  | .resourceVanished code details => some (code, details)
  | .unsupportedOperation code details => some (code, details)
  | .hardwareFault code details => some (code, details)
  | .unsatisfiedConstraints code details => some (code, details)
  | .illegalOperation code details => some (code, details)
  | .protocolError code details => some (code, details)
  | .timeExpired code details => some (code, details)
  | .interrupted _ code details => some (code, details)
  | .noFileOrDirectory _ code details => some (code, details)
  | .invalidArgument _ code details => some (code, details)
  | .permissionDenied _ code details => some (code, details)
  | .resourceExhausted _ code details => some (code, details)
  | .inappropriateType _ code details => some (code, details)
  | .noSuchThing _ code details => some (code, details)
  | .unexpectedEof => none
  | .userError _ => none

def systemError (error : IO.Error) : SystemError :=
  match systemCode? error with
  | some (code, details) => .other s!"{details} (os error {code})".toList
  | none => .other error.toString.toList

/-- What an action gives, or the error that it ends with. -/
def attempt {α : Type} (action : IO α) : IO (Except SystemError α) := do
  match ← action.toBaseIO with
  | .ok value => return .ok value
  | .error error => return .error (systemError error)

/-- Everything that is still to come from a stream. -/
partial def readAll (stream : IO.FS.Stream) (read : ByteArray) : IO ByteArray := do
  let chunk ← stream.read 65536
  if chunk.isEmpty then return read
  readAll stream (read ++ chunk)

def localTime : IO Timestamp := do
  let now ← Std.Time.PlainDateTime.now
  return ⟨now.year.toInt, now.month.toNat, now.day.toNat, now.hour.toNat, now.minute.toNat,
    now.second.toNat, now.nanosecond.toNat⟩

/-- The host that the operating system is. -/
def systemHost : Host IO where
  readInput := attempt do readAll (← IO.getStdin) .empty
  readFile name := attempt (IO.FS.readBinFile (String.ofList name))
  writeFile name content :=
    attempt (IO.FS.writeBinFile (String.ofList (Text.ofBytes name)) content)
  prepareSearch _ := return .ok ()
  localTime := localTime
  versionControl := pure fun _ => .unavailable
  print text := do
    let output ← IO.getStdout
    output.putStr (String.ofList text)
    output.flush
  printError text := do (← IO.getStderr).putStr (String.ofList text)

end TypedExports.CommandLine

/-- Runs the program with the given arguments. -/
def main (arguments : List String) : IO UInt32 := do
  let ending ← TypedExports.CommandLine.systemHost.run (arguments.map String.toList)
  return ending.status.toUInt32
