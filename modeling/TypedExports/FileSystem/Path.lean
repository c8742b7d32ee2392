import TypedExports.Text.Encoding

/-!
# Paths

A path is a sequence of steps from a starting directory. Slashes that follow one another count as
one, and a slash at the end asks for a directory. Names are bytes, which need not spell a text.
-/

namespace TypedExports

inductive Path.Step where
  | here
  | up
  | into (name : Bytes)
  deriving DecidableEq, Repr

structure Path where
  absolute : Bool
  steps : List Path.Step
  endsInSlash : Bool
  deriving DecidableEq, Repr

namespace Path

def slash : UInt8 := '/'.toUInt8

def dot : UInt8 := '.'.toUInt8

def Step.ofComponent (component : Bytes) : Step :=
  if component = [dot] then .here
  else if component = [dot, dot] then .up
  else .into component

def parse (s : Bytes) : Path where
  absolute := s.head? = some slash
  steps := ((s.splitOn slash).filter (· ≠ [])).map Step.ofComponent
  endsInSlash := s.getLast? = some slash

/-- The name of what the path leads to, if the last step that goes anywhere goes to a name. -/
def fileName? (path : Path) : Option Bytes :=
  match (path.steps.filter (· ≠ .here)).getLast? with
  | some (.into name) => some name
  | _ => none

/-- The path that goes on where a link to this one stood, with the steps behind the link. -/
def through (target : Path) (rest : List Path.Step) (endsInSlash : Bool) : Path :=
  { target with
    steps := target.steps ++ rest
    endsInSlash := endsInSlash || (rest.isEmpty && target.endsInSlash) }

example : (parse (Text.bytes "bridge//a.h/.".toList)).fileName? =
      some (Text.bytes "a.h".toList) ∧
    (parse (Text.bytes "a/..".toList)).fileName? = none := by decide

end Path

end TypedExports
