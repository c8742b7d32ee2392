import TypedExports.FileSystem.Path
import TypedExports.Text.Lenient

/-!
# File systems

A file system says for each list of names, read from the root, what is there, and what the system
refuses to do with it: for want of a permission, on a medium that cannot be written, or for any
other reason. Files have numbers, so that one file may be at several locations; a link holds a path
to what is elsewhere. A path is walked step by step, and every step but the last must lead through a
directory. A link on the way is replaced by the steps of the path that it holds, but only so many
times. The place where the walk starts may itself have been removed; from there nothing can be
reached by name, but the directory that held it can.

A regular file keeps what is written into it. A special file, such as a device or a pipe, stands for
something outside of the file system: what is read from it comes from there, and what is written
goes there. What it does with either is not described, and neither is that it may stand for a stream
which the program uses itself.

`read` and `write` answer with the error that the operating system would give. Writing is in two
parts: `destination` opens the file and may fail, and what it has opened is then written in full. A
failed `write` gives no file system back, so nothing can have changed.
-/

namespace TypedExports

inductive SystemError where
  | notFound
  | notADirectory
  | isADirectory
  | nameTooLong
  | tooManyLinks
  | notText
  /-- any other cause, described by the system -/
  | other (description : Text)
  deriving DecidableEq, Repr

def SystemError.message : SystemError → Text
  | .notFound => "No such file or directory (os error 2)".toList
  | .notADirectory => "Not a directory (os error 20)".toList
  | .isADirectory => "Is a directory (os error 21)".toList
  | .nameTooLong => "File name too long (os error 36)".toList
  | .tooManyLinks => "Too many levels of symbolic links (os error 40)".toList
  | .notText => "stream did not contain valid UTF-8".toList
  | .other description => description

/-- The names that lead from the root to a place. -/
abbrev Location := List Bytes

inductive Entry where
  | directory
  | file (number : Nat)
  /-- a link, which stands for what the path names from the directory that holds it -/
  | link (path : Bytes)

/-- A file. `offered` is what reading a special file gives, and `taken` what it was given when it
was written last. -/
inductive File where
  | regular (content : ByteArray)
  | special (offered : Except SystemError ByteArray) (taken : ByteArray)

namespace File

def read : File → Except SystemError ByteArray
  | .regular content => .ok content
  | .special offered _ => offered

def content : File → ByteArray
  | .regular content => content
  | .special _ taken => taken

def overwrite : File → ByteArray → File
  | .regular _, content => .regular content
  | .special offered _, content => .special offered content

@[simp] theorem content_overwrite (file : File) (content : ByteArray) :
    (file.overwrite content).content = content := by
  cases file <;> rfl

end File

inductive Access where
  /-- look for a name in the directory -/
  | search
  /-- follow the link -/
  | follow
  | read
  /-- write the file, or make one in the directory -/
  | write
  deriving DecidableEq, Repr

/-- The root is a directory whatever `entry` says of it. Numbers from `count` on belong to no file
yet. -/
structure FileSystem where
  entry : Location → Option Entry
  file : Nat → File
  count : Nat
  lt_count : ∀ {location number}, entry location = some (.file number) → number < count
  /-- why an access is refused, if it is -/
  refusal : Access → Location → Option SystemError := fun _ _ => none

/-- Where a walk is: at a location, or in a directory that has been removed from the one named. -/
inductive Place where
  | existing (location : Location)
  | removed (parent : Location)
  deriving DecidableEq, Repr

namespace FileSystem

def get? (fs : FileSystem) : Location → Option Entry
  | [] => some .directory
  | location => fs.entry location

/-- Writes a file that is there, under whichever of its names. -/
def overwrite (fs : FileSystem) (number : Nat) (content : ByteArray) : FileSystem :=
  { fs with file := fun n => if n = number then (fs.file n).overwrite content else fs.file n }

def create (fs : FileSystem) (location : Location) (content : ByteArray) : FileSystem where
  entry l := if l = location then some (.file fs.count) else fs.entry l
  file n := if n = fs.count then .regular content else fs.file n
  count := fs.count + 1
  lt_count := by
    intro l number h
    split at h
    · cases h
      exact Nat.lt_succ_self _
    · exact Nat.lt_succ_of_lt (fs.lt_count h)
  refusal := fs.refusal

def put (fs : FileSystem) (location : Location) (content : ByteArray) : FileSystem :=
  match fs.get? location with
  | some (.file number) => fs.overwrite number content
  | _ => fs.create location content

def allow (fs : FileSystem) (access : Access) (location : Location) : Except SystemError Unit :=
  match fs.refusal access location with
  | some error => .error error
  | none => .ok ()

def nameLimit : Nat := 255

/-- The length in bytes that no path reaches. -/
def pathLimit : Nat := 4096

def find (fs : FileSystem) (directory : Location) (name : Bytes) :
    Except SystemError (Option Entry) :=
  if nameLimit < name.length then .error .nameTooLong
  else .ok (fs.get? (directory ++ [name]))

def enter (fs : FileSystem) (location : Location) : Except SystemError Place :=
  match fs.get? location with
  | some .directory => .ok (.existing location)
  | _ => .error .notADirectory

/-- Goes on only in a directory, and only if names may be looked for in it. -/
def search (fs : FileSystem) (location : Location) : Except SystemError Unit :=
  match fs.get? location with
  | some .directory => fs.allow .search location
  | _ => .error .notADirectory

def step (fs : FileSystem) : Place → Path.Step → Except SystemError Place
  | .removed parent, .here => .ok (.removed parent)
  | .removed parent, .up => fs.enter parent
  | .removed _, .into _ => .error .notFound
  | .existing location, .here => do
    fs.search location
    .ok (.existing location)
  | .existing location, .up => do
    fs.search location
    fs.enter location.dropLast
  | .existing location, .into name => do
    fs.search location
    match ← fs.find location name with
    | some _ => .ok (.existing (location ++ [name]))
    | none => .error .notFound

inductive Goal where
  | place (place : Place)
  /-- a name in a directory, under which there is no link -/
  | name (directory : Location) (name : Bytes) (endsInSlash : Bool)
  deriving DecidableEq, Repr

inductive Stop where
  | goal (goal : Goal)
  /-- at a link, with the steps behind it -/
  | link (location : Location) (path : Bytes) (rest : List Path.Step)
  deriving DecidableEq, Repr

def link? (fs : FileSystem) : Place → Option (Location × Bytes)
  | .removed _ => none
  | .existing location =>
    match fs.get? location with
    | some (.link path) => some (location, path)
    | _ => none

/-- The last step of a walk, to a name. A file that is written cannot be asked to be a directory. -/
def settle (fs : FileSystem) (access : Access) (endsInSlash : Bool) :
    Place → Bytes → Except SystemError Stop
  | .removed _, _ =>
    .error (if access = .write ∧ endsInSlash then .isADirectory else .notFound)
  | .existing location, name => do
    fs.search location
    if access = .write ∧ endsInSlash then .error .isADirectory
    else
      match ← fs.find location name with
      | some (.link path) => .ok (.link (location ++ [name]) path [])
      | _ => .ok (.goal (.name location name endsInSlash))

/-- Walks along the steps up to the first link. -/
def advance (fs : FileSystem) (access : Access) (endsInSlash : Bool) :
    Place → List Path.Step → Except SystemError Stop
  | place, [] => .ok (.goal (.place place))
  | place, [.into name] => fs.settle access endsInSlash place name
  | place, s :: rest => do
    let next ← fs.step place s
    match fs.link? next with
    | some (location, path) => .ok (.link location path rest)
    | none => fs.advance access endsInSlash next rest

/-- The path that a name spells, unless the system refuses the name as it stands. -/
def path (s : Bytes) : Except SystemError Path :=
  if s = [] then .error .notFound
  else if pathLimit ≤ s.length then .error .nameTooLong
  else .ok (Path.parse s)

def start (working : Place) (path : Path) : Place :=
  if path.absolute then .existing [] else working

def linkLimit : Nat := 40

/-- Walks along a path and through the links on it, in so many walks at most. -/
def locate (fs : FileSystem) (access : Access) : Nat → Place → Path → Except SystemError Goal
  | 0, _, _ => .error .tooManyLinks
  | walks + 1, working, p => do
    match ← fs.advance access p.endsInSlash (start working p) p.steps with
    | .goal goal => .ok goal
    | .link location held rest =>
      fs.allow .follow location
      let target ← path held
      fs.locate access walks (.existing location.dropLast) (target.through rest p.endsInSlash)

def goal (fs : FileSystem) (access : Access) (working : Place) (name : Bytes) :
    Except SystemError Goal := do
  fs.locate access (linkLimit + 1) working (← path name)

def read (fs : FileSystem) (working : Place) (name : Bytes) : Except SystemError ByteArray := do
  match ← fs.goal .read working name with
  | .place (.removed _) => .error .isADirectory
  | .place (.existing location) =>
    fs.allow .read location
    .error .isADirectory
  | .name directory file endsInSlash =>
    match fs.get? (directory ++ [file]) with
    | none => .error .notFound
    | some (.file number) =>
      if endsInSlash then .error .notADirectory
      else do
        fs.allow .read (directory ++ [file])
        (fs.file number).read
    | some _ =>
      fs.allow .read (directory ++ [file])
      .error .isADirectory

/-- Opens a file for writing, which the file must allow, or the directory if there is none. -/
def openFile (fs : FileSystem) (directory : Location) (name : Bytes) :
    Except SystemError Location :=
  match fs.get? (directory ++ [name]) with
  | none => do
    fs.allow .write directory
    .ok (directory ++ [name])
  | some (.file _) => do
    fs.allow .write (directory ++ [name])
    .ok (directory ++ [name])
  | some _ => .error .isADirectory

/-- Where a file of this name is written, once it is open for that. -/
def destination (fs : FileSystem) (working : Place) (name : Bytes) :
    Except SystemError Location := do
  match ← fs.goal .write working name with
  | .place _ => .error .isADirectory
  | .name directory file _ => fs.openFile directory file

def write (fs : FileSystem) (working : Place) (name : Bytes) (content : ByteArray) :
    Except SystemError FileSystem := do
  return fs.put (← fs.destination working name) content

end FileSystem

end TypedExports
