import TypedExports.Text.Encoding

/-!
# Version control

Four questions are asked about the working directory: for the current commit, the current branch,
name and address of the commit's author, and the address of the remote repository. A question is
answered when the program that is asked ends well and says something; everything else counts as no
answer, and none of it is an error. Without a commit the other answers mean nothing and are not
kept.
-/

namespace TypedExports

inductive Query where
  | commit
  | branch
  | author
  | remote
  deriving DecidableEq, Repr

/-- What comes back, unless there is nobody to ask. -/
inductive Reply where
  | unavailable
  | exited (status : Int) (output : ByteArray)

/-- The answer in a reply: what was printed, trimmed, unless the status tells of a failure, the
bytes are no text, or only blanks were printed. -/
def Reply.answer? : Reply → Option Text
  | .unavailable => none
  | .exited status output =>
    if status = 0 then ((Text.decode? output).map Text.trim).filter (· ≠ []) else none

/-- What is known of the version under which the header was read. -/
structure Revision where
  commit : Option Text := none
  branch : Option Text := none
  author : Option Text := none
  remote : Option Text := none
  deriving DecidableEq, Repr

def Revision.collect (ask : Query → Reply) : Revision :=
  match (ask .commit).answer? with
  | none => {}
  | some commit =>
    { commit := some commit
      branch := (ask .branch).answer?
      author := (ask .author).answer?
      remote := (ask .remote).answer? }

end TypedExports
