import TypedExports.Timestamp
import TypedExports.VersionControl

/-!
# Provenance

The first block of a generated file says when it was generated and from what. Each fact has a line
of its own, and a fact that is not known has none.
-/

namespace TypedExports

/-- When and from what a file is generated. The source has a name unless it is a stream. -/
structure Provenance where
  generatedAt : Timestamp
  source : Option Text := none
  revision : Revision := {}
  deriving DecidableEq, Repr

/-- The line of a fact, if it is known. -/
def factLine (label : Text) (value : Option Text) : List Text :=
  (value.map fun value => " * ".toList ++ label ++ ": ".toList ++ value).toList

/-- The lines about the version, which hang on the commit. -/
def Revision.lines (revision : Revision) : List Text :=
  match revision.commit with
  | none => []
  | some commit =>
    factLine "Git commit".toList (some commit) ++
      factLine "Git branch".toList revision.branch ++
      factLine "Git author".toList revision.author ++
      factLine "Git remote".toList revision.remote

def Provenance.lines (provenance : Provenance) : List Text :=
  ["/**".toList] ++
    factLine "Generated on".toList (some provenance.generatedAt.text) ++
    factLine "Source file".toList provenance.source ++
    provenance.revision.lines ++
    [" */".toList, []]

end TypedExports
