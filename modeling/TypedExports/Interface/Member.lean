import TypedExports.ExportedFunction

/-!
# Members

Each function becomes one member of the interface: its signature on one line and, when the function
has a brief description, a documentation block above it. The block lists every parameter, described
or not, and tells of the returned value when there is one and it is described.
-/

namespace TypedExports.Interface.Member

/-- What every line inside the interface starts with. -/
def indent : Text := "    ".toList

def docLine (content : Text) : Text := indent ++ " *".toList ++ content

def paramLine (param : Param) : Text :=
  docLine (" @param ".toList ++ param.name ++ ' ' :: param.description.getD [])

/-- The description of the returned value that is shown: it is not empty, and something is
returned. -/
def shownReturn? (f : ExportedFunction) : Option Text :=
  if f.effectiveReturnType = ExportedFunction.defaultReturnType then none
  else f.returnDescription.filter (· ≠ [])

def shownBrief? (f : ExportedFunction) : Option Text := f.brief.filter (· ≠ [])

/-- The lines between the brief description and the end of the block: parameters and returned
value behind a spacer, or nothing. -/
def detailLines (f : ExportedFunction) : List Text :=
  let details := f.params.map paramLine ++
    ((shownReturn? f).map fun returned => docLine (" @returns ".toList ++ returned)).toList
  if details = [] then [] else docLine [] :: details

/-- The documentation block, if there is one. -/
def docLines (f : ExportedFunction) : List Text :=
  match shownBrief? f with
  | none => []
  | some brief =>
    (indent ++ "/**".toList) :: docLine (' ' :: brief) :: detailLines f ++
      [docLine ['/']]

def declared (param : Param) : Text := param.name ++ ": ".toList ++ param.type

def signature (f : ExportedFunction) : Text :=
  indent ++ f.name ++ '(' :: (", ".toList).intercalate (f.params.map declared) ++
    "): ".toList ++ f.effectiveReturnType ++ [';']

def lines (f : ExportedFunction) : List Text := docLines f ++ [signature f]

end TypedExports.Interface.Member
