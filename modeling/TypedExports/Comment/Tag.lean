import TypedExports.Comment.Basic
import TypedExports.ExportedFunction

/-!
# Tags

A line of a comment carries a tag when it starts with the tag's keyword and one space; the rest of
the line, trimmed, is the tag's value. No keyword with its space starts another one, so a line
carries at most one tag. Two kinds of tag hold a field: a name, blanks, and the text after them.
-/

namespace TypedExports

inductive Tag where
  | brief
  | category
  | typedParam
  | returnType
  | param
  | returned
  deriving DecidableEq, Repr

def Tag.keyword : Tag → Text
  | .brief => "@brief".toList
  | .category => "@category".toList
  | .typedParam => "@tsparam".toList
  | .returnType => "@tsreturn".toList
  | .param => "@param".toList
  | .returned => "@return".toList

/-- What a line that carries the tag starts with. -/
def Tag.lead (tag : Tag) : Text := tag.keyword ++ [' ']

/-- The value of the tag on a line that carries it. -/
def Tag.value? (tag : Tag) (line : Text) : Option Text :=
  (Text.after? tag.lead line).map Text.trim

structure Field where
  name : Text
  text : Text
  deriving DecidableEq, Repr

/-- Cuts a value at its first run of blanks. A value without one is no field. -/
def Field.split? (value : Text) : Option Field :=
  match value.dropWhile (!Text.isBlank ·) with
  | [] => none
  | rest => some ⟨value.takeWhile (!Text.isBlank ·), Text.trimStart rest⟩

namespace Comment

def values (comment : Comment) (tag : Tag) : List Text := comment.lines.filterMap tag.value?

/-- The value of a tag of which the first line counts. -/
def value? (comment : Comment) (tag : Tag) : Option Text := (comment.values tag).head?

/-- The fields that a tag has in the comment, in line order. Values that are no field are left
out. -/
def fields (comment : Comment) (tag : Tag) : List Field :=
  (comment.values tag).filterMap Field.split?

/-- The description of a parameter: of several lines with its name the last counts. -/
def describe? (comment : Comment) (name : Text) : Option Text :=
  ((comment.fields .param).reverse.find? (·.name = name)).map Field.text

/-- The described names in ascending order, each with its description. -/
def descriptions (comment : Comment) : List Field :=
  let names := ((comment.fields .param).map Field.name).eraseDups.mergeSort Text.le
  names.filterMap fun name => (comment.describe? name).map (⟨name, ·⟩)

/-- The parameters of the comment, one for each typed line, described or not. -/
def params (comment : Comment) : List Param :=
  (comment.fields .typedParam).map fun field =>
    ⟨field.name, field.text, comment.describe? field.name⟩

/-- What the comment says of the function with the given name. -/
def document (comment : Comment) (name : Text) : ExportedFunction where
  name := name
  brief := comment.value? .brief
  category := comment.value? .category
  params := comment.params
  returnType := comment.value? .returnType
  returnDescription := comment.value? .returned

end Comment

end TypedExports
