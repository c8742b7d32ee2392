import TypedExports.Comment.Tag
import TypedExports.Text.Word

/-!
# Written headers

A documented function can be written as a header of its own: a comment with one line for each thing
that is known of the function, then its declaration. `WellFormed` says which functions a header can
hold at all, namely those whose texts neither end a line or the comment nor lose anything when they
are trimmed, and whose name starts with the stem.
-/

namespace TypedExports

def Tag.line (tag : Tag) (value : Text) : Text :=
  " * ".toList ++ tag.lead ++ value ++ [Text.lineFeed]

/-- A field as the value of a tag. -/
def Field.written (field : Field) : Text := field.name ++ ' ' :: field.text

/-- A text that a tag can have as its value. -/
structure Tag.IsValue (value : Text) : Prop where
  ne_nil : value ≠ []
  trimmed : Text.trim value = value
  one_line : Text.lineFeed ∉ value
  no_closer : ¬ Comment.closer <:+: value

/-- A text that a field can have as its name. -/
structure Field.IsName (name : Text) : Prop where
  ne_nil : name ≠ []
  no_blank : ∀ c ∈ name, Text.isBlank c = false
  no_closer : ¬ Comment.closer <:+: name

namespace ExportedFunction

/-- The functions that a header can document under the given stem. -/
structure WellFormed (stem : Text) (f : ExportedFunction) : Prop where
  name : ∃ run, run ≠ [] ∧ (∀ c ∈ run, Text.isNameChar c = true) ∧ f.name = stem ++ run
  brief : ∀ value ∈ f.brief, Tag.IsValue value
  category : ∀ value ∈ f.category, Tag.IsValue value
  returnType : ∀ value ∈ f.returnType, Tag.IsValue value
  returnDescription : ∀ value ∈ f.returnDescription, Tag.IsValue value
  paramName : ∀ param ∈ f.params, Field.IsName param.name
  paramType : ∀ param ∈ f.params, Tag.IsValue param.type
  paramDescription : ∀ param ∈ f.params, ∀ value ∈ param.description, Tag.IsValue value
  agreeing : ∀ p ∈ f.params, ∀ q ∈ f.params, p.name = q.name → p.description = q.description

/-- The lines of the comment that tell of the parameters: first the types, then the
descriptions. -/
def writtenParams (params : List Param) : Text :=
  params.flatMap (fun param => Tag.typedParam.line (Field.written ⟨param.name, param.type⟩)) ++
    params.flatMap fun param =>
      (param.description.map fun text => Tag.param.line (Field.written ⟨param.name, text⟩)).getD []

def writtenTags (f : ExportedFunction) : Text :=
  (f.brief.map Tag.brief.line).getD [] ++ (f.category.map Tag.category.line).getD [] ++
    (f.returnType.map Tag.returnType.line).getD [] ++
    (f.returnDescription.map Tag.returned.line).getD [] ++ writtenParams f.params

/-- The function as a header: a comment and a declaration, each ending its line. -/
def written (f : ExportedFunction) : Text :=
  "/**\n".toList ++ f.writtenTags ++ " */\nvoid ".toList ++ f.name ++ "(void);\n".toList

end ExportedFunction

end TypedExports
