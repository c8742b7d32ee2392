import TypedExports.ExportedFunction

/-!
# Catalogues

Documented functions are listed in sections, one for each category that occurs. The section of the
memory functions comes first, the others follow in ascending order of their categories. Within a
section the functions ascend by name, and those of one name keep the order in which they came.

The items that are listed may be anything that stands for a function, such as the function together
with its place in the header.
-/

namespace TypedExports

def memoryCategory : Text := "Memory".toList

/-- A category with the items listed under it. -/
structure Section (α : Type) where
  category : Text
  members : List α
  deriving DecidableEq, Repr

namespace Catalogue

/-- The distinct categories among the given ones, in the order of their sections. -/
def categories (given : List Text) : List Text :=
  let distinct := given.eraseDups
  distinct.filter (· = memoryCategory) ++ (distinct.filter (· ≠ memoryCategory)).mergeSort Text.le

/-- The items of one category in ascending order of their names. -/
def members {α : Type} (function : α → ExportedFunction) (items : List α) (category : Text) :
    List α :=
  (items.filter fun item => (function item).effectiveCategory = category).mergeSort
    fun a b => Text.le (function a).name (function b).name

/-- The sections of the given items, each of which stands for a function. -/
def sections {α : Type} (function : α → ExportedFunction) (items : List α) :
    List (Section α) :=
  (categories (items.map fun item => (function item).effectiveCategory)).map fun category =>
    ⟨category, members function items category⟩

end Catalogue

end TypedExports
