import TypedExports.Catalogue
import TypedExports.Interface.Member
import TypedExports.Provenance

/-!
# Generated files

A generated file is a list of lines: where it comes from, a fixed preamble, the interface with one
section after another, and the closing brace. The memory object opens the interface under the
heading of the memory functions, so their section has no heading of its own.
-/

namespace TypedExports.Interface

def defaultName : Text := "HakoExports".toList

def importedTypes : List Text :=
  ["JSRuntimePointer".toList, "JSContextPointer".toList, "JSValuePointer".toList,
    "JSValueConstPointer".toList, "CString".toList, "JSVoid".toList, "OwnedHeapChar".toList,
    "LEPUS_BOOL".toList, "LEPUSModuleDef".toList]

/-- The items, one on a line, with a comma behind each but the last. -/
def commaLines : List Text → List Text
  | [] => []
  | [item] => [Member.indent ++ item]
  | item :: items => (Member.indent ++ item ++ [',']) :: commaLines items

def heading (category : Text) : Text := Member.indent ++ "// ".toList ++ category

/-- The lines between the provenance and the first section. -/
def prologue (name : Text) : List Text :=
  ["/**".toList, " * Generated TypeScript interface for QuickJS exports".toList, " */".toList, [],
    "import type \x7b".toList] ++ commaLines importedTypes ++
  ["\x7d from './types';".toList, [],
    "/**".toList, " * Interface for the raw WASM exports from QuickJS".toList, " */".toList,
    "export interface ".toList ++ name ++ " \x7b".toList,
    heading memoryCategory,
    Member.indent ++ "memory: WebAssembly.Memory;".toList, []]

/-- The heading line of a section, unless the preamble has it. -/
def headingLines (category : Text) : List Text :=
  if category = memoryCategory then [] else [heading category]

/-- The lines of a section with the empty line that ends it. -/
def sectionLines (s : Section ExportedFunction) : List Text :=
  headingLines s.category ++ s.members.flatMap Member.lines ++ [[]]

/-- The lines from the provenance on: preamble, sections, closing brace. -/
def body (name : Text) (functions : List ExportedFunction) : List Text :=
  prologue name ++ (Catalogue.sections id functions).flatMap sectionLines ++ [['\x7d']]

def lines (name : Text) (functions : List ExportedFunction) (provenance : Provenance) :
    List Text :=
  provenance.lines ++ body name functions

/-- The generated file. The last line does not end in a line feed. -/
def document (name : Text) (functions : List ExportedFunction) (provenance : Provenance) : Text :=
  Text.unlines (lines name functions provenance)

end TypedExports.Interface
