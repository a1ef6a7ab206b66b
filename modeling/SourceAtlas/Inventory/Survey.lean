import SourceAtlas.Inventory.Description
import SourceAtlas.Inventory.Functions
import SourceAtlas.Inventory.Imports
import SourceAtlas.Path
import SourceAtlas.Syntax.Grammar

/-!
# The entry of a source file

`FileEntry.ofSource` reads a source text by the grammar that the path's extension names and lists
what the text holds.
-/

namespace SourceAtlas

open Text Syntax

/-- The extension of a path, which is empty if there is none. -/
def extensionOf (path : List Char) : String :=
  String.ofList ((Path.extension? path).getD [])

/-- The language of the file at a path. -/
def Language.ofPath? (path : List Char) : Option Language :=
  Language.ofExtension? (extensionOf path)

namespace FileEntry

/-- The entry of the file at a path with the given items. -/
def ofItems (config : Config) (path : List Char) (items : List Item) : FileEntry :=
  let (internal, external) := (specifiers items).partition (Specifier.isInternal config)
  { name := String.ofList (Path.lastSegment path)
    path := String.ofList path
    description := (fileDescription? items).map String.ofList
    externalImports := external.map String.ofList
    internalImports := internal.map String.ofList
    functions := functionEntries items }

/-- The entry of a source text in a language. -/
def ofSource (config : Config) (language : Language) (path source : List Char) : FileEntry :=
  ofItems config path (parse (language.dialect (extensionOf path)) source)

end FileEntry

end SourceAtlas
