import SourceAtlas.Document.Basic
import SourceAtlas.Yaml.Writer

/-!
# Documents as YAML

The values under which the records of a document are written. A field without a value, or with an
empty list, is left out.
-/

namespace SourceAtlas

open Yaml

namespace Yaml.Value

/-- A string. -/
def ofString (s : String) : Value := .text s.toList

/-- A list of values, unless it is empty. -/
def ofList? {α : Type} (item : α → Value) (items : List α) : Option Value :=
  if items.isEmpty then none else some (.sequence (items.map item))

/-- The fields of a record that have a value. -/
def ofFields (fields : List (String × Option Value)) : Value :=
  .mapping (fields.filterMap fun (name, value) => value.map fun v => (name.toList, v))

end Yaml.Value

open Value

/-- The value of a parameter. -/
def Parameter.toYaml (p : Parameter) : Value :=
  ofFields [("name", some (ofString p.name)), ("type", p.type.map ofString),
    ("description", p.description.map ofString)]

/-- The value of a returned value. -/
def Returned.toYaml (r : Returned) : Value :=
  ofFields [("type", r.type.map ofString), ("description", r.description.map ofString)]

/-- The value of a function's entry. -/
def FunctionEntry.toYaml (f : FunctionEntry) : Value :=
  ofFields [("name", some (ofString f.name)), ("description", f.description.map ofString),
    ("params", ofList? Parameter.toYaml f.params), ("returns", f.returns.map Returned.toYaml)]

/-- The value of a file's entry. -/
def FileEntry.toYaml (f : FileEntry) : Value :=
  ofFields [("name", some (ofString f.name)), ("path", some (ofString f.path)),
    ("fileDescription", f.description.map ofString),
    ("externalImports", ofList? ofString f.externalImports),
    ("internalImports", ofList? ofString f.internalImports),
    ("functions", ofList? FunctionEntry.toYaml f.functions)]

mutual

/-- The value of a directory. -/
def Directory.toYaml : Directory → Value
  | ⟨name, path, files, directories⟩ =>
    ofFields [("name", some (ofString name)), ("path", path.map ofString),
      ("files", ofList? FileEntry.toYaml files),
      ("directories", if directories.isEmpty then none
        else some (.mapping (entriesYaml directories)))]

/-- The values of directories under their names. -/
def Directory.entriesYaml : List (String × Directory) → List (List Char × Value)
  | [] => []
  | (key, child) :: rest => (key.toList, Directory.toYaml child) :: Directory.entriesYaml rest

end

/-- The text of a document. -/
def Document.toYaml (document : Document) : String :=
  String.ofList (Yaml.render [("root".toList, document.root.toYaml)])

end SourceAtlas
