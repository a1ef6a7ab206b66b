import SourceAtlas.Document.Basic
import SourceAtlas.Yaml.Decode

/-!
# Documents from YAML

The records of a document read from the nodes of a YAML text. Fields without a meaning are passed
over, a field with a meaning must not be repeated, and names must be there.
-/

namespace SourceAtlas

open Yaml Decode

/-- Reads a parameter. -/
def Parameter.decode (depth : Nat) (node : Node) : Decode Parameter := do
  let (_, fields) ← fields depth node
  let name ← required fields "name" string
  let type ← optional fields "type" none string?
  let description ← optional fields "description" none string?
  return { name, type, description }

/-- Reads a returned value. -/
def Returned.decode (depth : Nat) (node : Node) : Decode Returned := do
  let (_, fields) ← fields depth node
  let type ← optional fields "type" none string?
  let description ← optional fields "description" none string?
  return { type, description }

/-- Reads a returned value that may be missing. -/
def Returned.decode? (depth : Nat) (node : Node) : Decode (Option Returned) := do
  match ← target node with
  | .scalar none .plain text =>
    if text.isEmpty || isNull text then return none else fail
  | .scalar (some tag) .plain text =>
    if tag = nullTag then if isNull text then return none else fail
    else return some (← Returned.decode depth (.scalar (some tag) .plain text))
  | found => return some (← Returned.decode depth found)

/-- Reads a function's entry. -/
def FunctionEntry.decode (depth : Nat) (node : Node) : Decode FunctionEntry := do
  let (depth, fields) ← fields depth node
  let name ← required fields "name" string
  let description ← optional fields "description" none string?
  let params ← optional fields "params" [] (list Parameter.decode depth)
  let returns ← optional fields "returns" none (Returned.decode? depth)
  return { name, description, params, returns }

/-- Reads a string at any depth. -/
def stringItem (_ : Nat) (node : Node) : Decode String := string node

/-- Reads a file's entry. -/
def FileEntry.decode (depth : Nat) (node : Node) : Decode FileEntry := do
  let (depth, fields) ← fields depth node
  let name ← required fields "name" string
  let path ← required fields "path" string
  let description ← optional fields "fileDescription" none string?
  let externalImports ← optional fields "externalImports" [] (list stringItem depth)
  let internalImports ← optional fields "internalImports" [] (list stringItem depth)
  let functions ← optional fields "functions" [] (list FunctionEntry.decode depth)
  return { name, path, description, externalImports, internalImports, functions }

namespace Directory

/-- Directories by name: the last one under a name is kept. -/
def ofEntries (entries : List (String × Directory)) : List (String × Directory) :=
  entries.foldl (fun found (name, child) => alter name (fun _ => child) found) []

mutual

/-- Reads a directory. -/
def decode : Nat → Node → Decode Directory
  | 0, _ => fail
  | depth + 1, node => do
    let (_, fields) ← fields (depth + 1) node
    let name ← required fields "name" string
    let path ← optional fields "path" none string?
    let files ← optional fields "files" [] (list FileEntry.decode depth)
    let directories ← optional fields "directories" [] (decodeEntries depth)
    return { name, path, files, directories }

/-- Reads directories by name. -/
def decodeEntries : Nat → Node → Decode (List (String × Directory))
  | 0, node => do
    let (_, _) ← entries 0 node
    return []
  | depth + 1, node => do
    let (_, found) ← entries (depth + 1) node
    let children ← found.mapM fun (key, value) => do
      return (← string key, ← decode depth value)
    return ofEntries children

end

end Directory

/-- Reads a document. -/
def Document.decode (node : Node) : Decode Document := do
  let (depth, fields) ← fields maxDepth node
  let root ← required fields "root" (Directory.decode depth)
  return { root }

/-- The document that a text holds. -/
def Document.ofYaml? (text : String) : Option Document := Decode.run? Document.decode text.toList

end SourceAtlas
