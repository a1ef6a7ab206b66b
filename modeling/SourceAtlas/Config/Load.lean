import SourceAtlas.Config.Basic
import SourceAtlas.Document.Load

/-!
# Settings from YAML

A setting that a text leaves out has its default.
-/

namespace SourceAtlas

open Yaml Decode

/-- Reads an alias. -/
def Alias.decode (depth : Nat) (node : Node) : Decode Alias := do
  let (_, fields) ← fields depth node
  let lead ← required fields "prefix" string
  let target ← optional fields "target" "" string
  return { lead, target }

/-- Reads the settings of a run. -/
def Config.decode (node : Node) : Decode Config := do
  let (depth, fields) ← fields maxDepth node
  let plain : Config := {}
  let extensions ← optional fields "extensions" plain.extensions (list stringItem depth)
  let excludedPaths ← optional fields "excluded_paths" plain.excludedPaths (list stringItem depth)
  let ignoreFile ← optional fields "ignore_file" plain.ignoreFile string
  let respectIgnoreFile ← optional fields "respect_ignore_file" plain.respectIgnoreFile truth
  let aliases ← optional fields "aliases" plain.aliases (list Alias.decode depth)
  let output ← optional fields "output" plain.output string
  return { extensions, excludedPaths, ignoreFile, respectIgnoreFile, aliases, output }

/-- The settings that a text states. -/
def Config.ofYaml? (text : String) : Option Config := Decode.run? Config.decode text.toList

end SourceAtlas
