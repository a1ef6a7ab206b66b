import SourceAtlas.Disk.Basic
import SourceAtlas.Document.Load

/-!
# Document files

A document that was written to a file is read back from it.
-/

namespace SourceAtlas

/-- Why a file gives no document. -/
inductive DocumentError where
  | unreadable (path : List Char)
  | malformed (path : List Char)
deriving Repr, DecidableEq, Inhabited

/-- The reason in words. -/
def DocumentError.message : DocumentError → String
  | unreadable path => "failed to read document " ++ String.ofList path
  | malformed path => "failed to parse document " ++ String.ofList path

/-- The document in a file. -/
def Document.load (disk : Disk) (path : List Char) : Except DocumentError Document :=
  match disk.readText path with
  | .error _ => .error (.unreadable path)
  | .ok text =>
    match Document.ofYaml? text with
    | none => .error (.malformed path)
    | some document => .ok document

end SourceAtlas
