import SourceAtlas.Disk.Basic
import SourceAtlas.Exclusion.Basic

/-!
# The source files of a project

The directory of a project is walked depth first in the order of names. What is excluded is passed
over together with all that lies below it, and links are not followed. Files with an allowed
extension are kept.
-/

namespace SourceAtlas

/-- A file of a project with its path below the project's root. -/
structure SourceFile where
  path : List Char
  content : ByteArray
deriving Inhabited

namespace FileTree

mutual

/-- The source files of a tree with a name and a path. -/
def sourceFiles (config : Config) (exclusion : Exclusion) (name path : List Char) :
    FileTree → List SourceFile
  | file content => if config.allows name then [{ path, content }] else []
  | link _ => []
  | directory entries => sourceFilesIn config exclusion path entries

/-- The source files among the entries of the directory at a path. -/
def sourceFilesIn (config : Config) (exclusion : Exclusion) (path : List Char) :
    List (List Char × FileTree) → List SourceFile
  | [] => []
  | (name, tree) :: rest =>
    let child := Path.below path name
    (if exclusion.excludes child tree.isDirectory then []
      else sourceFiles config exclusion name child tree)
      ++ sourceFilesIn config exclusion path rest

end

end FileTree

end SourceAtlas
