import SourceAtlas.Disk.Basic

/-!
# Differences between file trees

What has to be made to turn one tree into another that only adds to it or replaces files.
-/

namespace SourceAtlas

/-- Something to be made at a place. -/
inductive Change where
  | directory (place : List (List Char))
  | file (place : List (List Char)) (content : ByteArray)
deriving Inhabited

namespace FileTree

/-- Whether a tree is a file with the given content. -/
def holds (content : ByteArray) : FileTree → Bool
  | file found => found == content
  | _ => false

mutual

/-- What has to be made for a tree at a place, directories before what they hold. -/
def changes (place : List (List Char)) (old : Option FileTree) : FileTree → List Change
  | file content => if old.any (holds content) then [] else [.file place content]
  | link _ => []
  | directory entries =>
    (if old.any isDirectory then [] else [.directory place]) ++ changesIn place old entries

/-- What has to be made for the entries of a directory. -/
def changesIn (place : List (List Char)) (old : Option FileTree) :
    List (List Char × FileTree) → List Change
  | [] => []
  | (name, tree) :: rest =>
    changes (place ++ [name]) (old.bind fun tree => tree.child? name) tree
      ++ changesIn place old rest

end

end FileTree

/-- What has to be made to turn a disk into another one. -/
def Disk.changes (old new : Disk) : List Change := new.root.changes [] (some old.root)

end SourceAtlas
