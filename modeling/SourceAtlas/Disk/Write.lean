import SourceAtlas.Disk.Basic

/-!
# Changes to file systems

Files are written, and directories and links are made. An operation gives the changed disk or the
reason why it cannot be done.
-/

namespace SourceAtlas.Disk

open Text

/-- Puts a tree at a place. -/
def putAt (disk : Disk) (place : List (List Char)) (tree : FileTree) : Disk :=
  { disk with root := FileTree.put tree place disk.root }

/-- Writes a file, which is made or replaced. -/
def write (disk : Disk) (path : List Char) (content : ByteArray) : Except DiskError Disk :=
  match disk.spot true path with
  | .error error => .error error
  | .ok (.absent directory name asDirectory) =>
    if asDirectory then .error .isADirectory
    else .ok (disk.putAt (directory ++ [name]) (.file content))
  | .ok (.present place) =>
    if disk.isDirectoryAt place then .error .isADirectory
    else .ok (disk.putAt place (.file content))

/-- Makes what a path names, which must not be there, in a directory that must. -/
def make (disk : Disk) (path : List Char) (tree : FileTree) : Except DiskError Disk :=
  match disk.spot false path with
  | .error error => .error error
  | .ok (.present _) => .error .alreadyExists
  | .ok (.absent directory name _) => .ok (disk.putAt (directory ++ [name]) tree)

/-- Makes a directory. -/
def makeDirectory (disk : Disk) (path : List Char) : Except DiskError Disk :=
  disk.make path (.directory [])

/-- Makes a link. -/
def makeLink (disk : Disk) (path target : List Char) : Except DiskError Disk :=
  disk.make path (.link target)

/-- Makes the first of some directories, each of which lies in the next. One that is there already
will do. Directories that were made before a failure stay. -/
def makeChain (disk : Disk) : List (List Char) → Disk × Option DiskError
  | [] => (disk, some .notFound)
  | path :: above =>
    if path.isEmpty then (disk, none)
    else match disk.makeDirectory path with
      | .ok made => (made, none)
      | .error .notFound =>
        match disk.makeChain above with
        | (made, none) =>
          match made.makeDirectory path with
          | .ok made => (made, none)
          | .error error => (made, if made.isDirectory path then none else some error)
        | failed => failed
      | .error error => (disk, if disk.isDirectory path then none else some error)

/-- Makes a directory and the directories above it that are missing, as far as that can be done. -/
def makeDirectories (disk : Disk) (path : List Char) : Disk × Option DiskError :=
  disk.makeChain (path :: Path.ancestors path)

end SourceAtlas.Disk
