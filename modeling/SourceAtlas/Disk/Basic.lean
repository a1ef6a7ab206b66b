import SourceAtlas.Path

/-!
# File systems

A `FileTree` is a file, a symbolic link or a directory of named trees. A `Disk` is the tree of a
whole file system with a working directory. `Disk.locate` follows a path from there through links to
the node that it leads to.
-/

namespace SourceAtlas

open Text

/-- A file, a link or a directory. The entries of a directory are kept in the order of their names,
each name once. -/
inductive FileTree where
  | file (content : ByteArray)
  | link (target : List Char)
  | directory (entries : List (List Char × FileTree))
deriving Inhabited

/-- Why an operation on a disk fails. -/
inductive DiskError where
  | notFound
  | alreadyExists
  | notADirectory
  | isADirectory
  | tooManyLinks
  | notText
deriving Repr, DecidableEq, Inhabited

/-- The reason in words. -/
def DiskError.message : DiskError → String
  | notFound => "No such file or directory (os error 2)"
  | alreadyExists => "File exists (os error 17)"
  | notADirectory => "Not a directory (os error 20)"
  | isADirectory => "Is a directory (os error 21)"
  | tooManyLinks => "Too many levels of symbolic links (os error 40)"
  | notText => "stream did not contain valid UTF-8"

namespace FileTree

/-- The entries of a directory. -/
def entries? : FileTree → Option (List (List Char × FileTree))
  | directory entries => some entries
  | _ => none

/-- Whether a tree is a directory. -/
def isDirectory (tree : FileTree) : Bool := tree.entries?.isSome

/-- Whether a tree is a file. -/
def isFile : FileTree → Bool
  | file _ => true
  | _ => false

/-- The entry of a directory with a name. -/
def child? (tree : FileTree) (name : List Char) : Option FileTree :=
  (tree.entries?.bind fun entries => entries.find? fun (n, _) => n = name).map Prod.snd

/-- The tree below a chain of names; links are not followed. -/
def get? : FileTree → List (List Char) → Option FileTree
  | tree, [] => some tree
  | tree, name :: names => (tree.child? name).bind fun child => child.get? names

/-- Entries with one more, which replaces the one with the same name. -/
def putEntry (name : List Char) (tree : FileTree) :
    List (List Char × FileTree) → List (List Char × FileTree)
  | [] => [(name, tree)]
  | (n, child) :: rest =>
    if name < n then (name, tree) :: (n, child) :: rest
    else if name = n then (n, tree) :: rest
    else (n, child) :: putEntry name tree rest

/-- Puts a tree below a chain of names. Directories that are missing are made, and what is not a
directory gives way. -/
def put (new : FileTree) : List (List Char) → FileTree → FileTree
  | [], _ => new
  | name :: names, tree =>
    let child := (tree.child? name).getD (.directory [])
    .directory (putEntry name (put new names child) (tree.entries?.getD []))

end FileTree

/-- A file system with a working directory. -/
structure Disk where
  root : FileTree := .directory []
  /-- The chain of names of the working directory. -/
  workingDirectory : List (List Char) := []
deriving Inhabited

/-- Where a path leads. -/
inductive Spot where
  /-- To the node below a chain of names. -/
  | present (place : List (List Char))
  /-- To a name that an existing directory does not have. The path may ask for a directory. -/
  | absent (directory : List (List Char)) (name : List Char) (asDirectory : Bool)
deriving Repr, DecidableEq, Inhabited

namespace Disk

/-- The number of links that a path may lead through. -/
def maxLinks : Nat := 40

/-- Whether the node at a place is a directory. -/
def isDirectoryAt (disk : Disk) (place : List (List Char)) : Bool :=
  (disk.root.get? place).any FileTree.isDirectory

/-- Follows segments from a place. Links are followed, the last one only if that is asked for, and
only so many of them. -/
def follow (disk : Disk) (followLast : Bool) (links : Nat) (place : List (List Char))
    (segments : List (List Char)) : Except DiskError Spot :=
  match segments with
  | [] => .ok (.present place)
  | segment :: rest =>
    if !disk.isDirectoryAt place then .error .notADirectory
    else if segment.isEmpty || segment = ['.'] then disk.follow followLast links place rest
    else if segment = ['.', '.'] then disk.follow followLast links place.dropLast rest
    else match disk.root.get? (place ++ [segment]) with
      | none =>
        if rest.all List.isEmpty then .ok (.absent place segment !rest.isEmpty)
        else .error .notFound
      | some (.link target) =>
        if rest.isEmpty && !followLast then .ok (.present (place ++ [segment]))
        else match links with
          | 0 => .error .tooManyLinks
          | links + 1 =>
            if target.isEmpty then .error .notFound
            else if Path.isAbsolute target then
              disk.follow followLast links [] (target.splitOn '/' ++ rest)
            else disk.follow followLast links place (target.splitOn '/' ++ rest)
      | some _ => disk.follow followLast links (place ++ [segment]) rest
termination_by (links, segments.length)

/-- Where a path leads. -/
def spot (disk : Disk) (followLast : Bool) (path : List Char) : Except DiskError Spot :=
  if path.isEmpty then .error .notFound
  else if Path.isAbsolute path then disk.follow followLast maxLinks [] (path.splitOn '/')
  else disk.follow followLast maxLinks disk.workingDirectory (path.splitOn '/')

/-- The chain of names of the node that a path leads to. -/
def locate (disk : Disk) (path : List Char) : Except DiskError (List (List Char)) :=
  match disk.spot true path with
  | .ok (.present place) => .ok place
  | .ok (.absent _ _ _) => .error .notFound
  | .error error => .error error

/-- The node that a path leads to. -/
def node? (disk : Disk) (path : List Char) : Option FileTree :=
  match disk.locate path with
  | .ok place => disk.root.get? place
  | .error _ => none

/-- Whether a path leads to a node. -/
def contains (disk : Disk) (path : List Char) : Bool := (disk.node? path).isSome

/-- Whether a path leads to a file. -/
def isFile (disk : Disk) (path : List Char) : Bool := (disk.node? path).any FileTree.isFile

/-- Whether a path leads to a directory. -/
def isDirectory (disk : Disk) (path : List Char) : Bool :=
  (disk.node? path).any FileTree.isDirectory

/-- The absolute path of a chain of names. -/
def absolutePath (place : List (List Char)) : List Char := '/' :: ['/'].intercalate place

/-- The absolute path, without links, of the node that a path leads to. -/
def canonical (disk : Disk) (path : List Char) : Except DiskError (List Char) :=
  (disk.locate path).map absolutePath

/-- The content of the file that a path leads to. -/
def read (disk : Disk) (path : List Char) : Except DiskError ByteArray :=
  match disk.locate path with
  | .error error => .error error
  | .ok place =>
    match disk.root.get? place with
    | some (.file content) => .ok content
    | some (.directory _) => .error .isADirectory
    | _ => .error .notFound

/-- The text of the file that a path leads to. -/
def readText (disk : Disk) (path : List Char) : Except DiskError String :=
  match disk.read path with
  | .error error => .error error
  | .ok content =>
    match String.fromUTF8? content with
    | some text => .ok text
    | none => .error .notText

end Disk

end SourceAtlas
