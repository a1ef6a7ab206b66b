import SourceAtlas.Inventory.Basic
import SourceAtlas.Path

/-!
# The document of a project

A project's document is a tree of directories that hold the entries of their files. The
subdirectories of a directory are kept in the order of their names, each name once.
-/

namespace SourceAtlas

open Text

/-- A directory with the entries of its files and its subdirectories by name. -/
structure Directory where
  name : String
  /-- Where the directory is on disk, for a project's root. -/
  path : Option String := none
  files : List FileEntry := []
  directories : List (String × Directory) := []
deriving Repr, BEq, Inhabited

namespace Directory

/-- Whether a directory holds nothing. -/
def isEmpty (directory : Directory) : Bool :=
  directory.files.isEmpty && directory.directories.isEmpty

/-- Changes the value at a key, which is added in its place if it is missing. -/
def alter (key : String) (change : Option Directory → Directory) :
    List (String × Directory) → List (String × Directory)
  | [] => [(key, change none)]
  | (k, child) :: rest =>
    if key < k then (key, change none) :: (k, child) :: rest
    else if key = k then (k, change (some child)) :: rest
    else (k, child) :: alter key change rest

/-- Changes the directory below a chain of names; missing directories are made. -/
def updateAt (change : Directory → Directory) : List String → Directory → Directory
  | [], directory => change directory
  | name :: names, directory =>
    { directory with
      directories := alter name
        (fun child? => updateAt change names (child?.getD { name := name })) directory.directories }

/-- Adds the entry of a file after those that are there. -/
def addFile (file : FileEntry) (directory : Directory) : Directory :=
  { directory with files := directory.files ++ [file] }

mutual

/-- A directory without the subdirectories that hold no file anywhere below them. -/
def prune : Directory → Directory
  | ⟨name, path, files, directories⟩ => ⟨name, path, files, pruneAll directories⟩

/-- Pruned directories, without those that are then empty. -/
def pruneAll : List (String × Directory) → List (String × Directory)
  | [] => []
  | (key, child) :: rest =>
    let pruned := prune child
    if pruned.isEmpty then pruneAll rest else (key, pruned) :: pruneAll rest

end

mutual

/-- A directory and all directories below it, parents first. -/
def walk : Directory → List Directory
  | ⟨name, path, files, directories⟩ => ⟨name, path, files, directories⟩ :: walkAll directories

/-- Directories and all directories below them. -/
def walkAll : List (String × Directory) → List Directory
  | [] => []
  | (_, child) :: rest => walk child ++ walkAll rest

end

/-- The entries of all files in a directory and below it, in traversal order. -/
def allFiles (directory : Directory) : List FileEntry := directory.walk.flatMap Directory.files

end Directory

/-- The document of a project. -/
structure Document where
  root : Directory
deriving Repr, BEq, Inhabited

namespace Document

/-- The empty document of the project at a path. -/
def new (path : List Char) : Document :=
  { root :=
      { name := String.ofList ((Path.fileName? path).getD path)
        path := some (String.ofList path) } }

/-- The names of the directories that a relative path leads through. -/
def directoryNames (relative : List Char) : List String :=
  (((relative.splitOn '/').filter fun segment => !segment.isEmpty).dropLast).map String.ofList

/-- Places the entry of a file below the directories that its relative path names. -/
def insert (document : Document) (relative : List Char) (file : FileEntry) : Document :=
  { document with
    root := document.root.updateAt (Directory.addFile file) (directoryNames relative) }

/-- Makes the directories of a chain of names. -/
def makeDirectories (document : Document) (names : List String) : Document :=
  { document with root := document.root.updateAt (fun directory => directory) names }

/-- Removes every directory without a file, apart from the root. -/
def prune (document : Document) : Document := { document with root := document.root.prune }

/-- The entries of all files, in traversal order. -/
def files (document : Document) : List FileEntry := document.root.allFiles

end Document

/-- The counts of what a document holds. -/
structure DocumentSummary where
  files : Nat := 0
  directories : Nat := 0
  functions : Nat := 0
  internalImports : Nat := 0
  externalImports : Nat := 0
deriving Repr, DecidableEq, Inhabited

/-- Counts files, directories below the root, functions and imports. -/
def DocumentSummary.of (document : Document) : DocumentSummary :=
  let files := document.files
  { files := files.length
    directories := document.root.walk.length - 1
    functions := (files.flatMap FileEntry.functions).length
    internalImports := (files.flatMap FileEntry.internalImports).length
    externalImports := (files.flatMap FileEntry.externalImports).length }

end SourceAtlas
