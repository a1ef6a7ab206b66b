import SourceAtlas.Document.Basic
import SourceAtlas.Graph.Resolution
import SourceAtlas.Inventory.Survey
import SourceAtlas.Project.SourceFiles

/-!
# The analysis of a project

`Project.open?` finds a project on a disk. `Project.document` lists the source files that are not
excluded in a document, and `Graph.onDisk` makes the graph of a document with a look at the files of
the project. A file that cannot be read has no place in the document, and takes nothing else with
it.
-/

namespace SourceAtlas

/-- Why a project cannot be analyzed. -/
inductive AnalysisError where
  | rootNotFound (path : List Char)
  | notADirectory (path : List Char)
  | badExclusion (error : GlobError)
deriving Repr, DecidableEq, Inhabited

/-- The reason in words. -/
def AnalysisError.message : AnalysisError → String
  | rootNotFound path => "root directory not found: " ++ String.ofList path
  | notADirectory path => "root is not a directory: " ++ String.ofList path
  | badExclusion error => "invalid exclude pattern: " ++ error.message

/-- Why a file has no entry. -/
inductive FileError where
  | unreadable (path : List Char)
  | noLanguage (extension : String) (path : List Char)
deriving Repr, DecidableEq, Inhabited

/-- The reason in words. -/
def FileError.message : FileError → String
  | unreadable path => "failed to read " ++ String.ofList path
  | noLanguage extension path =>
    "no analyzer for extension '" ++ extension ++ "': " ++ String.ofList path

namespace FileEntry

/-- The entry of a text under a path below the project's root. The language is that of the path on
disk. -/
def ofText (config : Config) (path relative : List Char) (text : String) :
    Except FileError FileEntry :=
  match Language.ofPath? path with
  | none => .error (.noLanguage (extensionOf path) relative)
  | some language => .ok (ofSource config language relative text.toList)

/-- The entry of a file on a disk. -/
def ofFile (config : Config) (disk : Disk) (path relative : List Char) :
    Except FileError FileEntry :=
  match disk.readText path with
  | .error _ => .error (.unreadable path)
  | .ok text => ofText config path relative text

/-- The entry of a project's file. -/
def ofSourceFile (config : Config) (source : SourceFile) : Except FileError FileEntry :=
  match String.fromUTF8? source.content with
  | none => .error (.unreadable source.path)
  | some text => ofText config source.path source.path text

end FileEntry

/-- A project on a disk. -/
structure Project where
  /-- The absolute path of the project's root, without links. -/
  root : List Char
  /-- What the root holds. -/
  entries : List (List Char × FileTree)
  config : Config
  /-- The content of the ignore file, if there is one that is to be respected. -/
  ignoreFile : Option ByteArray
deriving Inhabited

namespace Project

/-- The content of the ignore file below a root, if the settings ask for it. -/
def ignoreFile? (disk : Disk) (root : List Char) (config : Config) : Option ByteArray :=
  if config.respectIgnoreFile then
    (disk.read (Path.joined root config.ignoreFile.toList)).toOption
  else none

/-- The project at a path. -/
def open? (disk : Disk) (path : List Char) (config : Config) : Except AnalysisError Project :=
  match disk.locate path with
  | .error _ => .error (.rootNotFound path)
  | .ok place =>
    match (disk.root.get? place).bind FileTree.entries? with
    | none => .error (.notADirectory path)
    | some entries =>
      let root := Disk.absolutePath place
      .ok { root, entries, config, ignoreFile := ignoreFile? disk root config }

/-- What is left out of a project. -/
def exclusion (project : Project) : Except AnalysisError Exclusion :=
  match Exclusion.build project.config (project.ignoreFile.map ByteArray.toList) with
  | .error error => .error (.badExclusion error)
  | .ok exclusion => .ok exclusion

/-- The source files of a project, in the order of the walk. -/
def sourceFiles (project : Project) : Except AnalysisError (List SourceFile) :=
  project.exclusion.map fun exclusion =>
    FileTree.sourceFilesIn project.config exclusion [] project.entries

/-- Adds the entry of a file to a document. A file without an entry changes nothing. -/
def addSourceFile (config : Config) (document : Document) (source : SourceFile) : Document :=
  match FileEntry.ofSourceFile config source with
  | .ok entry => document.insert source.path entry
  | .error _ => document

/-- The document of a project. -/
def document (project : Project) : Except AnalysisError Document :=
  project.sourceFiles.map fun files =>
    (files.foldl (addSourceFile project.config) (Document.new project.root)).prune

end Project

namespace Resolution

/-- The setting in which imports are looked for below a root on a disk. -/
def Setting.onDiskBelow (config : Config) (disk : Disk) (root : Option String) : Setting :=
  { config
    onDisk := fun path => root.any fun base => disk.isFile (Path.joined base.toList path) }

end Resolution

/-- The graph of a document whose files are looked for on a disk. -/
def Graph.onDisk (config : Config) (disk : Disk) (document : Document) : Graph :=
  Graph.ofDocument (Resolution.Setting.onDiskBelow config disk document.root.path) document

end SourceAtlas
