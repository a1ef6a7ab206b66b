import SourceAtlas.Config.Basic
import SourceAtlas.Document.Basic
import SourceAtlas.Graph.Basic

/-!
# From documents to graphs

`Graph.ofDocument` visits a document's directories and files, subdirectories before files, and
gives each a node. An import is resolved to a path; if a node with that path has been visited the
link leads there, and if not the path is kept until all nodes are known. Imports that then match no
node have no link.
-/

namespace SourceAtlas

open Text

namespace Resolution

/-- What a run of the resolution knows about the project. -/
structure Setting where
  config : Config
  /-- Whether there is a file on disk at a path below the project's root. -/
  onDisk : List Char → Bool := fun _ => false

/-- The nodes of visited paths, last one first. -/
abbrev PathTable := List (String × Nat)

/-- The node at a path: the last one that was visited there. -/
def find? (known : PathTable) (path : String) : Option Nat :=
  (known.find? fun (p, _) => p = path).map Prod.snd

/-- The path that a specifier names for an importing file, before it is evaluated. -/
def joinedPath (config : Config) (importer specifier : List Char) : List Char :=
  if specifier.head? = some '.' then Path.below (Path.parentText importer) specifier
  else match config.aliasFor? specifier with
    | some entry => (entry.expand? specifier).getD specifier
    | none => specifier.dropWhile (· = '/')

/-- The path below the root that a specifier names. One that climbs above the root, or names the
root itself, names none. -/
def candidate? (config : Config) (importer specifier : List Char) : Option (List Char) :=
  (Path.normalize? (joinedPath config importer specifier)).bind nonEmpty?

/-- The paths that a path without an extension may stand for, in the order of preference. -/
def extended (config : Config) (path : List Char) : List (List Char) :=
  config.extensions.map fun extension => path ++ extension.toList

/-- Whether a path has been visited or is a file on disk. -/
def isKnown (setting : Setting) (known : PathTable) (path : List Char) : Bool :=
  (find? known (String.ofList path)).isSome || setting.onDisk path

/-- The path that an import most likely refers to. -/
def resolve? (setting : Setting) (known : PathTable) (importer specifier : List Char) :
    Option (List Char) :=
  (candidate? setting.config importer specifier).map fun path =>
    if setting.config.allows path then path
    else ((extended setting.config path).find? (isKnown setting known)).getD path

/-! ### Visiting the document -/

/-- The nodes and links so far. -/
structure Draft where
  known : PathTable := []
  nodes : List GraphNode := []
  links : List GraphLink := []
deriving Repr, Inhabited

/-- Adds a node, records its path and links it to its parent. The root has neither. -/
def Draft.addNode (draft : Draft) (node : GraphNode) (path : String) (parent : Option Nat) :
    Draft :=
  { known := if path.isEmpty then draft.known else (path, node.id) :: draft.known
    nodes := draft.nodes ++ [node]
    links := draft.links ++ (parent.map fun p => GraphLink.hierarchy p node.id).toList }

/-- The link of an import to a path. -/
def dependency (known : PathTable) (source : Nat) (path : List Char) : GraphLink :=
  match find? known (String.ofList path) with
  | some target =>
    { source, target := .node target, kind := .dependency, isResolved := some true }
  | none =>
    { source, target := .pending (String.ofList path), kind := .dependency
      isResolved := some false }

/-- The links of a file's imports, given the paths that are known when it is visited. -/
def importLinks (setting : Setting) (known : PathTable) (source : Nat) (file : FileEntry) :
    List GraphLink :=
  file.internalImports.filterMap fun specifier =>
    (resolve? setting known file.path.toList specifier.toList).map (dependency known source)

/-- Visits a file. -/
def visitFile (setting : Setting) (depth parent : Nat) (draft : Draft) (file : FileEntry) : Draft :=
  let id := draft.nodes.length
  let node : GraphNode :=
    { id, name := file.name, isDirectory := false, depth, description := file.description
      functions := if file.functions.isEmpty then none else some file.functions.length }
  let draft := draft.addNode node file.path (some parent)
  { draft with links := draft.links ++ importLinks setting draft.known id file }

/-- A path below a directory's path. -/
def childPath (path name : String) : String :=
  String.ofList (Path.below path.toList name.toList)

mutual

/-- Visits a directory: itself, its subdirectories, then its files. -/
def visitDirectory (setting : Setting) (path : String) (depth : Nat) (parent : Option Nat)
    (draft : Draft) : Directory → Draft
  | ⟨name, _, files, directories⟩ =>
    let id := draft.nodes.length
    let node : GraphNode := { id, name, isDirectory := true, depth }
    let draft := draft.addNode node path parent
    let draft := visitDirectories setting path (depth + 1) id draft directories
    files.foldl (visitFile setting (depth + 1) id) draft

/-- Visits the subdirectories of a directory. -/
def visitDirectories (setting : Setting) (path : String) (depth parent : Nat) (draft : Draft) :
    List (String × Directory) → Draft
  | [] => draft
  | (key, child) :: rest =>
    visitDirectories setting path depth parent
      (visitDirectory setting (childPath path key) depth (some parent) draft child) rest

end

/-! ### Matching the pending paths -/

/-- The node that a pending path matches: one at the path itself, or at the path with the first
possible extension. -/
def match? (config : Config) (known : PathTable) (path : String) : Option Nat :=
  (find? known path).or
    ((extended config path.toList).findSome? fun p => find? known (String.ofList p))

/-- A link whose target is a node. A link to a path that matches no node is dropped. -/
def settle? (config : Config) (known : PathTable) (link : GraphLink) : Option GraphLink :=
  match link.target with
  | .node _ => some link
  | .pending path => (match? config known path).map fun target =>
      { link with target := .node target, isResolved := some true }

end Resolution

open Resolution in
/-- The graph of a document. -/
def Graph.ofDocument (setting : Setting) (document : Document) : Graph :=
  let draft := visitDirectory setting "" 0 none {} document.root
  { nodes := draft.nodes, links := draft.links.filterMap (settle? setting.config draft.known) }

end SourceAtlas
