/-!
# Graphs of projects

A graph has a node for every directory and every file of a project. Directories are linked to what
they hold, and files to the files that they import.
-/

namespace SourceAtlas

/-- A directory or a file. -/
structure GraphNode where
  /-- The place of the node in the graph's list. -/
  id : Nat
  name : String
  isDirectory : Bool
  /-- The distance from the root. -/
  depth : Nat
  description : Option String := none
  /-- The number of functions of a file that has some. -/
  functions : Option Nat := none
deriving Repr, DecidableEq, Inhabited

/-- What a link says about its ends. -/
inductive LinkKind where
  /-- A directory holds a directory or a file. -/
  | hierarchy
  /-- A file imports a file. -/
  | dependency
deriving Repr, DecidableEq, Inhabited

/-- Where a link leads: to a node, or to a path that has not been matched with a node. -/
inductive LinkTarget where
  | node (id : Nat)
  | pending (path : String)
deriving Repr, DecidableEq, Inhabited

/-- A link between two nodes. -/
structure GraphLink where
  source : Nat
  target : LinkTarget
  kind : LinkKind
  /-- Whether the target of a dependency is a node. -/
  isResolved : Option Bool := none
deriving Repr, DecidableEq, Inhabited

/-- A graph of nodes and links. -/
structure Graph where
  nodes : List GraphNode := []
  links : List GraphLink := []
deriving Repr, DecidableEq, Inhabited

namespace GraphLink

/-- The link from a directory to what it holds. -/
def hierarchy (parent child : Nat) : GraphLink :=
  { source := parent, target := .node child, kind := .hierarchy }

/-- Whether a link stands for an import. -/
def isDependency (link : GraphLink) : Bool := link.kind = .dependency

end GraphLink

/-- The links that stand for imports. -/
def Graph.dependencies (graph : Graph) : List GraphLink := graph.links.filter GraphLink.isDependency

/-- The counts of what a graph holds. -/
structure GraphSummary where
  nodes : Nat := 0
  hierarchyLinks : Nat := 0
  dependencyLinks : Nat := 0
deriving Repr, DecidableEq, Inhabited

/-- Counts the nodes and the links of each kind. -/
def GraphSummary.of (graph : Graph) : GraphSummary :=
  { nodes := graph.nodes.length
    hierarchyLinks := graph.links.length - graph.dependencies.length
    dependencyLinks := graph.dependencies.length }

end SourceAtlas
