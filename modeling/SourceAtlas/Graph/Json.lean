import SourceAtlas.Graph.Basic
import SourceAtlas.Json.Reader
import SourceAtlas.Json.Writer

/-!
# Graphs as JSON

The values under which a graph is written, and the graph that a text holds. A field without a value
is left out.
-/

namespace SourceAtlas

open Json

/-! ### Writing -/

/-- The value of a node. -/
def GraphNode.toJson (node : GraphNode) : Json :=
  ofFields [("id", some (.natural node.id)), ("name", some (ofString node.name)),
    ("isDirectory", some (.truth node.isDirectory)), ("depth", some (.natural node.depth)),
    ("description", node.description.map ofString), ("functions", node.functions.map .natural)]

/-- The name of a kind of link. -/
def LinkKind.name : LinkKind → String
  | hierarchy => "hierarchy"
  | dependency => "dependency"

/-- The value of the target of a link. -/
def LinkTarget.toJson : LinkTarget → Json
  | node id => .natural id
  | pending path => ofString path

/-- The value of a link. -/
def GraphLink.toJson (link : GraphLink) : Json :=
  ofFields [("source", some (.natural link.source)), ("target", some link.target.toJson),
    ("type", some (ofString link.kind.name)), ("isResolved", link.isResolved.map .truth)]

/-- The value of a graph. -/
def Graph.toJson (graph : Graph) : Json :=
  ofFields [("nodes", some (.array (graph.nodes.map GraphNode.toJson))),
    ("links", some (.array (graph.links.map GraphLink.toJson)))]

/-- The text of a graph, on one line or on several. -/
def Graph.render (graph : Graph) (spread : Bool) : String :=
  String.ofList (if spread then graph.toJson.pretty 0 else graph.toJson.compact)

/-! ### Reading -/

/-- Reads a node. -/
def GraphNode.ofJson? (value : Json) : Option GraphNode := do
  let fields ← fields? ["id", "name", "isDirectory", "depth", "description", "functions"] value
  let id ← (← field? fields "id").toNat?
  let name ← (← field? fields "name").toString?
  let isDirectory ← (← field? fields "isDirectory").toBool?
  let depth ← (← field? fields "depth").toNat?
  let description ← optional? toString? (field? fields "description")
  let functions ← optional? toNat? (field? fields "functions")
  return { id, name, isDirectory, depth, description, functions }

/-- The kind of link with a name. -/
def LinkKind.ofName? (name : List Char) : Option LinkKind :=
  [hierarchy, dependency].find? fun kind => kind.name.toList = name

/-- Reads a kind of link: its name, or an object with its name and no value. -/
def LinkKind.ofJson? : Json → Option LinkKind
  | .string (some name) => ofName? name
  | .object [(some name, .null)] => ofName? name
  | _ => none

/-- Reads the target of a link. -/
def LinkTarget.ofJson? : Json → Option LinkTarget
  | .string (some path) => some (.pending (String.ofList path))
  | value => value.toNat?.map .node

/-- Reads a link. -/
def GraphLink.ofJson? (value : Json) : Option GraphLink := do
  let fields ← fields? ["source", "target", "type", "isResolved"] value
  let source ← (← field? fields "source").toNat?
  let target ← LinkTarget.ofJson? (← field? fields "target")
  let kind ← LinkKind.ofJson? (← field? fields "type")
  let isResolved ← optional? toBool? (field? fields "isResolved")
  return { source, target, kind, isResolved }

/-- Reads a graph. -/
def Graph.ofJson? (value : Json) : Option Graph := do
  let fields ← fields? ["nodes", "links"] value
  let nodes ← (← (← field? fields "nodes").toList?).mapM GraphNode.ofJson?
  let links ← (← (← field? fields "links").toList?).mapM GraphLink.ofJson?
  return { nodes, links }

/-- The graph that a text holds. -/
def Graph.parse? (text : String) : Option Graph := (Json.parse? text.toList).bind Graph.ofJson?

end SourceAtlas
