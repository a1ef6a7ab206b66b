import SourceAtlas.Yaml.Node

/-!
# From nodes to records

Readers that take texts, truth values, lists and records from nodes. An alias is followed to the
node that it stands for, but only a limited number of times, and collections may nest only so
deeply.
-/

namespace SourceAtlas.Yaml

open Text

mutual

/-- The nodes with numbers in a node, in document order. -/
def Node.anchors : Node → List (Nat × Node)
  | .scalar _ _ _ => []
  | .sequence items => itemAnchors items
  | .mapping entries => entryAnchors entries
  | .reference _ => []
  | .anchored number node => (number, node) :: node.anchors

/-- The nodes with numbers in a list of nodes. -/
def itemAnchors : List Node → List (Nat × Node)
  | [] => []
  | item :: items => item.anchors ++ itemAnchors items

/-- The nodes with numbers in the entries of a mapping. -/
def entryAnchors : List (Node × Node) → List (Nat × Node)
  | [] => []
  | (key, value) :: entries => key.anchors ++ value.anchors ++ entryAnchors entries

end

mutual

/-- The size of a node: a scalar counts once, a collection once for each of its ends. -/
def Node.size : Node → Nat
  | .scalar _ _ _ => 1
  | .sequence items => itemSizes items + 2
  | .mapping entries => entrySizes entries + 2
  | .reference _ => 1
  | .anchored _ node => node.size

/-- The sizes of nodes, added. -/
def itemSizes : List Node → Nat
  | [] => 0
  | item :: items => item.size + itemSizes items

/-- The sizes of the keys and values of a mapping, added. -/
def entrySizes : List (Node × Node) → Nat
  | [] => 0
  | (key, value) :: entries => key.size + value.size + entrySizes entries

end

/-- Reads a value, given the nodes that aliases stand for and how many aliases may be followed. -/
abbrev Decode := ReaderT (List (Nat × Node)) (StateT Nat Option)

namespace Decode

/-- Gives up. -/
def fail {α : Type} : Decode α := failure

/-- The number of collections that may be nested. -/
def maxDepth : Nat := 128

/-- The node that an alias stands for: the last one with its number. -/
def follow (number : Nat) : Decode Node := do
  let left ← get
  if left = 0 then fail
  else
    set (left - 1)
    match (← read).reverse.find? fun (n, _) => n = number with
    | some (_, node) => return node
    | none => fail

/-- The node itself, without a number, or the node that it stands for. -/
def target : Node → Decode Node
  | .reference number => do
    match ← follow number with
    | .reference _ => fail
    | .anchored _ node => return node
    | node => return node
  | .anchored _ node => return node
  | node => return node

/-- Whether a node is empty and without quotes, and so may stand for an empty collection. -/
def isVoid : Node → Bool
  | .scalar _ .plain [] => true
  | _ => false

/-- A text: any scalar. -/
def text (node : Node) : Decode (List Char) := do
  match ← target node with
  | .scalar _ _ text => return text
  | _ => fail

/-- A text as a string. -/
def string (node : Node) : Decode String := do return String.ofList (← text node)

/-- The tag of null. -/
def nullTag : List Char := "tag:yaml.org,2002:null".toList

/-- The tag of truth values. -/
def truthTag : List Char := "tag:yaml.org,2002:bool".toList

/-- A string that may be missing. -/
def string? (node : Node) : Decode (Option String) := do
  match ← target node with
  | .scalar none .plain text =>
    return if text.isEmpty || isNull text then none else some (String.ofList text)
  | .scalar (some tag) .plain text =>
    if tag ≠ nullTag then return some (String.ofList text)
    else if isNull text then return none
    else fail
  | .scalar _ _ text => return some (String.ofList text)
  | _ => fail

/-- A truth value. -/
def truth (node : Node) : Decode Bool := do
  match ← target node with
  | .scalar tag style text =>
    if style = .plain || (style = .literal && tag = some truthTag) then
      match truth? text with
      | some b => return b
      | none => fail
    else fail
  | _ => fail

/-- The items of a sequence, and the depth that is left for them. -/
def items (depth : Nat) (node : Node) : Decode (Nat × List Node) := do
  match ← target node with
  | .sequence items => if depth = 0 then fail else return (depth - 1, items)
  | node => if isVoid node then return (depth, []) else fail

/-- The entries of a mapping, and the depth that is left for them. -/
def entries (depth : Nat) (node : Node) : Decode (Nat × List (Node × Node)) := do
  match ← target node with
  | .mapping entries => if depth = 0 then fail else return (depth - 1, entries)
  | node => if isVoid node then return (depth, []) else fail

/-- A list. -/
def list {α : Type} (item : Nat → Node → Decode α) (depth : Nat) (node : Node) :
    Decode (List α) := do
  let (depth, nodes) ← items depth node
  nodes.mapM (item depth)

/-! ### Records -/

/-- The fields of a record: the nodes under their names. -/
abbrev Fields := List (List Char × Node)

/-- The fields of a record, and the depth that is left for them. -/
def fields (depth : Nat) (node : Node) : Decode (Nat × Fields) := do
  let (depth, entries) ← entries depth node
  let fields ← entries.mapM fun (key, value) => do return (← text key, value)
  return (depth, fields)

/-- The field with a name, which must not be repeated. -/
def field? (fields : Fields) (name : String) : Decode (Option Node) :=
  match fields.filter fun (key, _) => key = name.toList with
  | [] => return none
  | [(_, node)] => return some node
  | _ => fail

/-- The value of a field that must be there. -/
def required {α : Type} (fields : Fields) (name : String) (value : Node → Decode α) :
    Decode α := do
  match ← field? fields name with
  | some node => value node
  | none => fail

/-- The value of a field, or a default if it is missing. -/
def optional {α : Type} (fields : Fields) (name : String) (default : α) (value : Node → Decode α) :
    Decode α := do
  match ← field? fields name with
  | some node => value node
  | none => return default

/-- Reads a text as a value. A text without a document stands for an empty node. -/
def run? {α : Type} (decoder : Node → Decode α) (cs : List Char) : Option α :=
  (parse? cs).bind fun root =>
    let node := root.getD .void
    (((decoder node).run node.anchors).run (node.size * 100)).map Prod.fst

end Decode

end SourceAtlas.Yaml
