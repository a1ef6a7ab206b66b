import SourceAtlas.Yaml.Scanner

/-!
# From tokens to nodes

`parse?` reads a YAML text with at most one document. A node is a scalar or a collection; a node
with an anchor carries a number, and an alias refers to a node by that number.
-/

namespace SourceAtlas.Yaml

/-- A node of a document. -/
inductive Node where
  | scalar (tag : Option (List Char)) (style : ScalarStyle) (text : List Char)
  | sequence (items : List Node)
  | mapping (entries : List (Node × Node))
  /-- Stands for the node with the given number. -/
  | reference (number : Nat)
  /-- A node that aliases may refer to. -/
  | anchored (number : Nat) (node : Node)
deriving Repr, Inhabited

/-- A node without text. -/
def Node.void : Node := .scalar none .plain []

/-! ### Reading -/

/-- What is left of the tokens, and the names known so far. -/
structure NodeState where
  tokens : List Token
  /-- The numbers of the anchors by name. -/
  anchors : List (List Char × Nat) := []
  /-- What the handles of tags stand for. -/
  handles : List (List Char × List Char) := []
deriving Repr, Inhabited

/-- Takes a value from the front of the tokens, or fails. -/
abbrev NodeReader := StateT NodeState Option

namespace NodeReader

/-- The next token. -/
def peek : NodeReader (Option Token) := do return (← get).tokens.head?

/-- Moves past the next token. -/
def skip : NodeReader Unit := modify fun s => { s with tokens := s.tokens.drop 1 }

/-- Whether one of some tokens comes next. -/
def sees (tokens : List Token) : NodeReader Bool := do
  return (← peek).any tokens.contains

/-- Moves past a token if it comes next. -/
def take? (token : Token) : NodeReader Bool := do
  if (← peek) = some token then
    skip
    return true
  else return false

/-- Moves past a token, which must come next. -/
def expect (token : Token) : NodeReader Unit := do
  if !(← take? token) then failure

/-- The number of an anchor. It is the number of the different names before it, and a name that is
used again takes a new number. -/
def newAnchor (name : List Char) : NodeReader Nat := do
  let s ← get
  let number := s.anchors.length
  set { s with anchors := (name, number) :: s.anchors.filter fun (n, _) => n ≠ name }
  return number

/-- The number of the anchor that an alias names. -/
def findAnchor (name : List Char) : NodeReader Nat := do
  match (← get).anchors.find? fun (n, _) => n = name with
  | some (_, number) => return number
  | none => failure

/-- The tag that a handle and a suffix stand for. -/
def resolveTag (handle suffix : List Char) : NodeReader (List Char) := do
  if handle.isEmpty then return suffix
  else match (← get).handles.find? fun (h, _) => h = handle with
    | some (_, lead) => return lead ++ suffix
    | none => failure

/-- The anchor and the tag in front of a node, in either order. -/
def properties : NodeReader (Option (List Char) × Option (List Char)) := do
  match ← peek with
  | some (.anchor name) =>
    skip
    match ← peek with
    | some (.tag handle suffix) =>
      skip
      return (some name, some (← resolveTag handle suffix))
    | _ => return (some name, none)
  | some (.tag handle suffix) =>
    skip
    let tag ← resolveTag handle suffix
    match ← peek with
    | some (.anchor name) =>
      skip
      return (some name, some tag)
    | _ => return (none, some tag)
  | _ => return (none, none)

/-- A value, or a node without text if a token comes next that cannot open a value. -/
def valueUnless (tokens : List Token) (reader : NodeReader Node) : NodeReader Node := do
  if ← sees tokens then return .void else reader

mutual

/-- Reads a node. Collections in block style are read only where blocks may stand, and sequences
without an indentation of their own only as entries of a mapping. -/
def node (block indentless : Bool) : Nat → NodeReader Node
  | 0 => failure
  | bound + 1 => do
    match ← peek with
    | some (.reference name) =>
      skip
      return .reference (← findAnchor name)
    | _ =>
      let (anchor, tag) ← properties
      let number ← anchor.mapM newAnchor
      let content ← (do
        match ← peek with
        | some (.scalar style text) =>
          skip
          return .scalar tag style text
        | some .blockEntry =>
          if indentless then return .sequence (← indentlessItems bound)
          else bare anchor tag
        | some .flowSequenceStart =>
          skip
          return .sequence (← flowItems true bound)
        | some .flowMappingStart =>
          skip
          return .mapping (← flowEntries true bound)
        | some .blockSequenceStart =>
          if block then
            skip
            return .sequence (← blockItems bound)
          else bare anchor tag
        | some .blockMappingStart =>
          if block then
            skip
            return .mapping (← blockEntries bound)
          else bare anchor tag
        | _ => bare anchor tag)
      return match number with
        | some n => .anchored n content
        | none => content
where
  /-- A node that has only an anchor or a tag. -/
  bare (anchor tag : Option (List Char)) : NodeReader Node :=
    if anchor.isSome || tag.isSome then return .scalar tag .plain [] else failure

/-- Reads the items of a sequence in block style. -/
def blockItems : Nat → NodeReader (List Node)
  | 0 => failure
  | bound + 1 => do
    if ← take? .blockEntry then
      let item ← valueUnless [.blockEntry, .blockEnd] (node true false bound)
      return item :: (← blockItems bound)
    else
      expect .blockEnd
      return []

/-- Reads the items of a sequence without an indentation of its own. -/
def indentlessItems : Nat → NodeReader (List Node)
  | 0 => failure
  | bound + 1 => do
    if ← take? .blockEntry then
      let item ← valueUnless [.blockEntry, .key, .value, .blockEnd] (node true false bound)
      return item :: (← indentlessItems bound)
    else return []

/-- Reads the entries of a mapping in block style. -/
def blockEntries : Nat → NodeReader (List (Node × Node))
  | 0 => failure
  | bound + 1 => do
    if ← take? .key then
      let key ← valueUnless [.key, .value, .blockEnd] (node true true bound)
      let value ← (do
        if ← take? .value then valueUnless [.key, .value, .blockEnd] (node true true bound)
        else return .void)
      return (key, value) :: (← blockEntries bound)
    else
      expect .blockEnd
      return []

/-- Reads the items of a sequence in flow style; an item with a key is a mapping of one entry. -/
def flowItems (first : Bool) : Nat → NodeReader (List Node)
  | 0 => failure
  | bound + 1 => do
    if ← take? .flowSequenceEnd then return []
    else
      if !first then expect .flowEntry
      if ← take? .flowSequenceEnd then return []
      else
        let item ← (do
          if ← take? .key then return .mapping [← flowPair bound]
          else node false false bound)
        return item :: (← flowItems false bound)

/-- Reads a key and its value in a sequence in flow style. -/
def flowPair : Nat → NodeReader (Node × Node)
  | 0 => failure
  | bound + 1 => do
    let key ← (do
      if ← sees [.value, .flowEntry, .flowSequenceEnd] then
        skip
        return .void
      else node false false bound)
    let value ← (do
      if ← take? .value then valueUnless [.flowEntry, .flowSequenceEnd] (node false false bound)
      else return .void)
    return (key, value)

/-- Reads the entries of a mapping in flow style. -/
def flowEntries (first : Bool) : Nat → NodeReader (List (Node × Node))
  | 0 => failure
  | bound + 1 => do
    if ← take? .flowMappingEnd then return []
    else
      if !first then expect .flowEntry
      if ← take? .flowMappingEnd then return []
      else
        let entry ← (do
          if ← take? .key then
            let key ← valueUnless [.value, .flowEntry, .flowMappingEnd] (node false false bound)
            let value ← (do
              if ← take? .value then
                valueUnless [.flowEntry, .flowMappingEnd] (node false false bound)
              else return .void)
            return (key, value)
          else return (← node false false bound, .void))
        return entry :: (← flowEntries false bound)

end

/-! ### Documents -/

/-- What the handles of tags stand for if no directive says otherwise. -/
def standardHandles : List (List Char × List Char) :=
  [("!".toList, "!".toList), ("!!".toList, "tag:yaml.org,2002:".toList)]

/-- Reads directives, given whether a version has been read. No directive may be repeated. -/
def directives (versioned : Bool) : Nat → NodeReader Unit
  | 0 => failure
  | bound + 1 => do
    match ← peek with
    | some (.versionDirective major minor) =>
      if versioned || major ≠ 1 || (minor ≠ 1 && minor ≠ 2) then failure
      skip
      directives true bound
    | some (.tagDirective handle lead) =>
      if (← get).handles.any fun (h, _) => h = handle then failure
      modify fun s => { s with handles := s.handles ++ [(handle, lead)] }
      skip
      directives versioned bound
    | _ => return ()

/-- Whether a token opens a document by name. -/
def opensDocument : Token → Bool
  | .versionDirective _ _ => true
  | .tagDirective _ _ => true
  | .documentStart => true
  | _ => false

/-- Whether a token belongs to the frame of a document. -/
def framesDocument (token : Token) : Bool := opensDocument token || token = .documentEnd

/-- Reads the only document of a text, if it has one. -/
def document : NodeReader (Option Node) := do
  let bound := 2 * (← get).tokens.length + 2
  match ← peek with
  | none => return none
  | some first =>
    let explicit := opensDocument first
    if explicit then
      directives false bound
      expect .documentStart
    modify fun s => { s with handles := s.handles ++ standardHandles }
    let isVoid := explicit && (← peek).all framesDocument
    let root ← if isVoid then pure .void else node true false bound
    modify fun s => { s with tokens := s.tokens.dropWhile (· = .documentEnd) }
    if (← peek).isSome then failure
    return some root

end NodeReader

/-- The root of the only document of a text, if it has one. Fails if the text is not well formed or
has several documents. -/
def parse? (cs : List Char) : Option (Option Node) :=
  (scan? cs).bind fun tokens => (NodeReader.document.run { tokens }).map Prod.fst

end SourceAtlas.Yaml
