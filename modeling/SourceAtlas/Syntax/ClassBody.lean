import SourceAtlas.Syntax.Expression

/-!
# Class bodies

The rules for the members of a class: methods, fields, static blocks, and the signatures and
modifiers of the typed dialects. Comments are members too, since they document what follows them.
-/

namespace SourceAtlas.Syntax.ClassBody

open Text Reader Expression

variable (dialect : Dialect) (bound : Nat) (rules : Rules)

/-- The words that may modify a member. -/
def modifierWords : List (List Char) :=
  if dialect.hasTypes then
    ["static", "async", "get", "set", "readonly", "public", "private", "protected", "override",
      "abstract", "declare", "accessor"].map String.toList
  else ["static", "async", "get", "set"].map String.toList

/-- A modifier of a member; a word that the member's name cannot follow is itself a name. -/
def modifier : Reader (List Char) := do
  (do symbol "*"; return ['*']) <|> do
    let w ← anyWord
    check ((modifierWords dialect).contains w)
    let next ← aheadOfType dialect .statement
    check (!next.head?.any ("(=;:?!\x7d<,".toList.contains ·))
    return w

/-- A method after its name and marks. Without a body it is a signature. -/
def method (accessor : Bool) (name : List Char) (before : List Item) : Reader Member := do
  if dialect.hasTypes && (← sees "<") then rules _ .typeParameters
  let parameters ← rules _ .parenthesized
  TypeNotation.annotation? dialect rules .statement
  let follow : Semicolon.Follow := { operator := false, body := true }
  let hasBody := match upcoming dialect { endable := dialect.hasTypes } follow (← get) with
    | some ('{' :: _) => true
    | _ => false
  if hasBody then
    let body ← rules _ .block
    settle dialect {}
    return .method accessor name (before ++ parameters ++ body)
  else
    check dialect.hasTypes
    return .other (before ++ parameters)

/-- A field after its name and marks. -/
def field (before : List Item) : Reader Member := do
  match upcoming dialect .statement { operator := false } (← get) with
  | some (':' :: _) => TypeNotation.annotation? dialect rules .statement
  | _ => pure ()
  match upcoming dialect .statement { operator := false } (← get) with
  | some ('=' :: rest) =>
    set rest
    return .other (before ++ (← rules _ (.assignment .statement)).inner)
  | _ => return .other before

/-- A method, a field or a signature. -/
def definition (before : List Item) : Reader Member := do
  let modifiers ← many (modifier dialect) 6
  skip
  let start ← get
  let computed ← propertyName rules
  let name := start.take (start.length - (← get).length)
  if dialect.hasTypes then
    match upcoming dialect .statement { operator := false } (← get) with
    | some ('?' :: rest) => set rest
    | some ('!' :: rest) => set rest
    | _ => pure ()
  let isMethod := match upcoming dialect .statement { operator := false } (← get) with
    | some ('(' :: _) => true
    | some ('<' :: _) => true
    | _ => false
  if isMethod then
    let accessor := modifiers.contains "get".toList || modifiers.contains "set".toList
    method dialect rules accessor name (before ++ computed)
  else field dialect rules (before ++ computed)

/-- A static block. -/
def staticBlock : Reader Member := do
  keyword "static"
  check (← sees "\x7b")
  let inner ← rules _ .block
  settle dialect {}
  return .other inner

/-- A comment, a separator or a member. In a typed dialect a decorator stands apart from the member
that it decorates. -/
def member : Reader Member := do
  modify (List.dropWhile isSpace)
  let cs ← get
  match comment? cs with
  | some (comment, rest) =>
    set rest
    return .comment comment
  | none =>
    match cs with
    | ';' :: rest => set rest; return .other []
    | ',' :: rest => set rest; return .other []
    | '@' :: _ =>
      if dialect.hasTypes then return .other (← decorator rules)
      else definition dialect rules (← decorators bound rules)
    | '}' :: _ => failure
    | _ => staticBlock dialect rules <|> definition dialect rules []

/-- The members of a class, between braces. -/
def classBody : Reader (List Member) := do
  symbol "\x7b"
  let members ← many (member dialect bound rules) bound
  symbol "\x7d"
  return members

end SourceAtlas.Syntax.ClassBody
