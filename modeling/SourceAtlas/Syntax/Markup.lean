import SourceAtlas.Syntax.Reader

/-!
# Markup elements

The rules for elements written between angle brackets inside expressions: a tag with attributes, and
unless the tag closes itself, children up to the closing tag.
-/

namespace SourceAtlas.Syntax.Markup

open Text Reader

variable (dialect : Dialect) (bound : Nat) (rules : Rules)

/-- The characters of the names of tags and attributes. -/
def isNameChar (c : Char) : Bool := isWordChar c || c == '-' || c == '.' || c == ':'

/-- The name of a tag or an attribute. -/
def name : Reader Unit := do
  let cs := skipTrivia (← get)
  check (cs.head?.any isNameChar)
  set (cs.dropWhile isNameChar)

/-- An expression between braces, which may be missing or spread. -/
def braced : Reader (List Item) := do
  symbol "\x7b"
  let _ ← symbol? "..."
  let inner ← optionally [] (do return (← rules _ (.expression .enclosed)).inner)
  symbol "\x7d"
  return inner

/-- The text after a quoted attribute value, in which nothing is escaped. -/
def quotedValue? : List Char → Option (List Char)
  | c :: rest =>
    if c = '"' ∨ c = '\'' then
      match rest.dropWhile (· ≠ c) with
      | _ :: after => some after
      | [] => none
    else none
  | [] => none

/-- The value of an attribute. -/
def value : Reader (List Item) := do
  match ← peek with
  | some '{' => braced rules
  | some '<' => rules _ .markup
  | _ => lexeme quotedValue?; return []

/-- An attribute, or attributes spread from an expression. -/
def attributePart : Reader (List Item) := do
  if ← sees "\x7b" then braced rules
  else
    name
    if ← sees "=" then
      symbol "="
      value rules
    else return []

/-- A stretch of text among the children of an element. -/
def text : Reader Unit := do
  let cs ← get
  let rest := cs.dropWhile fun c => !"<>\x7b\x7d".toList.contains c
  check (rest.length < cs.length)
  set rest

/-- A child of an element. -/
def child : Reader (List Item) := do
  match ← get with
  | '{' :: _ => braced rules
  | '<' :: rest =>
    check ((skipTrivia rest).head? ≠ some '/')
    rules _ .markup
  | _ => text; return []

/-- The closing tag of an element. -/
def closingTag : Reader Unit := do
  symbol "<"
  symbol "/"
  optionally () name
  symbol ">"

/-- An element, or a fragment without a name. -/
def element : Reader (List Item) := do
  symbol "<"
  if ← sees ">" then
    symbol ">"
    children
  else
    name
    if dialect.hasTypes && (← sees "<") then rules _ .typeArguments
    let attributes ← many (attributePart rules) bound
    if ← sees "/" then
      symbol "/"
      symbol ">"
      return attributes.flatten
    else
      symbol ">"
      return attributes.flatten ++ (← children)
where
  /-- The children of an element and its closing tag. -/
  children : Reader (List Item) := do
    let inner ← many (child rules) bound
    closingTag
    return inner.flatten

end SourceAtlas.Syntax.Markup
