import SourceAtlas.Syntax.Semicolon
import SourceAtlas.Syntax.Tree

/-!
# Readers

A `Reader` takes a value from the front of the remaining text or fails. Alternatives return to
where they started. `Goal` names the constructs of the grammar whose rules refer to one another;
the rules are written against a reader for every goal, and the knot is tied with the grammar.
-/

namespace SourceAtlas.Syntax

open Text

/-- Takes a value from the front of the remaining text, or fails. -/
abbrev Reader := StateT (List Char) Option

/-- Where an expression or a type stands. -/
structure Place where
  /-- A statement may end here without a semicolon. -/
  endable : Bool := false
  /-- Between the two marks of a conditional expression, where a colon comes next. -/
  consequent : Bool := false
deriving Repr, DecidableEq, Inhabited

/-- Inside brackets, where no statement ends. -/
def Place.enclosed : Place := {}

/-- Directly in a statement. -/
def Place.statement : Place := { endable := true }

/-- The constructs whose rules refer to one another, with what reading them gives. -/
inductive Goal : Type → Type where
  /-- Statements up to a closing brace, a case label or the end. -/
  | items : Goal (List Item)
  /-- One statement. -/
  | statement : Goal Item
  /-- Statements between braces. -/
  | block : Goal (List Item)
  /-- Expressions separated by commas. -/
  | expression (place : Place) : Goal Value
  /-- An expression without commas. -/
  | assignment (place : Place) : Goal Value
  /-- An expression without binary operators. -/
  | operand (place : Place) : Goal Value
  /-- A parenthesized list: arguments, parameters or a grouped expression. -/
  | parenthesized : Goal (List Item)
  /-- A list between square brackets. -/
  | bracketed : Goal (List Item)
  /-- An object literal or an object pattern. -/
  | object : Goal (List Item)
  /-- A template literal. -/
  | template : Goal (List Item)
  /-- A markup element. -/
  | markup : Goal (List Item)
  /-- The members of a class, between braces. -/
  | classBody : Goal (List Member)
  /-- A type. -/
  | type (place : Place) : Goal Unit
  /-- Types between angle brackets. -/
  | typeArguments : Goal Unit
  /-- Declared type parameters between angle brackets. -/
  | typeParameters : Goal Unit

/-- A reader for every goal. -/
abbrev Rules := (α : Type) → Goal α → Reader α

namespace Reader

/-- Skips white space and comments. -/
def skip : Reader Unit := modify skipTrivia

/-- Succeeds if a condition holds. -/
def check (condition : Bool) : Reader Unit := if condition then pure () else failure

/-- The character after white space and comments. -/
def peek : Reader (Option Char) := do
  return (skipTrivia (← get)).head?

/-- Whether a symbol comes next, after white space and comments. -/
def sees (symbol : String) : Reader Bool := do
  return symbol.toList.isPrefixOf (skipTrivia (← get))

/-- Reads a symbol. -/
def symbol (text : String) : Reader Unit := do
  match text.toList.isPrefixOf? (skipTrivia (← get)) with
  | some rest => set rest
  | none => failure

/-- The word that comes next, which is empty if no word does. -/
def peekWord : Reader (List Char) := do
  return (word (skipTrivia (← get))).1

/-- Whether a keyword comes next. -/
def seesWord (keyword : String) : Reader Bool := do
  return (← peekWord) = keyword.toList

/-- Reads a word. -/
def anyWord : Reader (List Char) := do
  let (read, rest) := word (skipTrivia (← get))
  check (!read.isEmpty)
  set rest
  return read

/-- Reads a keyword. -/
def keyword (text : String) : Reader Unit := do
  check ((← anyWord) = text.toList)

/-- Reads a keyword if it comes next. -/
def keyword? (text : String) : Reader Bool :=
  (do keyword text; return true) <|> return false

/-- Reads a symbol if it comes next. -/
def symbol? (text : String) : Reader Bool :=
  (do symbol text; return true) <|> return false

/-- Reads as much as a function on the remaining text takes. -/
def lexeme (take : List Char → Option (List Char)) : Reader Unit := do
  match take (skipTrivia (← get)) with
  | some rest => set rest
  | none => failure

/-- Reads what a reader accepts as often as it succeeds, at most as often as the bound says. -/
def many {α : Type} (reader : Reader α) : Nat → Reader (List α)
  | 0 => pure []
  | bound + 1 =>
    (do
      let first ← reader
      let others ← many reader bound
      return first :: others) <|> pure []

/-- Reads what a reader accepts, divided by commas, at most as often as the bound says. -/
def listed {α : Type} (reader : Reader α) : Nat → Reader (List α)
  | 0 => pure []
  | bound + 1 =>
    (do
      let first ← reader
      if ← symbol? "," then return first :: (← listed reader bound)
      else return [first]) <|> pure []

/-- What a reader gives, or the default if it fails. -/
def optionally {α : Type} (default : α) (reader : Reader α) : Reader α := reader <|> pure default

/-- The text that a reader consumes, without the white space and comments before it. -/
def consumed (reader : Reader Unit) : Reader (List Char) := do
  skip
  let before ← get
  reader
  return before.take (before.length - (← get).length)

end Reader

/-! ### Where statements end -/

/-- The text at the next lexeme, unless the statement ends before it. -/
def upcoming (dialect : Dialect) (place : Place) (follow : Semicolon.Follow) (cs : List Char) :
    Option (List Char) :=
  if place.endable && Semicolon.implied dialect follow cs then none
  else match _h : comment? (cs.dropWhile isSpace) with
    | some (_, rest) => upcoming dialect place follow rest
    | none => some (cs.dropWhile isSpace)
termination_by cs.length
decreasing_by
  have := length_of_comment? _h
  have := length_dropWhile_le isSpace cs
  omega

/-- The text after the end of a statement without a semicolon, past the comments that belong to the
statement, if it ends that way. -/
def impliedEnd? (dialect : Dialect) (follow : Semicolon.Follow) (cs : List Char) :
    Option (List Char) :=
  if Semicolon.implied dialect follow cs then some cs
  else match _h : comment? (cs.dropWhile isSpace) with
    | some (_, rest) => impliedEnd? dialect follow rest
    | none => none
termination_by cs.length
decreasing_by
  have := length_of_comment? _h
  have := length_dropWhile_le isSpace cs
  omega

/-- The text after the end of a statement, with or without a semicolon. -/
def statementEnd? (dialect : Dialect) (follow : Semicolon.Follow) (cs : List Char) :
    Option (List Char) :=
  if Semicolon.implied dialect follow cs then some cs
  else match _h : comment? (cs.dropWhile isSpace) with
    | some (_, rest) => statementEnd? dialect follow rest
    | none =>
      match cs.dropWhile isSpace with
      | ';' :: rest => some rest
      | _ => none
termination_by cs.length
decreasing_by
  have := length_of_comment? _h
  have := length_dropWhile_le isSpace cs
  omega

namespace Reader

/-- Reads the end of a statement. -/
def finish (dialect : Dialect) (follow : Semicolon.Follow) : Reader Unit := do
  match statementEnd? dialect follow (← get) with
  | some rest => set rest
  | none => failure

/-- Moves past the comments that belong to a statement which needs no semicolon. -/
def settle (dialect : Dialect) (follow : Semicolon.Follow) : Reader Unit := do
  match impliedEnd? dialect follow (← get) with
  | some rest => set rest
  | none => pure ()

/-- The text at the next lexeme of an expression; fails where the statement ends. -/
def ahead (dialect : Dialect) (place : Place) : Reader (List Char) := do
  match upcoming dialect place {} (← get) with
  | some cs => return cs
  | none => failure

/-- The text at the next lexeme of a type or a declaration; fails where the statement ends. -/
def aheadOfType (dialect : Dialect) (place : Place) : Reader (List Char) := do
  match upcoming dialect place { operator := false } (← get) with
  | some cs => return cs
  | none => failure

end Reader

end SourceAtlas.Syntax
