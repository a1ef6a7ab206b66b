import SourceAtlas.Json.Basic

/-!
# Writing JSON

`Json.compact` writes a value on one line without blanks, and `Json.pretty` writes every item and
every member on a line of its own, indented by two.
-/

namespace SourceAtlas.Json

/-- A character of a string. -/
def escapeChar (c : Char) : List Char :=
  match c with
  | '"' => ['\\', '"']
  | '\\' => ['\\', '\\']
  | '\n' => ['\\', 'n']
  | '\r' => ['\\', 'r']
  | '\t' => ['\\', 't']
  | '\x08' => ['\\', 'b']
  | '\x0c' => ['\\', 'f']
  | _ =>
    if c.toNat < 0x20 then
      ['\\', 'u', '0', '0', Nat.digitChar (c.toNat / 16), Nat.digitChar (c.toNat % 16)]
    else [c]

/-- A string between quotes. -/
def quoted (s : List Char) : List Char := '"' :: s.flatMap escapeChar ++ ['"']

/-- A value without parts. -/
def atom : Json → List Char
  | .null => "null".toList
  | .truth b => (if b then "true" else "false").toList
  | .natural n => Nat.toDigits 10 n
  | .string (some s) => quoted s
  | _ => "null".toList

mutual

/-- A value on one line. -/
def compact : Json → List Char
  | .array items => '[' :: compactItems items ++ [']']
  | .object members => '{' :: compactMembers members ++ ['}']
  | value => atom value

/-- Items on one line. -/
def compactItems : List Json → List Char
  | [] => []
  | [item] => compact item
  | item :: items => compact item ++ ',' :: compactItems items

/-- Members on one line. -/
def compactMembers : List (Option (List Char) × Json) → List Char
  | [] => []
  | [(name, value)] => quoted (name.getD []) ++ ':' :: compact value
  | (name, value) :: members =>
    quoted (name.getD []) ++ ':' :: compact value ++ ',' :: compactMembers members

end

/-- The start of a line at a depth. -/
def newLine (depth : Nat) : List Char := '\n' :: List.replicate (2 * depth) ' '

mutual

/-- A value on several lines, at a depth. -/
def pretty (depth : Nat) : Json → List Char
  | .array items =>
    if items.isEmpty then ['[', ']']
    else '[' :: prettyItems (depth + 1) items ++ newLine depth ++ [']']
  | .object members =>
    if members.isEmpty then ['{', '}']
    else '{' :: prettyMembers (depth + 1) members ++ newLine depth ++ ['}']
  | value => atom value

/-- Items on lines of their own. -/
def prettyItems (depth : Nat) : List Json → List Char
  | [] => []
  | [item] => newLine depth ++ pretty depth item
  | item :: items => newLine depth ++ pretty depth item ++ ',' :: prettyItems depth items

/-- Members on lines of their own. -/
def prettyMembers (depth : Nat) : List (Option (List Char) × Json) → List Char
  | [] => []
  | [(name, value)] => newLine depth ++ quoted (name.getD []) ++ ':' :: ' ' :: pretty depth value
  | (name, value) :: members =>
    newLine depth ++ quoted (name.getD []) ++ ':' :: ' ' :: pretty depth value ++
      ',' :: prettyMembers depth members

end

end SourceAtlas.Json
