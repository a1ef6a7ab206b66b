import SourceAtlas.Yaml.Character
import SourceAtlas.Yaml.Implicit

/-!
# Writing YAML

`Value.render` writes a value in block style: an entry of a mapping and an item of a sequence each
on lines of their own, indented by two. A text is written plainly if it would be read back as the
same text, between quotes if not, and as a literal block if it has several lines.
-/

namespace SourceAtlas.Yaml

open Text

/-- A value that can be written. -/
inductive Value where
  | text (s : List Char)
  | truth (b : Bool)
  | sequence (items : List Value)
  | mapping (entries : List (List Char × Value))
deriving Repr, Inhabited

/-! ### The style of a text -/

/-- How a text is written. -/
inductive ScalarStyle where
  | plain
  | singleQuoted
  | doubleQuoted
  | literal
  | folded
deriving Repr, DecidableEq, Inhabited

/-- Whether two characters with the given properties stand next to each other. -/
def hasPair (first second : Char → Bool) : List Char → Bool
  | a :: b :: cs => (first a && second b) || hasPair first second (b :: cs)
  | _ => false

/-- Whether a text has a character that is not written as it is. -/
def hasUnprintable (s : List Char) : Bool := s.any fun c => !isPrintable c

/-- Whether a line break ends a line that has a space at its end. -/
def hasSpaceBreak (s : List Char) : Bool := hasPair (· == ' ') isBreak s

/-- Whether a line after the first starts with a space. -/
def hasBreakSpace (s : List Char) : Bool := hasPair isBreak (· == ' ') s

/-- The characters that a plain text cannot start with. -/
def isIndicator (c : Char) : Bool := "#,[]\x7b\x7d&*!|>'\"%@`".toList.contains c

/-- Whether the start of a text has a meaning of its own. -/
def startsMarked (s : List Char) : Bool :=
  "---".toList.isPrefixOf s || "...".toList.isPrefixOf s ||
    match s with
    | [] => false
    | c :: rest => isIndicator c || ((c == '?' || c == ':' || c == '-') && blankNext rest)

/-- Whether a text after its first character has a mark that ends a plain text: a colon before a
blank or at the end, or a hash after a blank. -/
def hasMark : List Char → Bool
  | [] => false
  | [_] => false
  | a :: b :: rest => (b == ':' && blankNext rest) || (isBlank a && b == '#') || hasMark (b :: rest)

/-- Whether a text starts or ends with a space or a line break. -/
def hasOuterBlank (s : List Char) : Bool :=
  let outer (c : Char) : Bool := c == ' ' || isBreak c
  s.head?.any outer || s.getLast?.any outer

/-- Whether a text may be written plainly. -/
def plainAllowed (s : List Char) : Bool :=
  !hasOuterBlank s && !hasUnprintable s && !s.any isBreak && !startsMarked s && !hasMark s

/-- Whether a text may be written between single quotes. -/
def singleAllowed (s : List Char) : Bool :=
  !hasBreakSpace s && !hasSpaceBreak s && !hasUnprintable s

/-- Whether a text may be written as a literal block. -/
def literalAllowed (s : List Char) : Bool :=
  !s.isEmpty && s.getLast? ≠ some ' ' && !hasSpaceBreak s && !hasUnprintable s

/-- How a text is written. -/
def styleOf (s : List Char) : ScalarStyle :=
  if s.contains '\n' then if literalAllowed s then .literal else .doubleQuoted
  else if !isTyped s && plainAllowed s then .plain
  else if singleAllowed s then .singleQuoted
  else .doubleQuoted

/-! ### Texts -/

/-- Spaces. -/
def pad (n : Nat) : List Char := List.replicate n ' '

/-- The hexadecimal digits of a code point, in upper case, filled up with zeros. -/
def codePoint (width : Nat) (c : Char) : List Char :=
  let digits := (Nat.toDigits 16 c.toNat).map Char.toUpper
  List.replicate (width - digits.length) '0' ++ digits

/-- A character between double quotes. -/
def escapeChar (c : Char) : List Char :=
  if c == '"' then ['\\', '"']
  else if c == '\\' then ['\\', '\\']
  else if isPrintable c && !isBreak c then [c]
  else match c.toNat with
    | 0x00 => ['\\', '0']
    | 0x07 => ['\\', 'a']
    | 0x08 => ['\\', 'b']
    | 0x09 => ['\\', 't']
    | 0x0a => ['\\', 'n']
    | 0x0b => ['\\', 'v']
    | 0x0c => ['\\', 'f']
    | 0x0d => ['\\', 'r']
    | 0x1b => ['\\', 'e']
    | 0x85 => ['\\', 'N']
    | 0x2028 => ['\\', 'L']
    | 0x2029 => ['\\', 'P']
    | n =>
      if n ≤ 0xff then '\\' :: 'x' :: codePoint 2 c
      else if n ≤ 0xffff then '\\' :: 'u' :: codePoint 4 c
      else '\\' :: 'U' :: codePoint 8 c

/-- Lines of a text with a margin in front of each, given whether a line starts here. -/
def indentLines (margin : Nat) : Bool → List Char → List Char
  | _, [] => []
  | lineStart, c :: cs =>
    if isBreak c then c :: indentLines margin true cs
    else (if lineStart then pad margin else []) ++ c :: indentLines margin false cs

/-- A text between single quotes; a quote is doubled, and a new line gets a margin. -/
def singleQuoted (margin : Nat) (s : List Char) : List Char :=
  let inner := indentLines margin false (s.flatMap fun c => if c == '\'' then ['\'', '\''] else [c])
  let margins := if s.getLast?.any isBreak then pad margin else []
  '\'' :: inner ++ margins ++ ['\'']

/-- A text between double quotes. -/
def doubleQuoted (s : List Char) : List Char := '"' :: s.flatMap escapeChar ++ ['"']

/-- The marks of a literal block: its margin, if its first line does not show it, and what becomes
of the line breaks at its end. -/
def literalMarks (s : List Char) : List Char :=
  let margin := if s.head?.any fun c => c == ' ' || isBreak c then ['2'] else []
  let chomp := match s.reverse with
    | [] => ['-']
    | [last] => if isBreak last then ['+'] else ['-']
    | last :: before :: _ =>
      if !isBreak last then ['-'] else if isBreak before then ['+'] else []
  '|' :: margin ++ chomp

/-- A text as a literal block, with the line break that ends it. -/
def literalBlock (margin : Nat) (s : List Char) : List Char :=
  literalMarks s ++ '\n' :: indentLines margin true s ++
    (if s.getLast?.any isBreak then [] else ['\n'])

/-- A text as a value, with the line break that ends it. -/
def scalar (margin : Nat) (s : List Char) : List Char :=
  match styleOf s with
  | .plain => s ++ ['\n']
  | .singleQuoted => singleQuoted margin s ++ ['\n']
  | .literal => literalBlock margin s
  | _ => doubleQuoted s ++ ['\n']

/-- A text as a key on one line. -/
def simpleKey (s : List Char) : List Char :=
  match styleOf s with
  | .plain => s
  | .singleQuoted => singleQuoted 0 s
  | _ => doubleQuoted s

/-- Whether a key fits on the line of its value. -/
def isSimpleKey (s : List Char) : Bool :=
  !s.any isBreak && (String.ofList s).utf8ByteSize ≤ 128

/-! ### Values -/

/-- Where a value stands. -/
inductive ValuePlace where
  /-- After a key and its colon. -/
  | afterKey
  /-- After a mark and a space: a dash, a question mark, or a colon on a line of its own. -/
  | afterMark
deriving Repr, DecidableEq, Inhabited

/-- What stands between a key or a mark and a value on the same line. -/
def ValuePlace.gap : ValuePlace → List Char
  | afterKey => [' ']
  | afterMark => []

mutual

/-- A value after a key or a mark at a column, with the line break that ends it. A collection after
a mark starts on the line of the mark. -/
def Value.write (place : ValuePlace) (column : Nat) : Value → List Char
  | .text s => place.gap ++ scalar (column + 2) s
  | .truth b => place.gap ++ (if b then "true\n" else "false\n").toList
  | .sequence items =>
    if items.isEmpty then place.gap ++ "[]\n".toList
    else match place with
      | .afterKey => '\n' :: writeItems column true items
      | .afterMark => writeItems (column + 2) false items
  | .mapping entries =>
    if entries.isEmpty then place.gap ++ "\x7b\x7d\n".toList
    else match place with
      | .afterKey => '\n' :: writeEntries (column + 2) true entries
      | .afterMark => writeEntries (column + 2) false entries

/-- The items of a sequence at a column, given whether the first one needs its margin. -/
def writeItems (column : Nat) (margin : Bool) : List Value → List Char
  | [] => []
  | item :: items =>
    (if margin then pad column else []) ++ '-' :: ' ' :: item.write .afterMark column ++
      writeItems column true items

/-- The entries of a mapping at a column, given whether the first one needs its margin. A key that
does not fit on the line of its value is marked, and so is the value. -/
def writeEntries (column : Nat) (margin : Bool) : List (List Char × Value) → List Char
  | [] => []
  | (key, value) :: entries =>
    (if margin then pad column else []) ++
      (if isSimpleKey key then simpleKey key ++ ':' :: value.write .afterKey column
      else '?' :: ' ' :: scalar (column + 2) key ++ pad column ++
        ':' :: ' ' :: value.write .afterMark column) ++
      writeEntries column true entries

end

/-- The text of a mapping. -/
def render (entries : List (List Char × Value)) : List Char :=
  match entries with
  | [] => "\x7b\x7d\n".toList
  | _ => writeEntries 0 true entries

end SourceAtlas.Yaml
