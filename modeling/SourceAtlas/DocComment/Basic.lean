import SourceAtlas.Comment

/-!
# Documentation comments

A documentation comment is a block comment that opens with two stars. `DocComment.parse?` divides
it into a description and tags: a line that starts with `@` and a letter opens a tag, the lines up
to the next tag continue it, and the lines before the first tag are the description.
-/

namespace SourceAtlas

open Text Comment

/-- A tag of a documentation comment, such as `@param`, with the text that belongs to it. -/
structure DocTag where
  name : List Char
  body : List Char
deriving Repr, DecidableEq, Inhabited

/-- A documentation comment: its description and its tags in order. -/
structure DocComment where
  description : Option (List Char) := none
  tags : List DocTag := []
deriving Repr, DecidableEq, Inhabited

namespace DocTag

/-- The tag as it is written on one line. -/
def text (tag : DocTag) : List Char :=
  if tag.body.isEmpty then '@' :: tag.name else '@' :: tag.name ++ ' ' :: tag.body

/-- The letters that make up a tag's name. -/
def isNameChar (c : Char) : Bool := c.isAlpha

/-- Reads the line that opens a tag. -/
def opening? : List Char → Option DocTag
  | '@' :: rest =>
    match rest.takeWhile isNameChar with
    | [] => none
    | name => some ⟨name, trim (rest.dropWhile isNameChar)⟩
  | _ => none

/-- A tag continued by one more line; a blank line adds nothing. -/
def extend (tag : DocTag) (line : List Char) : DocTag :=
  if line.isEmpty then tag
  else if tag.body.isEmpty then { tag with body := line }
  else { tag with body := tag.body ++ '\n' :: line }

/-- The tag formed by an opening line and the lines that follow it, up to the next opening line,
and the tags after it. -/
def group : DocTag → List (List Char) → List DocTag
  | tag, [] => [tag]
  | tag, line :: rest =>
    match opening? line with
    | some next => tag :: group next rest
    | none => group (tag.extend line) rest

end DocTag

namespace DocComment

/-- A line of a documentation comment without its margin: the blanks around it and one star. -/
def contentLine (line : List Char) : List Char :=
  match trim line with
  | '*' :: rest => trim rest
  | rest => trim rest

/-- Whether a comment is a documentation comment. -/
def isDoc (raw : List Char) : Bool :=
  docOpening.isPrefixOf raw && !List.isPrefixOf ['/', '*', '*', '/'] raw

/-- The lines of a documentation comment without delimiters and margins. -/
def contentLines (raw : List Char) : List (List Char) :=
  (lines (dropSuffixes closing (dropPrefixes docOpening raw))).map contentLine

/-- The lines before the first tag. -/
def leading (content : List (List Char)) : List (List Char) :=
  content.takeWhile fun line => (DocTag.opening? line).isNone

/-- The tags of a comment, given its lines. -/
def tagsOf (content : List (List Char)) : List DocTag :=
  match content.dropWhile fun line => (DocTag.opening? line).isNone with
  | [] => []
  | line :: rest =>
    match DocTag.opening? line with
    | some tag => DocTag.group tag rest
    | none => []

/-- Reads a documentation comment; any other comment gives nothing. -/
def parse? (comment : List Char) : Option DocComment :=
  let raw := trim comment
  if isDoc raw then
    let content := contentLines raw
    some ⟨nonEmpty? (trim (unlines (leading content))), tagsOf content⟩
  else none

end DocComment

end SourceAtlas
