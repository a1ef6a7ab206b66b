import SourceAtlas.Comment
import SourceAtlas.Syntax.Tree

/-!
# The description of a file

A file is described by the comments before its first statement. A file without a statement has no
description, and comments that address a framework do not count.
-/

namespace SourceAtlas

open Text Syntax

/-- The comments before the first statement, if there is a statement. -/
def leadingComments? : List Item → Option (List (List Char))
  | [] => none
  | .comment comment :: items => (leadingComments? items).map (comment.text :: ·)
  | .interpreterLine :: items => leadingComments? items
  | _ :: _ => some []

/-- The cleaned texts of comments that say something to a reader. -/
def descriptionParts (comments : List (List Char)) : List (List Char) :=
  ((comments.filter fun raw => !Comment.isDirective raw).map Comment.clean).filter
    fun text => !text.isEmpty

/-- The description of a file with the given items. -/
def fileDescription? (items : List Item) : Option (List Char) :=
  (leadingComments? items).bind fun comments =>
    match descriptionParts comments with
    | [] => none
    | parts => some (unlines parts)

end SourceAtlas
