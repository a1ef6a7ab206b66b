import SourceAtlas.Text.Affix

/-!
# Comments

`Comment.clean` strips the delimiters and the leading markers of a comment and drops its blank
lines. `Comment.isDirective` recognises the comments that address a framework and not a reader.
-/

namespace SourceAtlas.Comment

open Text

/-- The opening delimiter of a block comment. -/
def opening : List Char := ['/', '*']

/-- The opening delimiter of a documentation comment. -/
def docOpening : List Char := ['/', '*', '*']

/-- The closing delimiter of a block comment. -/
def closing : List Char := ['*', '/']

/-- The marker of a line comment. -/
def lineMarker : List Char := ['/', '/']

/-- One line of a comment without the markers in front of its text. -/
def cleanLine (line : List Char) : List Char :=
  trim ((dropPrefixes lineMarker (trim line)).dropWhile (· = '*'))

/-- The lines between the delimiters of a comment. -/
def bodyLines (raw : List Char) : List (List Char) :=
  lines (dropSuffixes closing (dropPrefixes opening (dropPrefixes docOpening (trim raw))))

/-- The text of a comment: its lines without delimiters and markers, blank lines dropped. -/
def clean (raw : List Char) : List Char :=
  unlines (((bodyLines raw).map cleanLine).filter fun line => !line.isEmpty)

/-- The phrases that mark a comment as addressed to a framework. -/
def directiveMarkers : List (List Char) := ["use client".toList, "use server".toList]

/-- Whether a comment mentions a directive of a framework. -/
def isDirective (raw : List Char) : Bool :=
  directiveMarkers.any fun marker => containsInfix marker raw

end SourceAtlas.Comment
