/-!
# Patterns of paths

A `Glob` is a pattern for the text of a path: wildcards, character classes, alternatives, and `**`
for any number of directories. `GlobError` says why a text is no pattern.
-/

namespace SourceAtlas

/-- A part of a pattern. -/
inductive GlobToken where
  /-- One character that stands for itself. -/
  | literal (c : Char)
  /-- Any one byte. -/
  | any
  /-- Any number of bytes. -/
  | star
  /-- Any directories in front of what follows, or none. -/
  | leadingDirs
  /-- Everything below what precedes. -/
  | trailingDirs
  /-- A slash, or any directories between two slashes. -/
  | innerDirs
  /-- One byte inside, or outside, of ranges. -/
  | oneOf (negated : Bool) (ranges : List (Char × Char))
  /-- One of several patterns. -/
  | alternates (branches : List (List GlobToken))
deriving Inhabited

/-- A pattern, with the text that it was read from. -/
structure Glob where
  text : List Char
  tokens : List GlobToken
  /-- Whether wildcards stop at slashes. -/
  stopsAtSlash : Bool := false
deriving Inhabited

/-- Why a text is no pattern. -/
inductive GlobErrorKind where
  | unclosedClass
  | invalidRange (low high : Char)
  | unopenedAlternates
  | unclosedAlternates
  | danglingEscape
deriving Repr, DecidableEq, Inhabited

/-- A text that is no pattern. -/
structure GlobError where
  text : List Char
  kind : GlobErrorKind
deriving Repr, DecidableEq, Inhabited

/-- The reason in words. -/
def GlobErrorKind.message : GlobErrorKind → String
  | unclosedClass => "unclosed character class; missing ']'"
  | invalidRange low high =>
    "invalid range; '" ++ String.ofList [low] ++ "' > '" ++ String.ofList [high] ++ "'"
  | unopenedAlternates =>
    "unopened alternate group; missing '\x7b' (maybe escape '\x7d' with '[\x7d]'?)"
  | unclosedAlternates =>
    "unclosed alternate group; missing '\x7d' (maybe escape '\x7b' with '[\x7b]'?)"
  | danglingEscape => "dangling '\\'"

/-- The text and the reason in words. -/
def GlobError.message (error : GlobError) : String :=
  "error parsing glob '" ++ String.ofList error.text ++ "': " ++ error.kind.message

end SourceAtlas
