import SourceAtlas.Glob.Match
import SourceAtlas.Glob.Parse
import SourceAtlas.Text.Affix

/-!
# Ignore rules

A line of an ignore file is a rule: a pattern that leaves paths out or, after `!`, keeps them. The
last rule that matches a path decides.
-/

namespace SourceAtlas

open Text

/-- A line of an ignore file. -/
structure IgnoreRule where
  glob : Glob
  /-- Whether matching paths are kept. -/
  keeps : Bool := false
  /-- Whether only directories match. -/
  directoriesOnly : Bool := false
deriving Inhabited

/-- What the rules say about a path. -/
inductive Verdict where
  | ignored
  | kept
deriving Repr, DecidableEq, Inhabited

namespace IgnoreRule

/-- How the patterns of rules are read. -/
def options : GlobOptions := { stopsAtSlash := true, openClassIsText := true }

/-- A line without the blanks at its end, unless the last of them is escaped. -/
def trimLine (line : List Char) : List Char :=
  if ['\\', ' '].isSuffixOf line then line else trimEnd line

/-- A pattern without the slash that restricts it to directories, and whether it had one. An escape
in front of that slash goes with it. -/
def directoryMark (pattern : List Char) : List Char × Bool :=
  match stripSuffix? ['/'] pattern with
  | none => (pattern, false)
  | some rest => ((stripSuffix? ['\\'] rest).getD rest, true)

/-- The pattern for whole paths: one without a slash matches in every directory, and one that ends
in two stars does not match the directory itself. -/
def anchored (rooted : Bool) (pattern : List Char) : List Char :=
  let anywhere := !rooted && !pattern.contains '/' && pattern ≠ ['*', '*']
  let whole := if anywhere then "**/".toList ++ pattern else pattern
  if "/**".toList.isSuffixOf whole then whole ++ "/*".toList else whole

/-- Whether a line keeps paths, whether it starts at the root, and its pattern. An escaped first
mark is part of the pattern. -/
def marks (line : List Char) : Bool × Bool × List Char :=
  let afterSlash (keeps : Bool) : List Char → Bool × Bool × List Char
    | '/' :: rest => (keeps, true, rest)
    | rest => (keeps, false, rest)
  match line with
  | '\\' :: '!' :: rest => (false, false, '!' :: rest)
  | '\\' :: '#' :: rest => (false, false, '#' :: rest)
  | '!' :: rest => afterSlash true rest
  | rest => afterSlash false rest

/-- Reads a line. Comments, blank lines and lines without a valid pattern are no rules. -/
def parse? (line : List Char) : Option IgnoreRule :=
  let text := trimLine line
  if ['#'].isPrefixOf line || text.isEmpty then none
  else
    let (keeps, rooted, pattern) := marks text
    let (pattern, directoriesOnly) := directoryMark pattern
    match Glob.parse options (anchored rooted pattern) with
    | .ok glob => some { glob, keeps, directoriesOnly }
    | .error _ => none

/-- Whether a rule matches a path. -/
def applies (rule : IgnoreRule) (path : List Char) (isDirectory : Bool) : Bool :=
  (!rule.directoriesOnly || isDirectory) && rule.glob.matchesPath path

/-- What a rule says about the paths that it matches. -/
def verdict (rule : IgnoreRule) : Verdict := if rule.keeps then .kept else .ignored

/-- What the last matching rule says about a path, if one matches. -/
def verdict? (rules : List IgnoreRule) (path : List Char) (isDirectory : Bool) : Option Verdict :=
  (rules.reverse.find? fun rule => rule.applies path isDirectory).map verdict

end IgnoreRule

/-! ### Ignore files -/

namespace IgnoreFile

/-- The lines of a file's bytes; a line break ends a line, with a carriage return in front of it. -/
def byteLines : List UInt8 → List (List UInt8)
  | [] => []
  | 10 :: bs => [] :: byteLines bs
  | 13 :: 10 :: bs => [] :: byteLines bs
  | b :: bs =>
    match byteLines bs with
    | [] => [[b]]
    | line :: lines => (b :: line) :: lines

/-- The text of bytes, if they encode one. -/
def decode? (bytes : List UInt8) : Option (List Char) :=
  (String.fromUTF8? ⟨bytes.toArray⟩).map String.toList

/-- The texts of lines up to the first that encodes none. -/
def decodeLines : List (List UInt8) → List (List Char)
  | [] => []
  | line :: lines =>
    match decode? line with
    | some text => text :: decodeLines lines
    | none => []

/-- Texts without the byte order marks in front of the first. -/
def dropMarks : List (List Char) → List (List Char)
  | [] => []
  | line :: lines => line.dropWhile (· = '\ufeff') :: lines

/-- The rules of an ignore file. -/
def rules (bytes : List UInt8) : List IgnoreRule :=
  (dropMarks (decodeLines (byteLines bytes))).filterMap IgnoreRule.parse?

end IgnoreFile

end SourceAtlas
