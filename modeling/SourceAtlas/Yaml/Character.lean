/-!
# Characters of the document format

The classes of characters that the reader and the writer of YAML tell apart.
-/

namespace SourceAtlas.Yaml

/-- The characters that break lines. -/
def isBreak (c : Char) : Bool :=
  c == '\n' || c == '\r' || c == '\u0085' || c == '\u2028' || c == '\u2029'

/-- A space or a tab. -/
def isGap (c : Char) : Bool := c == ' ' || c == '\t'

/-- A space, a tab or a line break. -/
def isBlank (c : Char) : Bool := isGap c || isBreak c

/-- Whether a text ends here or goes on with a blank. -/
def blankNext : List Char → Bool
  | [] => true
  | c :: _ => isBlank c

/-- The characters of the names of anchors, directives and tag handles. -/
def isNameChar (c : Char) : Bool := c.isAlphanum || c == '_' || c == '-'

/-- The characters that a text may hold. -/
def isReadable (c : Char) : Bool :=
  let n := c.toNat
  n == 0x09 || n == 0x0a || n == 0x0d || (0x20 ≤ n && n ≤ 0x7e) || n == 0x85 ||
    (0xa0 ≤ n && n ≤ 0xd7ff) || (0xe000 ≤ n && n ≤ 0xfffd) || 0x10000 ≤ n

/-- The characters that are written as they are. -/
def isPrintable (c : Char) : Bool :=
  let n := c.toNat
  n == 0x0a || (0x20 ≤ n && n ≤ 0x7e) || (0xa0 ≤ n && n ≤ 0xd7ff) ||
    (0xe000 ≤ n && n ≤ 0xfffd && n ≠ 0xfeff) || 0x10000 ≤ n

/-- The line break at the start of a text as it is read, and the text after it. -/
def lineBreak? : List Char → Option (List Char × List Char)
  | '\r' :: '\n' :: rest => some (['\n'], rest)
  | c :: rest =>
    if c == '\n' || c == '\r' || c == '\u0085' then some (['\n'], rest)
    else if isBreak c then some ([c], rest)
    else none
  | [] => none

end SourceAtlas.Yaml
