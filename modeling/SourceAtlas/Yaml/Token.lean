import SourceAtlas.Yaml.Character
import SourceAtlas.Yaml.Writer

/-!
# Tokens

The tokens that a YAML text is made of, and places in a text.
-/

namespace SourceAtlas.Yaml

/-- A token. The starts and ends of block collections stand for changes of the indentation. -/
inductive Token where
  | versionDirective (major minor : Nat)
  | tagDirective (handle : List Char) (lead : List Char)
  | documentStart
  | documentEnd
  | blockSequenceStart
  | blockMappingStart
  | blockEnd
  | flowSequenceStart
  | flowSequenceEnd
  | flowMappingStart
  | flowMappingEnd
  | blockEntry
  | flowEntry
  | key
  | value
  | reference (name : List Char)
  | anchor (name : List Char)
  | tag (handle : List Char) (suffix : List Char)
  | scalar (style : ScalarStyle) (text : List Char)
deriving Repr, DecidableEq, Inhabited

/-- A place in a text. -/
structure Position where
  line : Nat := 0
  column : Nat := 0
  /-- The number of characters before the place. -/
  index : Nat := 0
deriving Repr, DecidableEq, Inhabited

/-- The place after some characters. -/
def Position.past : Position → List Char → Position
  | p, [] => p
  | p, '\r' :: '\n' :: cs => past ⟨p.line + 1, 0, p.index + 2⟩ cs
  | p, c :: cs =>
    past (if isBreak c then ⟨p.line + 1, 0, p.index + 1⟩
      else ⟨p.line, p.column + 1, p.index + 1⟩) cs

/-- Whether a text starts with one of the two marks of documents. -/
def atDocumentMark : List Char → Bool
  | '-' :: '-' :: '-' :: rest => blankNext rest
  | '.' :: '.' :: '.' :: rest => blankNext rest
  | _ => false

end SourceAtlas.Yaml
