import SourceAtlas.Text.Blank

/-!
# Affixes, lines and bytes

Prefixes and suffixes that are removed from a text as often as they occur, the division of a text
into lines, and the bytes that a text is written with.
-/

namespace SourceAtlas.Text

/-- Removes a prefix as often as the text starts with it. -/
def dropPrefixes (pre cs : List Char) : List Char :=
  if _h : pre ≠ [] ∧ pre <+: cs then dropPrefixes pre (cs.drop pre.length) else cs
termination_by cs.length
decreasing_by
  have hpos := List.length_pos_iff.2 _h.1
  have hle := _h.2.length_le
  rw [List.length_drop]
  omega

/-- Removes a suffix as often as the text ends with it. -/
def dropSuffixes (suf cs : List Char) : List Char :=
  (dropPrefixes suf.reverse cs.reverse).reverse

/-- The text before a suffix, if it has that suffix. -/
abbrev stripSuffix? (suf cs : List Char) : Option (List Char) := suf.isSuffixOf? cs

/-- Whether a text holds another one as a contiguous part. -/
def containsInfix (part : List Char) : List Char → Bool
  | [] => part.isEmpty
  | c :: cs => part.isPrefixOf (c :: cs) || containsInfix part cs

/-- The lines of a text. -/
def lines (cs : List Char) : List (List Char) := cs.splitOn '\n'

/-- Lines joined by line breaks. -/
def unlines (parts : List (List Char)) : List Char := ['\n'].intercalate parts

/-- The bytes of a text. -/
def bytes (cs : List Char) : List UInt8 := cs.flatMap String.utf8EncodeChar

end SourceAtlas.Text
