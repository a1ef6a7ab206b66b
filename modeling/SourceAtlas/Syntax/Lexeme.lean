import SourceAtlas.Text.Affix

/-!
# Lexemes of the source languages

White space, comments, words, string and number literals, regular expressions and bracketed groups.
Every reader takes the remaining text and gives what it read together with the text after it.
-/

namespace SourceAtlas.Syntax

open Text

/-- White space between lexemes. -/
def isSpace (c : Char) : Bool :=
  let n := c.toNat
  (0x09 ≤ n && n ≤ 0x0d) || n == 0x20 || n == 0xa0 || n == 0x1680 ||
    (0x2000 ≤ n && n ≤ 0x200b) || n == 0x2028 || n == 0x2029 || n == 0x202f || n == 0x205f ||
    n == 0x2060 || n == 0x3000 || n == 0xfeff

/-- The ASCII characters that never stand in a word. -/
def delimiters : List Char := ":;\x60\"'@#.,|^&<=>+-*/\\%?!~()[]\x7b\x7d".toList

/-- The characters of words: identifiers and keywords. -/
def isWordChar (c : Char) : Bool :=
  0x20 ≤ c.toNat && !isSpace c && !delimiters.contains c

/-- The characters that end a line. -/
def isLineEnd (c : Char) : Bool :=
  c == '\n' || c == '\r' || c.toNat == 0x2028 || c.toNat == 0x2029

/-! ### Comments and white space -/

/-- A comment: what follows the slashes of a line comment, or what follows the opening of a block
comment, with its closing. -/
inductive SourceComment where
  | line (body : List Char)
  | block (body : List Char)
deriving Repr, DecidableEq, Inhabited

/-- A comment with its delimiters. -/
def SourceComment.text : SourceComment → List Char
  | line body => '/' :: '/' :: body
  | block body => '/' :: '*' :: body

/-- The text of a block comment after its opening, up to its closing, and the text after it. -/
def blockComment? : List Char → Option (List Char × List Char)
  | [] => none
  | '*' :: '/' :: rest => some (['*', '/'], rest)
  | c :: rest => (blockComment? rest).map fun (text, after) => (c :: text, after)

/-- A comment at the front, and the text after it. -/
def comment? : List Char → Option (SourceComment × List Char)
  | '/' :: '/' :: rest =>
    some (.line (rest.takeWhile (!isLineEnd ·)), rest.dropWhile (!isLineEnd ·))
  | '/' :: '*' :: rest =>
    (blockComment? rest).map fun (body, after) => (.block body, after)
  | _ => none

theorem length_dropWhile_le (p : Char → Bool) (cs : List Char) :
    (cs.dropWhile p).length ≤ cs.length :=
  (List.dropWhile_suffix p).length_le

theorem length_of_blockComment? {cs text rest : List Char}
    (h : blockComment? cs = some (text, rest)) : rest.length < cs.length := by
  fun_induction blockComment? cs generalizing text with
  | case1 => simp at h
  | case2 cs =>
    simp only [Option.some.injEq, Prod.mk.injEq] at h
    rw [← h.2]
    simp only [List.length_cons]
    omega
  | case3 c cs _ ih =>
    obtain ⟨⟨t, r⟩, hr, he⟩ := Option.map_eq_some_iff.1 h
    simp only [Prod.mk.injEq] at he
    have := ih (he.2 ▸ hr)
    simp only [List.length_cons]
    omega

theorem length_of_comment? {cs rest : List Char} {comment : SourceComment}
    (h : comment? cs = some (comment, rest)) : rest.length < cs.length := by
  unfold comment? at h
  split at h
  · simp only [Option.some.injEq, Prod.mk.injEq] at h
    rename_i cs
    have := length_dropWhile_le (!isLineEnd ·) cs
    rw [← h.2]
    simp only [List.length_cons]
    omega
  · obtain ⟨⟨t, r⟩, hr, he⟩ := Option.map_eq_some_iff.1 h
    simp only [Prod.mk.injEq] at he
    have := length_of_blockComment? (he.2 ▸ hr)
    simp only [List.length_cons]
    omega
  · simp at h

/-- The text after the white space and the comments at the front. -/
def skipTrivia (cs : List Char) : List Char :=
  match _h : comment? (cs.dropWhile isSpace) with
  | some (_, rest) => skipTrivia rest
  | none => cs.dropWhile isSpace
termination_by cs.length
decreasing_by
  have := length_of_comment? _h
  have := length_dropWhile_le isSpace cs
  omega

/-- An old-style markup comment at the front, which runs to the end of its line. -/
def markupComment? (cs : List Char) : Option (List Char) :=
  if "<!--".toList.isPrefixOf cs || "-->".toList.isPrefixOf cs then
    some (cs.dropWhile fun c => !(c == '\n' || c.toNat == 0x2028 || c.toNat == 0x2029))
  else none

/-! ### Words -/

/-- The characters of a word at the front; the flag says that a braced escape is open. -/
def wordFrom : Bool → List Char → List Char × List Char
  | _, [] => ([], [])
  | true, c :: rest =>
    let (word, after) := wordFrom (c ≠ '}') rest
    (c :: word, after)
  | false, '\\' :: 'u' :: '{' :: rest =>
    let (word, after) := wordFrom true rest
    ('\\' :: 'u' :: '{' :: word, after)
  | false, c :: rest =>
    if isWordChar c || c == '\\' then
      let (word, after) := wordFrom false rest
      (c :: word, after)
    else ([], c :: rest)

/-- The word at the front, which is empty if no word starts there, and the text after it. -/
def word (cs : List Char) : List Char × List Char :=
  match cs with
  | c :: _ => if c.isDigit then ([], cs) else wordFrom false cs
  | [] => ([], [])

/-- Whether the front holds a given keyword. -/
def hasWord (keyword : String) (cs : List Char) : Bool := (word cs).1 = keyword.toList

/-- Words that never are an operand. -/
def reservedWords : List (List Char) :=
  ["in", "instanceof", "if", "for", "while", "do", "switch", "case", "default", "return", "throw",
    "break", "continue", "var", "const", "else", "try", "catch", "finally", "with", "debugger",
    "enum", "extends"].map String.toList

/-! ### Literals -/

/-- The text after a string literal, given its quote and the text after the opening quote. -/
def stringEnd (quote : Char) : List Char → Option (List Char)
  | [] => none
  | '\\' :: '\r' :: '\n' :: rest => stringEnd quote rest
  | '\\' :: _ :: rest => stringEnd quote rest
  | c :: rest =>
    if c = quote then some rest
    else if c = '\n' ∨ c = '\r' then none
    else stringEnd quote rest

/-- The text after a string literal at the front. -/
def stringLiteral? : List Char → Option (List Char)
  | '"' :: rest => stringEnd '"' rest
  | '\'' :: rest => stringEnd '\'' rest
  | _ => none

/-- The digits, letters and underscores of a number. -/
def isNumeral (c : Char) : Bool := c.isAlphanum || c == '_'

/-- The text after the exponent of a number, if it has one. -/
def afterExponent : List Char → List Char
  | 'e' :: sign :: rest =>
    if sign = '+' ∨ sign = '-' then rest.dropWhile isNumeral else (sign :: rest).dropWhile isNumeral
  | 'E' :: sign :: rest =>
    if sign = '+' ∨ sign = '-' then rest.dropWhile isNumeral else (sign :: rest).dropWhile isNumeral
  | 'n' :: rest => rest
  | rest => rest

/-- A decimal digit or a digit separator. -/
def isDecimal (c : Char) : Bool := c.isDigit || c == '_'

/-- The text after a number literal at the front. -/
def numberLiteral? : List Char → Option (List Char)
  | '0' :: c :: rest =>
    if "xXoObB".toList.contains c then some (rest.dropWhile isNumeral)
    else match (c :: rest).dropWhile isDecimal with
      | '.' :: fraction => some (afterExponent (fraction.dropWhile isDecimal))
      | after => some (afterExponent after)
  | '.' :: c :: rest =>
    if c.isDigit then some (afterExponent (rest.dropWhile isDecimal)) else none
  | c :: rest =>
    if c.isDigit then
      match rest.dropWhile isDecimal with
      | '.' :: fraction => some (afterExponent (fraction.dropWhile isDecimal))
      | after => some (afterExponent after)
    else none
  | [] => none

/-- The text after the pattern of a regular expression; the flag says that a class is open. -/
def patternEnd : Bool → List Char → Option (List Char)
  | _, [] => none
  | inClass, '\\' :: c :: rest => if isLineEnd c then none else patternEnd inClass rest
  | inClass, c :: rest =>
    if isLineEnd c then none
    else if c = '[' then patternEnd true rest
    else if c = ']' then patternEnd false rest
    else if c = '/' ∧ !inClass then some rest
    else patternEnd inClass rest

/-- The text after a regular expression at the front. -/
def regexLiteral? : List Char → Option (List Char)
  | '/' :: rest => (patternEnd false rest).map fun after => (word after).2
  | _ => none

/-- Where a stretch of a template literal ends: at the closing quote or at a substitution. -/
inductive TemplateStop where
  | closed
  | substitution
deriving Repr, DecidableEq

/-- Reads a template literal up to its closing quote or the next substitution. -/
def templateStretch : List Char → Option (TemplateStop × List Char)
  | [] => none
  | '\\' :: _ :: rest => templateStretch rest
  | '$' :: '{' :: rest => some (.substitution, rest)
  | c :: rest => if c.toNat = 0x60 then some (.closed, rest) else templateStretch rest

/-! ### Bracketed groups -/

/-- What a character inside a bracketed group belongs to. -/
inductive GroupMode where
  | code
  | lineComment
  | blockComment
  | quoted (quote : Char)
  | template
deriving Repr, DecidableEq

/-- The bracket that closes an opening bracket. -/
def closer? : Char → Option Char
  | '(' => some ')'
  | '[' => some ']'
  | '{' => some '}'
  | _ => none

/-- The text after the bracket that closes the last of the open groups. The stack holds the
brackets, and the quotes of template literals, that are still to be closed. -/
def groupEnd : List Char → GroupMode → List Char → Option (List Char)
  | _, _, [] => none
  | stack, .lineComment, c :: rest =>
    groupEnd stack (if isLineEnd c then .code else .lineComment) rest
  | stack, .blockComment, '*' :: '/' :: rest => groupEnd stack .code rest
  | stack, .blockComment, _ :: rest => groupEnd stack .blockComment rest
  | stack, .quoted quote, '\\' :: _ :: rest => groupEnd stack (.quoted quote) rest
  | stack, .quoted quote, c :: rest =>
    groupEnd stack (if c = quote then .code else .quoted quote) rest
  | stack, .template, '\\' :: _ :: rest => groupEnd stack .template rest
  | stack, .template, '$' :: '{' :: rest => groupEnd ('}' :: stack) .code rest
  | stack, .template, c :: rest =>
    if c.toNat = 0x60 then groupEnd stack.tail .code rest else groupEnd stack .template rest
  | stack, .code, '/' :: '/' :: rest => groupEnd stack .lineComment rest
  | stack, .code, '/' :: '*' :: rest => groupEnd stack .blockComment rest
  | stack, .code, c :: rest =>
    if c = '"' ∨ c = '\'' then groupEnd stack (.quoted c) rest
    else if c.toNat = 0x60 then groupEnd (c :: stack) .template rest
    else match closer? c with
      | some close => groupEnd (close :: stack) .code rest
      | none =>
        if stack.head? = some c then
          match stack.tail with
          | [] => some rest
          | outer :: more =>
            groupEnd (outer :: more) (if outer.toNat = 0x60 then .template else .code) rest
        else if c = ')' ∨ c = ']' ∨ c = '}' then none
        else groupEnd stack .code rest

/-- The text after a bracketed group at the front. -/
def group? : List Char → Option (List Char)
  | c :: rest => (closer? c).bind fun close => groupEnd [close] .code rest
  | [] => none

end SourceAtlas.Syntax
