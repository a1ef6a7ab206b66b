import SourceAtlas.Yaml.Folding

/-!
# From text to tokens

`scan?` divides a YAML text into tokens. Collections in block style are told by indentation, so the
scanner keeps the columns of the open blocks. A key in front of a colon is recognised only at the
colon; until then the scanner remembers where such a key may have started, and it puts the tokens
that open the entry there.
-/

namespace SourceAtlas.Yaml

open Text

/-- A place where a key on one line may have started. -/
structure KeyStart where
  /-- The number of tokens before the key. -/
  number : Nat
  position : Position
  /-- Whether nothing but a key can stand there. -/
  required : Bool
deriving Repr, DecidableEq, Inhabited

/-- A text that is being divided into tokens. -/
structure Scanner where
  rest : List Char
  position : Position := {}
  /-- The tokens so far, last first. -/
  tokens : List Token := []
  /-- Where a key may have started in the innermost collection. -/
  keyStart : Option KeyStart := none
  /-- The same for the collections around an open flow collection, innermost first. -/
  outerStarts : List (Option KeyStart) := []
  /-- Whether a key may start here. -/
  keyAllowed : Bool := true
  /-- The column of the innermost block, negative outside of all blocks. -/
  indent : Int := -1
  /-- The columns of the blocks around it, innermost first. -/
  indents : List Int := []
deriving Repr, Inhabited

namespace Scanner

/-- Whether a flow collection is open. -/
def inFlow (s : Scanner) : Bool := !s.outerStarts.isEmpty

/-- The current column. -/
def column (s : Scanner) : Int := s.position.column

/-- Moves on to a later part of the text. -/
def moveTo (s : Scanner) (rest : List Char) : Scanner :=
  { s with
    rest
    position := s.position.past (s.rest.take (s.rest.length - rest.length)) }

/-- Adds a token. -/
def emit (s : Scanner) (token : Token) : Scanner := { s with tokens := token :: s.tokens }

/-- Puts a token after the given number of tokens. -/
def insertAt (s : Scanner) (number : Nat) (token : Token) : Scanner :=
  let later := s.tokens.length - number
  { s with tokens := s.tokens.take later ++ token :: s.tokens.drop later }

/-! ### Keys -/

/-- Whether a key that started earlier can no longer reach its colon: it must end on its line and
within a thousand and twenty-four characters. -/
def isStale (s : Scanner) (start : KeyStart) : Bool :=
  start.position.line < s.position.line || start.position.index + 1024 < s.position.index

/-- A start that may still belong to a key. One that had to be a key and cannot be one is
refused. -/
def refresh? (s : Scanner) : Option KeyStart → Option (Option KeyStart)
  | none => some none
  | some start =>
    if !s.isStale start then some (some start) else if start.required then none else some none

/-- Forgets the starts that can no longer belong to a key. -/
def dropStale? (s : Scanner) : Option Scanner := do
  let keyStart ← s.refresh? s.keyStart
  let outerStarts ← s.outerStarts.mapM s.refresh?
  return { s with keyStart, outerStarts }

/-- Forgets the start of a key in the innermost collection. -/
def dropKey? (s : Scanner) : Option Scanner :=
  if s.keyStart.any KeyStart.required then none else some { s with keyStart := none }

/-- Remembers that a key may start here. In a block whose column this is, it has to. -/
def saveKey? (s : Scanner) : Option Scanner :=
  if s.keyAllowed then do
    let cleared ← s.dropKey?
    let required := !s.inFlow && s.indent = s.column
    return { cleared with keyStart := some ⟨s.tokens.length, s.position, required⟩ }
  else some s

/-! ### Blocks -/

/-- Opens a block at a column that lies further in, with its token after the given number of
tokens. -/
def openBlock (s : Scanner) (column : Int) (number : Nat) (token : Token) : Scanner :=
  if !s.inFlow && s.indent < column then
    { s.insertAt number token with indent := column, indents := s.indent :: s.indents }
  else s

/-- The blocks that stay open at a column, and how many are closed. -/
def closedBlocks (column indent : Int) : List Int → Nat × Int × List Int
  | [] => (0, indent, [])
  | outer :: others =>
    if column < indent then
      let (count, indent, indents) := closedBlocks column outer others
      (count + 1, indent, indents)
    else (0, indent, outer :: others)

/-- Closes the blocks that lie further in than a column. -/
def closeBlocks (s : Scanner) (column : Int) : Scanner :=
  if s.inFlow then s
  else
    let (count, indent, indents) := closedBlocks column s.indent s.indents
    { s with tokens := List.replicate count .blockEnd ++ s.tokens, indent, indents }

/-! ### Single tokens -/

/-- Reads a mark of one document. -/
def documentMark? (s : Scanner) (token : Token) : Option Scanner := do
  let s ← (s.closeBlocks (-1)).dropKey?
  return ({ s with keyAllowed := false }.moveTo (s.rest.drop 3)).emit token

/-- Opens a flow collection. -/
def flowStart? (s : Scanner) (token : Token) : Option Scanner := do
  let s ← s.saveKey?
  let opened :=
    { s with keyStart := none, outerStarts := s.keyStart :: s.outerStarts, keyAllowed := true }
  return (opened.moveTo (s.rest.drop 1)).emit token

/-- Closes a flow collection. -/
def flowEnd? (s : Scanner) (token : Token) : Option Scanner := do
  let s ← s.dropKey?
  let closed := match s.outerStarts with
    | start :: others => { s with keyStart := start, outerStarts := others, keyAllowed := false }
    | [] => { s with keyAllowed := false }
  return (closed.moveTo (s.rest.drop 1)).emit token

/-- Reads a comma in a flow collection. -/
def flowEntry? (s : Scanner) : Option Scanner := do
  let s ← s.dropKey?
  return ({ s with keyAllowed := true }.moveTo (s.rest.drop 1)).emit .flowEntry

/-- Reads a dash in front of an item. -/
def blockEntry? (s : Scanner) : Option Scanner := do
  if !s.inFlow && !s.keyAllowed then none
  else
    let s ← (s.openBlock s.column s.tokens.length .blockSequenceStart).dropKey?
    return ({ s with keyAllowed := true }.moveTo (s.rest.drop 1)).emit .blockEntry

/-- Reads a question mark in front of a key. -/
def key? (s : Scanner) : Option Scanner := do
  if !s.inFlow && !s.keyAllowed then none
  else
    let s ← (s.openBlock s.column s.tokens.length .blockMappingStart).dropKey?
    return ({ s with keyAllowed := !s.inFlow }.moveTo (s.rest.drop 1)).emit .key

/-- Reads a colon in front of a value: after a key on its line, or on its own. -/
def value? (s : Scanner) : Option Scanner :=
  match s.keyStart with
  | some start =>
    let keyed := (s.insertAt start.number .key).openBlock start.position.column start.number
      .blockMappingStart
    let keyed := { keyed with keyStart := none, keyAllowed := false }
    some ((keyed.moveTo (s.rest.drop 1)).emit .value)
  | none =>
    if !s.inFlow && !s.keyAllowed then none
    else
      let opened := s.openBlock s.column s.tokens.length .blockMappingStart
      let opened := { opened with keyAllowed := !s.inFlow }
      some ((opened.moveTo (s.rest.drop 1)).emit .value)

/-- Reads the name of an anchor or an alias. -/
def anchor? (s : Scanner) (token : List Char → Token) : Option Scanner := do
  let s ← s.saveKey?
  let name := (s.rest.drop 1).takeWhile isNameChar
  let rest := (s.rest.drop 1).dropWhile isNameChar
  if name.isEmpty || !(blankNext rest || rest.head?.any ("?:,]\x7d%@`".toList.contains ·)) then none
  else return ({ s with keyAllowed := false }.moveTo rest).emit (token name)

/-- Reads a scalar that may be a key. -/
def scalar? (s : Scanner) (style : ScalarStyle) (read : Option (List Char × List Char)) :
    Option Scanner := do
  let s ← s.saveKey?
  let (text, rest) ← read
  return ({ s with keyAllowed := false }.moveTo rest).emit (.scalar style text)

/-- Reads a plain scalar. After a line break at its end a key may start. -/
def plain? (s : Scanner) : Option Scanner := do
  let s ← s.saveKey?
  let found ← plainScalar? s.inFlow (s.indent + 1) s.rest
  return ({ s with keyAllowed := found.broken }.moveTo found.rest).emit (.scalar .plain found.text)

/-- Reads a block scalar. -/
def block? (s : Scanner) (style : ScalarStyle) : Option Scanner := do
  let s ← s.dropKey?
  let (text, rest) ← blockScalar? (style = .folded) s.indent (s.rest.drop 1)
  return ({ s with keyAllowed := true }.moveTo rest).emit (.scalar style text)

/-! ### Tags -/

/-- The byte that two hexadecimal digits stand for. -/
def byte? (a b : Char) : Option UInt8 := (numeral? 16 0 [a, b]).map Nat.toUInt8

/-- The number of bytes of a character that starts with a byte. -/
def width? (b : UInt8) : Option Nat :=
  if b < 0x80 then some 1
  else if b &&& 0xe0 = 0xc0 then some 2
  else if b &&& 0xf0 = 0xe0 then some 3
  else if b &&& 0xf8 = 0xf0 then some 4
  else none

/-- Further bytes of a character, each written by its digits after a percent sign. -/
def trailingBytes? : Nat → List Char → Option (List UInt8 × List Char)
  | 0, cs => some ([], cs)
  | n + 1, '%' :: a :: b :: cs => do
    let byte ← byte? a b
    if byte &&& 0xc0 = 0x80 then
      let (bytes, rest) ← trailingBytes? n cs
      return (byte :: bytes, rest)
    else none
  | _ + 1, _ => none

/-- The characters of a tag besides letters and digits. -/
def isTagChar (verbatim : Bool) (c : Char) : Bool :=
  isNameChar c || ";/?:@&=+$.!~*'()".toList.contains c || (verbatim && ",[]".toList.contains c)

/-- The characters of a tag; a percent sign stands before the digits of a byte. -/
def tagChars? (verbatim : Bool) : Nat → List Char → Option (List Char × List Char)
  | 0, _ => none
  | bound + 1, cs =>
    match cs with
    | '%' :: a :: b :: after => do
      let byte ← byte? a b
      let (bytes, rest) ← trailingBytes? ((← width? byte) - 1) after
      let decoded :=
        ((String.fromUTF8? ⟨(byte :: bytes).toArray⟩).map String.toList).getD ['\ufffd']
      let (others, rest) ← tagChars? verbatim bound rest
      return (decoded ++ others, rest)
    | '%' :: _ => none
    | c :: after =>
      if isTagChar verbatim c then do
        let (others, rest) ← tagChars? verbatim bound after
        return (c :: others, rest)
      else some ([], cs)
    | [] => some ([], [])

/-- The handle at the start of a tag, which opens with an exclamation mark. -/
def tagHandle? : List Char → Option (List Char × List Char)
  | '!' :: cs =>
    let name := cs.takeWhile isNameChar
    match cs.dropWhile isNameChar with
    | '!' :: rest => some ('!' :: name ++ ['!'], rest)
    | rest => some ('!' :: name, rest)
  | _ => none

/-- A tag: verbatim between angle brackets, after a handle, or on its own. -/
def tagParts? (cs : List Char) : Option (List Char × List Char × List Char) :=
  match cs with
  | '!' :: '<' :: after => do
    let (suffix, rest) ← tagChars? true (after.length + 1) after
    match suffix, rest with
    | _ :: _, '>' :: rest => return ([], suffix, rest)
    | _, _ => none
  | _ => do
    let (handle, rest) ← tagHandle? cs
    let (suffix, rest) ← tagChars? false (rest.length + 1) rest
    if handle.length > 1 && handle.getLast? = some '!' then
      if suffix.isEmpty then none else return (handle, suffix, rest)
    else
      match handle.drop 1 ++ suffix with
      | [] => return ([], ['!'], rest)
      | suffix => return (['!'], suffix, rest)

/-- Reads a tag. -/
def tag? (s : Scanner) : Option Scanner := do
  let s ← s.saveKey?
  let (handle, suffix, rest) ← tagParts? s.rest
  if blankNext rest || (s.inFlow && rest.head? = some ',') then
    return ({ s with keyAllowed := false }.moveTo rest).emit (.tag handle suffix)
  else none

/-! ### Directives -/

/-- A number of at most nine digits. -/
def versionNumber? (cs : List Char) : Option (Nat × List Char) :=
  let digits := cs.takeWhile Char.isDigit
  if digits.isEmpty || 9 < digits.length then none
  else (numeral? 10 0 digits).map fun n => (n, cs.dropWhile Char.isDigit)

/-- The value of a directive. -/
def directiveValue? (name cs : List Char) : Option (Token × List Char) :=
  if name = "YAML".toList then do
    let (major, rest) ← versionNumber? (cs.dropWhile isGap)
    match rest with
    | '.' :: rest =>
      let (minor, rest) ← versionNumber? rest
      return (.versionDirective major minor, rest)
    | _ => none
  else if name = "TAG".toList then do
    let (handle, rest) ← tagHandle? (cs.dropWhile isGap)
    if !(handle = ['!'] || handle.getLast? = some '!') || !rest.head?.any isGap then none
    else
      let rest := rest.dropWhile isGap
      let (lead, rest) ← tagChars? true (rest.length + 1) rest
      if lead.isEmpty || !blankNext rest then none else return (.tagDirective handle lead, rest)
  else none

/-- Reads a directive with the rest of its line. -/
def directive? (s : Scanner) : Option Scanner := do
  let s ← (s.closeBlocks (-1)).dropKey?
  let name := (s.rest.drop 1).takeWhile isNameChar
  let rest := (s.rest.drop 1).dropWhile isNameChar
  if name.isEmpty || !blankNext rest then none
  else
    let (token, rest) ← directiveValue? name rest
    let rest ← endOfLine? rest
    return ({ s with keyAllowed := false }.moveTo rest).emit token

/-! ### The next token -/

/-- Moves past blanks, comments and line breaks. A tab may stand only where no key may start, and
in a block a key may start on a new line. -/
def skipBlanks (s : Scanner) : Nat → Scanner
  | 0 => s
  | bound + 1 =>
    let marked := s.position.column = 0 && s.rest.head? = some '\ufeff'
    let cs := if marked then s.rest.drop 1 else s.rest
    let tabs := s.inFlow || !s.keyAllowed
    let cs := cs.dropWhile fun c => c == ' ' || (tabs && c == '\t')
    let cs := if cs.head? = some '#' then cs.dropWhile (!isBreak ·) else cs
    match lineBreak? cs with
    | some (_, rest) =>
      skipBlanks { s.moveTo rest with keyAllowed := s.keyAllowed || !s.inFlow } bound
    | none => s.moveTo cs

/-- Whether a plain scalar may start here. -/
def startsPlain (inFlow : Bool) : List Char → Bool
  | [] => false
  | c :: rest =>
    !(isBlank c || "-?:,[]\x7b\x7d#&*!|>'\"%@`".toList.contains c) ||
      (c == '-' && !rest.head?.any isGap) ||
      (!inFlow && (c == '?' || c == ':') && !blankNext rest)

/-- Reads the token at the current place. -/
def token? (s : Scanner) : Option Scanner :=
  match s.rest with
  | [] => none
  | c :: rest =>
    let lineStart := s.position.column = 0
    if lineStart && c == '%' then s.directive?
    else if lineStart && c == '-' && atDocumentMark s.rest then s.documentMark? .documentStart
    else if lineStart && c == '.' && atDocumentMark s.rest then s.documentMark? .documentEnd
    else if c == '[' then s.flowStart? .flowSequenceStart
    else if c == '{' then s.flowStart? .flowMappingStart
    else if c == ']' then s.flowEnd? .flowSequenceEnd
    else if c == '}' then s.flowEnd? .flowMappingEnd
    else if c == ',' then s.flowEntry?
    else if c == '-' && blankNext rest then s.blockEntry?
    else if c == '?' && (s.inFlow || blankNext rest) then s.key?
    else if c == ':' && (s.inFlow || blankNext rest) then s.value?
    else if c == '*' then s.anchor? .reference
    else if c == '&' then s.anchor? .anchor
    else if c == '!' then s.tag?
    else if c == '|' && !s.inFlow then s.block? .literal
    else if c == '>' && !s.inFlow then s.block? .folded
    else if c == '\'' then s.scalar? .singleQuoted (quotedScalar? c rest)
    else if c == '"' then s.scalar? .doubleQuoted (quotedScalar? c rest)
    else if startsPlain s.inFlow s.rest then s.plain?
    else none

/-- Closes everything at the end of the text. -/
def finish? (s : Scanner) : Option (List Token) := do
  let s ← (s.closeBlocks (-1)).dropKey?
  return s.tokens.reverse

/-- Reads all tokens, at most as many as the bound says. -/
def run? : Nat → Scanner → Option (List Token)
  | 0, _ => none
  | bound + 1, s => do
    let s ← (s.skipBlanks (s.rest.length + 1)).dropStale?
    let s := s.closeBlocks s.column
    if s.rest.isEmpty then s.finish? else run? bound (← s.token?)

end Scanner

/-- The tokens of a text. -/
def scan? (cs : List Char) : Option (List Token) :=
  if cs.all isReadable then Scanner.run? (cs.length + 1) { rest := cs } else none

end SourceAtlas.Yaml
