import SourceAtlas.Yaml.Token

/-!
# Scalars in a text

Readers for the scalars of YAML. A reader takes the text after the scalar's first mark, and gives
the scalar's value with the text after the scalar. In plain and quoted scalars a single line break
is read as a space, and further ones stand for themselves.
-/

namespace SourceAtlas.Yaml

/-! ### Blanks between the words of a scalar -/

/-- Blanks that have been read between the words of a scalar. -/
structure Gap where
  /-- The spaces and tabs before the first line break. -/
  spaces : List Char := []
  /-- The first line break. -/
  firstBreak : List Char := []
  /-- The line breaks after the first. -/
  otherBreaks : List Char := []
  /-- Whether a line break has been passed. -/
  broken : Bool := false
  /-- The column that has been reached, once a line break has been passed. -/
  column : Nat := 0
deriving Repr, DecidableEq, Inhabited

namespace Gap

/-- Adds a line break. -/
def addBreak (gap : Gap) (text : List Char) : Gap :=
  if gap.broken then { gap with otherBreaks := gap.otherBreaks ++ text, column := 0 }
  else { gap with spaces := [], firstBreak := text, broken := true, column := 0 }

/-- Adds a space or a tab, which matters only before the first line break. -/
def addBlank (gap : Gap) (c : Char) : Gap :=
  if gap.broken then { gap with column := gap.column + 1 }
  else { gap with spaces := gap.spaces ++ [c] }

/-- What a gap stands for. -/
def fold (gap : Gap) : List Char :=
  if !gap.broken then gap.spaces
  else if gap.firstBreak ≠ ['\n'] then gap.firstBreak ++ gap.otherBreaks
  else if gap.otherBreaks.isEmpty then [' ']
  else gap.otherBreaks

/-- Whether a place directly after a gap is the start of a line. -/
def atLineStart (gap : Gap) : Bool := gap.broken && gap.column == 0

/-- Reads blanks. A tab must not stand in the margin that the indentation asks for. -/
def read? (indent : Int) : Gap → List Char → Option (Gap × List Char)
  | gap, [] => some (gap, [])
  | gap, '\r' :: '\n' :: cs => read? indent (gap.addBreak ['\n']) cs
  | gap, c :: cs =>
    if isGap c then
      if gap.broken && (gap.column : Int) < indent && c == '\t' then none
      else read? indent (gap.addBlank c) cs
    else if isBreak c then
      read? indent (gap.addBreak (if c == '\u2028' || c == '\u2029' then [c] else ['\n'])) cs
    else some (gap, c :: cs)

end Gap

/-! ### Plain scalars -/

/-- The characters of a plain scalar up to a blank or a mark that ends it. In a flow collection a
colon directly before another mark is refused. -/
def plainWord? (inFlow : Bool) : List Char → Option (List Char × List Char)
  | [] => some ([], [])
  | c :: cs =>
    if isBlank c then some ([], c :: cs)
    else if inFlow && c == ':' && cs.head?.any ((",?[]\x7b\x7d".toList).contains ·) then none
    else if (c == ':' && blankNext cs) || (inFlow && (",[]\x7b\x7d".toList).contains c) then
      some ([], c :: cs)
    else (plainWord? inFlow cs).map fun (word, rest) => (c :: word, rest)

/-- A plain scalar, what is left after it, and whether a line break has been passed at its end. -/
structure PlainScalar where
  text : List Char
  rest : List Char
  broken : Bool
deriving Repr, DecidableEq, Inhabited

/-- Reads a plain scalar word by word, given the words before and the gap after them. -/
def plainWords? (inFlow : Bool) (indent : Int) :
    Nat → List Char → Gap → List Char → Option PlainScalar
  | 0, _, _, _ => none
  | bound + 1, text, gap, cs =>
    if (gap.atLineStart && atDocumentMark cs) || cs.head? = some '#' then
      some ⟨text, cs, gap.broken⟩
    else match plainWord? inFlow cs with
      | none => none
      | some ([], rest) => some ⟨text, rest, gap.broken⟩
      | some (word, rest) =>
        let text := text ++ gap.fold ++ word
        if rest.isEmpty || !blankNext rest then some ⟨text, rest, false⟩
        else match Gap.read? indent {} rest with
          | none => none
          | some (gap, rest) =>
            if !inFlow && gap.broken && (gap.column : Int) < indent then some ⟨text, rest, true⟩
            else plainWords? inFlow indent bound text gap rest

/-- Reads a plain scalar that must be indented at least as far as given. -/
def plainScalar? (inFlow : Bool) (indent : Int) (cs : List Char) : Option PlainScalar :=
  plainWords? inFlow indent (cs.length + 1) [] {} cs

/-! ### Quoted scalars -/

/-- The characters between single quotes up to a blank or the closing quote. -/
def singleWord : List Char → List Char × List Char
  | [] => ([], [])
  | '\'' :: '\'' :: cs => let (word, rest) := singleWord cs; ('\'' :: word, rest)
  | c :: cs =>
    if c == '\'' || isBlank c then ([], c :: cs)
    else let (word, rest) := singleWord cs; (c :: word, rest)

/-- The character that an escape of one letter stands for. -/
def escaped? : Char → Option Char
  | '0' => some '\x00'
  | 'a' => some '\x07'
  | 'b' => some '\x08'
  | 't' => some '\t'
  | '\t' => some '\t'
  | 'n' => some '\n'
  | 'v' => some '\x0b'
  | 'f' => some '\x0c'
  | 'r' => some '\r'
  | 'e' => some '\x1b'
  | ' ' => some ' '
  | '"' => some '"'
  | '/' => some '/'
  | '\\' => some '\\'
  | 'N' => some '\u0085'
  | '_' => some '\u00a0'
  | 'L' => some '\u2028'
  | 'P' => some '\u2029'
  | _ => none

/-- The character with a code point given by hexadecimal digits. -/
def codeChar? (digits : List Char) : Option Char :=
  (numeral? 16 0 digits).bind fun n => if n.isValidChar then some (Char.ofNat n) else none

/-- The characters between double quotes up to a blank or the closing quote, and whether an escaped
line break ended them. -/
def doubleWord? : List Char → Option (List Char × Bool × List Char)
  | [] => some ([], false, [])
  | '\\' :: '\r' :: '\n' :: cs => some ([], true, cs)
  | '\\' :: 'x' :: a :: b :: cs => do
    let c ← codeChar? [a, b]
    let (word, broken, rest) ← doubleWord? cs
    return (c :: word, broken, rest)
  | '\\' :: 'u' :: a :: b :: c :: d :: cs => do
    let c ← codeChar? [a, b, c, d]
    let (word, broken, rest) ← doubleWord? cs
    return (c :: word, broken, rest)
  | '\\' :: 'U' :: a :: b :: c :: d :: e :: f :: g :: h :: cs => do
    let c ← codeChar? [a, b, c, d, e, f, g, h]
    let (word, broken, rest) ← doubleWord? cs
    return (c :: word, broken, rest)
  | '\\' :: letter :: cs =>
    if isBreak letter then some ([], true, cs)
    else do
      let c ← escaped? letter
      let (word, broken, rest) ← doubleWord? cs
      return (c :: word, broken, rest)
  | ['\\'] => none
  | c :: cs =>
    if c == '"' || isBlank c then some ([], false, c :: cs)
    else do
      let (word, broken, rest) ← doubleWord? cs
      return (c :: word, broken, rest)

/-- The characters of a quoted scalar up to a blank or its closing quote. -/
def quotedWord? (quote : Char) (cs : List Char) : Option (List Char × Bool × List Char) :=
  if quote == '"' then doubleWord? cs
  else let (word, rest) := singleWord cs; some (word, false, rest)

/-- Reads a quoted scalar word by word, given the text before and whether a line starts here. -/
def quotedWords? (quote : Char) :
    Nat → List Char → Bool → List Char → Option (List Char × List Char)
  | 0, _, _, _ => none
  | bound + 1, text, lineStart, cs =>
    if (lineStart && atDocumentMark cs) || cs.isEmpty then none
    else match quotedWord? quote cs with
      | none => none
      | some (word, broken, rest) =>
        if !broken && rest.head? = some quote then some (text ++ word, rest.drop 1)
        else match Gap.read? 0 { broken } rest with
          | none => none
          | some (gap, rest) =>
            quotedWords? quote bound (text ++ word ++ gap.fold) gap.atLineStart rest

/-- Reads a quoted scalar after its opening quote. -/
def quotedScalar? (quote : Char) (cs : List Char) : Option (List Char × List Char) :=
  quotedWords? quote (cs.length + 1) [] false cs

/-! ### Block scalars -/

/-- What becomes of the line breaks at the end of a block scalar. -/
inductive Chomping where
  | strip
  | clip
  | keep
deriving Repr, DecidableEq, Inhabited

/-- The chomping that a mark stands for. -/
def Chomping.ofMark? : Char → Option Chomping
  | '-' => some .strip
  | '+' => some .keep
  | _ => none

/-- The marks of a block scalar: what becomes of the line breaks at its end and, if it is given, the
further indentation of its lines. -/
def blockMarks? (cs : List Char) : Option (Chomping × Nat × List Char) :=
  let digit (cs : List Char) : Option (Nat × List Char) := match cs with
    | c :: rest =>
      if c == '0' then none
      else if c.isDigit then some (c.toNat - '0'.toNat, rest)
      else some (0, cs)
    | [] => some (0, [])
  match cs with
  | [] => some (.clip, 0, [])
  | c :: rest =>
    match Chomping.ofMark? c with
    | some chomping => (digit rest).map fun (increment, rest) => (chomping, increment, rest)
    | none =>
      match digit cs with
      | none => none
      | some (0, rest) => some (.clip, 0, rest)
      | some (increment, rest) =>
        match rest with
        | m :: after =>
          match Chomping.ofMark? m with
          | some chomping => some (chomping, increment, after)
          | none => some (.clip, increment, rest)
        | [] => some (.clip, increment, [])

/-- The text after the rest of a line, which may hold only blanks and a comment. -/
def endOfLine? (cs : List Char) : Option (List Char) :=
  let rest := cs.dropWhile isGap
  let rest := if rest.head? = some '#' then rest.dropWhile (!isBreak ·) else rest
  match lineBreak? rest with
  | some (_, after) => some after
  | none => if rest.isEmpty then some [] else none

/-- The margin of a line of a block scalar with the empty lines before it. -/
structure BlockMargin where
  /-- The column of the line's first character. -/
  column : Nat
  /-- The widest margin so far. -/
  widest : Nat
  /-- The line breaks of the empty lines. -/
  breaks : List Char
  rest : List Char
deriving Repr, DecidableEq, Inhabited

/-- Reads margins and empty lines up to a line with content. Without a given indentation all spaces
belong to the margin; a tab must not stand in it. -/
def blockMargin? (indent : Nat) : Nat → Nat → List Char → List Char → Option BlockMargin
  | column, widest, breaks, [] => some ⟨column, max widest column, breaks, []⟩
  | column, widest, breaks, '\r' :: '\n' :: cs =>
    blockMargin? indent 0 (max widest column) (breaks ++ ['\n']) cs
  | column, widest, breaks, c :: cs =>
    let inMargin := indent == 0 || column < indent
    if inMargin && c == ' ' then blockMargin? indent (column + 1) widest breaks cs
    else if inMargin && c == '\t' then none
    else if isBreak c then
      blockMargin? indent 0 (max widest column)
        (breaks ++ if c == '\u2028' || c == '\u2029' then [c] else ['\n']) cs
    else some ⟨column, max widest column, breaks, c :: cs⟩

/-- The lines of a block scalar that have been read. -/
structure BlockDraft where
  text : List Char := []
  /-- The line break at the end of the last line. -/
  lastBreak : List Char := []
  /-- Whether the last line starts with a blank. -/
  blankStart : Bool := false
deriving Repr, DecidableEq, Inhabited

/-- Adds a line after the line break before it and the empty lines in between. -/
def BlockDraft.addLine (folds : Bool) (draft : BlockDraft) (breaks line lineEnd : List Char) :
    BlockDraft :=
  let blankStart := line.head?.any isGap
  let joint :=
    if folds && draft.lastBreak = ['\n'] && !draft.blankStart && !blankStart then
      if breaks.isEmpty then [' '] else []
    else draft.lastBreak
  { text := draft.text ++ joint ++ breaks ++ line, lastBreak := lineEnd, blankStart }

/-- What becomes of a block scalar's last line breaks. -/
def BlockDraft.finish (chomping : Chomping) (draft : BlockDraft) (breaks : List Char) : List Char :=
  match chomping with
  | .strip => draft.text
  | .clip => draft.text ++ draft.lastBreak
  | .keep => draft.text ++ draft.lastBreak ++ breaks

/-- Reads the lines of a block scalar that are indented as given. -/
def blockLines? (folds : Bool) (chomping : Chomping) (indent : Nat) :
    Nat → BlockDraft → BlockMargin → Option (List Char × List Char)
  | 0, _, _ => none
  | bound + 1, draft, margin =>
    if margin.column ≠ indent || margin.rest.isEmpty then
      some (draft.finish chomping margin.breaks, margin.rest)
    else
      let line := margin.rest.takeWhile (!isBreak ·)
      let (lineEnd, rest) := (lineBreak? (margin.rest.dropWhile (!isBreak ·))).getD ([], [])
      match blockMargin? indent 0 0 [] rest with
      | none => none
      | some next =>
        blockLines? folds chomping indent bound
          (draft.addLine folds margin.breaks line lineEnd) next

/-- Reads a block scalar after its first mark, inside of a block with the given indentation. -/
def blockScalar? (folds : Bool) (outer : Int) (cs : List Char) :
    Option (List Char × List Char) := do
  let (chomping, increment, rest) ← blockMarks? cs
  let rest ← endOfLine? rest
  let given := if increment = 0 then 0 else (max outer 0).toNat + increment
  let margin ← blockMargin? given 0 0 [] rest
  let indent := if given = 0 then max margin.widest (max (outer + 1) 1).toNat else given
  blockLines? folds chomping indent (rest.length + 1) {} margin

end SourceAtlas.Yaml
