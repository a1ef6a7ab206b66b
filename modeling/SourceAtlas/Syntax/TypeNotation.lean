import SourceAtlas.Syntax.Reader

/-!
# Types

The rules for type annotations. Nothing in a type matters to the inventory, so these rules only find
where a type ends.
-/

namespace SourceAtlas.Syntax.TypeNotation

open Text Reader

variable (dialect : Dialect) (bound : Nat) (rules : Rules)

/-- Words that stand in front of a type. -/
def isTypeOperator (w : List Char) : Bool :=
  ["keyof", "unique", "readonly", "infer", "typeof"].any fun k => w = k.toList

/-- Whether a parenthesized group, given the text after its opening, looks like parameters. -/
def looksLikeParameters (cs : List Char) : Bool :=
  let inner := skipTrivia cs
  match inner with
  | ')' :: _ => true
  | '.' :: '.' :: '.' :: _ => true
  | '{' :: _ => followsPattern (group? inner)
  | '[' :: _ => followsPattern (group? inner)
  | _ =>
    let (w, rest) := word inner
    !w.isEmpty && (skipTrivia rest).head?.any (":,?=)".toList.contains ·)
where
  /-- Whether a pattern is followed as a parameter is. -/
  followsPattern : Option (List Char) → Bool
    | some rest => (skipTrivia rest).head?.any (":,?=)".toList.contains ·)
    | none => false

/-- The result of a function type. -/
def functionResult (place : Place) : Reader Unit := do
  symbol "=>"
  rules _ (.type place)

/-- A name with dots in it. -/
def memberStep : Reader Unit := do
  let cs ← get
  match skipTrivia cs with
  | '.' :: '.' :: _ => failure
  | '.' :: rest =>
    set rest
    let _ ← anyWord
  | _ => failure

/-- What may follow a type operand: an element type, arguments or a member. -/
def suffixStep (place : Place) : Reader Unit := do
  let cs ← aheadOfType dialect place
  match cs with
  | '[' :: _ => set cs; lexeme group?
  | '<' :: _ => set cs; rules _ .typeArguments
  | '.' :: _ => memberStep
  | _ => failure

/-- A type without binary type operators. -/
def operand (place : Place) : Nat → Reader Unit
  | 0 => failure
  | depth + 1 => do
    skip
    let cs ← get
    match cs with
    | '(' :: inner =>
      lexeme group?
      if looksLikeParameters inner && (← sees "=>") then functionResult rules place
      else suffixes
    | '<' :: _ =>
      rules _ .typeParameters
      lexeme group?
      functionResult rules place
    | '{' :: _ => lexeme group?; suffixes
    | '[' :: _ => lexeme group?; suffixes
    | '"' :: _ => lexeme stringLiteral?; suffixes
    | '\'' :: _ => lexeme stringLiteral?; suffixes
    | '-' :: rest => set rest; lexeme numberLiteral?; suffixes
    | c :: rest =>
      if c.isDigit then lexeme numberLiteral?; suffixes
      else if c.toNat = 0x60 then templateType depth rest
      else
        let w ← anyWord
        if w = "abstract".toList || w = "new".toList then
          if w = "abstract".toList && (← seesWord "new") then let _ ← anyWord
          if ← sees "<" then rules _ .typeParameters
          if ← sees "(" then
            lexeme group?
            functionResult rules place
          else suffixes
        else if isTypeOperator w then operand place depth <|> suffixes
        else if w = "asserts".toList then
          (do
            let next ← aheadOfType dialect place
            check (!(word next).1.isEmpty && !hasWord "is" next)
            operand place depth) <|> suffixes
        else if w = "import".toList then
          lexeme group?
          suffixes
        else suffixes
    | [] => failure
where
  /-- The suffixes of an operand. -/
  suffixes : Reader Unit := do
    let _ ← many (suffixStep dialect rules place) bound
  /-- A template literal type, whose substitutions hold types. -/
  templateType : Nat → List Char → Reader Unit
    | 0, _ => failure
    | depth + 1, rest =>
      match templateStretch rest with
      | some (.closed, after) => do set after; suffixes
      | some (.substitution, after) => do
        set after
        rules _ (.type .enclosed)
        symbol "\x7d"
        templateType depth (← get)
      | none => failure

/-- What may follow a whole type: another one joined by an operator, a bound or a predicate. -/
def continuation (place : Place) : Reader Unit := do
  let cs ← aheadOfType dialect place
  match cs with
  | '|' :: '|' :: _ => failure
  | '&' :: '&' :: _ => failure
  | '|' :: '=' :: _ => failure
  | '|' :: rest => set rest; operand dialect bound rules place bound
  | '&' :: rest => set rest; operand dialect bound rules place bound
  | _ =>
    let (w, rest) := word cs
    if w = "extends".toList then
      set rest
      rules _ (.type .enclosed)
      if (← sees "?") then
        symbol "?"
        rules _ (.type .enclosed)
        symbol ":"
        rules _ (.type place)
    else if w = "is".toList then
      set rest
      rules _ (.type place)
    else failure

/-- A type. -/
def type (place : Place) : Reader Unit := do
  let _ ← symbol? "|"
  let _ ← symbol? "&"
  operand dialect bound rules place bound
  let _ ← many (continuation dialect bound rules place) bound

/-- Types between angle brackets. -/
def arguments : Reader Unit := do
  symbol "<"
  let _ ← listed (rules _ (.type .enclosed)) bound
  symbol ">"

/-- One declared type parameter, with its bound and its default. -/
def parameter : Reader Unit := do
  let _ ← many modifier 3
  rules _ (.type .enclosed)
  if ← sees "=" then
    symbol "="
    rules _ (.type .enclosed)
where
  /-- A modifier of a type parameter. -/
  modifier : Reader Unit := do
    let w ← anyWord
    check (["const", "in", "out"].any fun k => w = k.toList)
    check (!(← peekWord).isEmpty && !(← seesWord "extends"))

/-- Declared type parameters between angle brackets. -/
def parameters : Reader Unit := do
  symbol "<"
  let _ ← listed (parameter rules) bound
  symbol ">"

/-- A type annotation, if one comes next. -/
def annotation? (place : Place) : Reader Unit := do
  if dialect.hasTypes then
    if ← sees ":" then
      symbol ":"
      rules _ (.type place)

end SourceAtlas.Syntax.TypeNotation
