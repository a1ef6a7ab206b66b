import SourceAtlas.Syntax.TypeNotation

/-!
# Expressions

The rules for expressions. Operators are read without regard to precedence, since the inventory only
asks whether an expression is a function or a class and nothing more, and which statements are
nested in it.
-/

namespace SourceAtlas.Syntax.Expression

open Text Reader

variable (dialect : Dialect) (bound : Nat) (rules : Rules)

/-! ### Functions -/

/-- The body of an arrow function, after the arrow. -/
def arrowBody (place : Place) : Reader (List Item) := do
  if ← sees "\x7b" then rules _ .block
  else return (← rules _ (.assignment place)).inner

/-- The arrow of an arrow function and its body, after the parameters; in a typed dialect a return
type may come first. Before the colon of a conditional expression it must leave that colon. -/
def arrowTail (place : Place) : Reader (List Item) := do
  if ← sees "=>" then
    symbol "=>"
    arrowBody rules place
  else
    check dialect.hasTypes
    symbol ":"
    rules _ (.type .enclosed)
    symbol "=>"
    let inner ← arrowBody rules place
    if place.consequent then check (← sees ":")
    return inner

/-- A function after its keyword: star, name, parameters, return type and body. -/
def functionTail : Reader Value := do
  let starred ← symbol? "*"
  let name ← optionally none (some <$> anyWord)
  if dialect.hasTypes && (← sees "<") then rules _ .typeParameters
  let parameters ← rules _ .parenthesized
  TypeNotation.annotation? dialect rules .enclosed
  let body ← rules _ .block
  return if starred then .generator name (parameters ++ body) else .function name (parameters ++ body)

/-! ### Classes -/

/-- A decorator. -/
def decorator : Reader (List Item) := do
  symbol "@"
  return (← rules _ (.operand .enclosed)).inner

/-- The decorators in front of a class or a member. -/
def decorators : Reader (List Item) := do
  return (← many (decorator rules) bound).flatten

/-- What a class extends or implements. -/
def heritage : Reader (List Item) := do
  if ← seesWord "extends" then
    keyword "extends"
    return (← rules _ (.operand .enclosed)).inner
  else
    check dialect.hasTypes
    keyword "implements"
    rules _ (.type .enclosed)
    let _ ← many (do symbol ","; rules _ (.type .enclosed)) bound
    return []

/-- A class after its keyword: name, type parameters, heritage and body. -/
def classTail : Reader Value := do
  let w ← peekWord
  let unnamed := w.isEmpty || w = "extends".toList || (dialect.hasTypes && w = "implements".toList)
  let name ← if unnamed then pure none else some <$> anyWord
  if dialect.hasTypes && (← sees "<") then rules _ .typeParameters
  let bases ← many (heritage dialect bound rules) 2
  let members ← rules _ .classBody
  return .classOf name (.other bases.flatten :: members)

/-! ### Names of properties -/

/-- The name of a property: a word, a private name, a literal or a computed name. -/
def propertyName : Reader (List Item) := do
  skip
  match ← get with
  | '[' :: _ => rules _ .bracketed
  | '"' :: _ => lexeme stringLiteral?; return []
  | '\'' :: _ => lexeme stringLiteral?; return []
  | '#' :: rest => set rest; let _ ← anyWord; return []
  | _ => (do lexeme numberLiteral?; return []) <|> (do let _ ← anyWord; return [])

/-! ### Objects -/

/-- A method of an object after its name. -/
def methodTail : Reader (List Item) := do
  if dialect.hasTypes && (← sees "<") then rules _ .typeParameters
  let parameters ← rules _ .parenthesized
  TypeNotation.annotation? dialect rules .enclosed
  let body ← rules _ .block
  return parameters ++ body

/-- A modifier of a method of an object, which is followed by a name. -/
def methodModifier : Reader Unit := do
  (symbol "*") <|> do
    let w ← anyWord
    check (["async", "get", "set"].any fun k => w = k.toList)
    check (!(← peek).any ("(,:=\x7d<".toList.contains ·))

/-- A property of an object literal or an object pattern. -/
def property : Reader (List Item) := do
  if ← sees "..." then
    symbol "..."
    return (← rules _ (.assignment .enclosed)).inner
  let _ ← many methodModifier 3
  let name ← propertyName rules
  match ← peek with
  | some '(' => return name ++ (← methodTail dialect rules)
  | some '<' => return name ++ (← methodTail dialect rules)
  | some ':' => symbol ":"; return name ++ (← rules _ (.assignment .enclosed)).inner
  | some '=' => symbol "="; return name ++ (← rules _ (.assignment .enclosed)).inner
  | _ => return name

/-- An object literal or an object pattern. -/
def object : Reader (List Item) := do
  symbol "\x7b"
  let parts ← many ((do symbol ","; return []) <|> property dialect rules) bound
  symbol "\x7d"
  return parts.flatten

/-! ### Lists -/

/-- An element of a list between square brackets. In a typed dialect an index signature has a
type. -/
def element : Reader (List Item) := do
  let _ ← symbol? "..."
  let value ← rules _ (.assignment .enclosed)
  TypeNotation.annotation? dialect rules .enclosed
  return value.inner

/-- A list between square brackets: an array, an array pattern, an index or a computed name. -/
def bracketed : Reader (List Item) := do
  symbol "["
  let parts ← many ((do symbol ","; return []) <|> element dialect rules) bound
  symbol "]"
  return parts.flatten

/-- A modifier of a constructor parameter, which is followed by the parameter. -/
def parameterModifier : Reader Unit := do
  check dialect.hasTypes
  let w ← anyWord
  check (["public", "private", "protected", "readonly", "override"].any fun k => w = k.toList)
  let next ← peek
  check (next.any fun c => isWordChar c || c == '{' || c == '[')

/-- An argument, a parameter or a grouped expression. -/
def argument : Reader (List Item) := do
  let marks ← decorators bound rules
  let _ ← many (parameterModifier dialect) 3
  let _ ← symbol? "..."
  let value ← rules _ (.assignment .enclosed)
  if dialect.hasTypes then
    let _ ← symbol? "?"
    TypeNotation.annotation? dialect rules .enclosed
    if ← sees "=" then
      symbol "="
      return marks ++ value.inner ++ (← rules _ (.assignment .enclosed)).inner
  return marks ++ value.inner

/-- A parenthesized list. -/
def parenthesized : Reader (List Item) := do
  symbol "("
  let parts ← many ((do symbol ","; return []) <|> argument dialect bound rules) bound
  symbol ")"
  return parts.flatten

/-! ### Templates -/

/-- The rest of a template literal, after its opening quote or a substitution. -/
def templateTail : Nat → Reader (List Item)
  | 0 => failure
  | depth + 1 => do
    match templateStretch (← get) with
    | some (.closed, rest) => set rest; return []
    | some (.substitution, rest) =>
      set rest
      let value ← rules _ (.expression .enclosed)
      symbol "\x7d"
      return value.inner ++ (← templateTail depth)
    | none => failure

/-- A template literal. -/
def template : Reader (List Item) := do
  symbol "\x60"
  templateTail rules bound

/-! ### Operands -/

/-- What is read where an operand starts with an angle bracket. -/
def angled (place : Place) : Reader Value :=
  let generic : Reader Value := do
    rules _ .typeParameters
    let parameters ← rules _ .parenthesized
    return .arrow (parameters ++ (← arrowTail dialect rules place))
  let assertion : Reader Value := do
    rules _ .typeArguments
    return .other (← rules _ (.operand place)).inner
  match dialect with
  | .javascript => do return .other (← rules _ .markup)
  | .typescript => generic <|> assertion
  | .typescriptMarkup => (do return .other (← rules _ .markup)) <|> generic

/-- An operand that starts with the word `async`, given the text after it. -/
def afterAsync (place : Place) (rest : List Char) : Reader Value := do
  match upcoming dialect place {} rest with
  | none => set rest; return .other []
  | some next =>
    match next with
    | '(' :: _ =>
      set next
      let list ← rules _ .parenthesized
      (do return .arrow (list ++ (← arrowTail dialect rules place))) <|> return .other list
    | '<' :: _ =>
      (do
        check dialect.hasTypes
        set next
        rules _ .typeParameters
        let list ← rules _ .parenthesized
        return .arrow (list ++ (← arrowTail dialect rules place))) <|>
      (do set rest; return .other [])
    | _ =>
      let (w, after) := word next
      if w = "function".toList then
        set after
        functionTail dialect rules
      else
        (do
          check (!w.isEmpty)
          set after
          symbol "=>"
          return .arrow (← arrowBody rules place)) <|>
        (do set rest; return .other [])

/-- An operand that starts with a word. -/
def wordOperand (place : Place) : Reader Value := do
  let w ← anyWord
  if w = "function".toList then functionTail dialect rules
  else if w = "class".toList then classTail dialect bound rules
  else if w = "async".toList then
    if ← sees "=>" then
      symbol "=>"
      return .arrow (← arrowBody rules place)
    else afterAsync dialect rules place (← get)
  else if reservedWords.contains w then failure
  else
    (do
      symbol "=>"
      return .arrow (← arrowBody rules place)) <|> return .other []

/-- An operand without prefix operators and suffixes. -/
def primary (place : Place) : Reader Value := do
  skip
  match ← get with
  | '(' :: _ =>
    let list ← rules _ .parenthesized
    (do return .arrow (list ++ (← arrowTail dialect rules place))) <|> return .other list
  | '[' :: _ => return .other (← rules _ .bracketed)
  | '{' :: _ => return .other (← rules _ .object)
  | '"' :: _ => lexeme stringLiteral?; return .other []
  | '\'' :: _ => lexeme stringLiteral?; return .other []
  | '/' :: _ => lexeme regexLiteral?; return .other []
  | '<' :: _ => angled dialect rules place
  | '#' :: rest => set rest; let _ ← anyWord; return .other []
  | '@' :: _ =>
    let marks ← decorators bound rules
    keyword "class"
    match ← classTail dialect bound rules with
    | .classOf name members => return .classOf name (.other marks :: members)
    | value => return value
  | c :: _ =>
    if c.toNat = 0x60 then return .other (← rules _ .template)
    else (do lexeme numberLiteral?; return .other []) <|> wordOperand dialect bound rules place
  | [] => failure

/-- Symbols that may stand in front of an operand. -/
def prefixSymbols : List (List Char) := ["++", "--", "!", "~", "+", "-"].map String.toList

/-- Words that may stand in front of an operand. -/
def prefixWords : List (List Char) :=
  ["typeof", "void", "delete", "await", "new"].map String.toList

/-- The text after the first of some symbols that the front holds. -/
def afterSymbol? (symbols : List (List Char)) (cs : List Char) : Option (List Char) :=
  symbols.findSome? fun s => s.isPrefixOf? cs

/-- Whether type arguments in an expression may be followed by a text. -/
def followsTypeArguments : Option (List Char) → Bool
  | none => true
  | some cs =>
    match cs with
    | [] => true
    | c :: _ =>
      let w := (word cs).1
      if w.isEmpty then
        c.toNat = 0x60 || !("<>+-[/\"'!~@#".toList.contains c || c.isDigit)
      else ["implements", "as", "satisfies", "in", "instanceof", "of"].any fun k => w = k.toList

/-- A member access, a call, an index or another suffix of an operand. -/
def suffix (place : Place) : Reader (List Item) := do
  let cs ← ahead dialect place
  match cs with
  | '?' :: '.' :: c :: rest =>
    check (!c.isDigit)
    set (c :: rest)
    if c = '(' then rules _ .parenthesized
    else if c = '[' then rules _ .bracketed
    else if c.toNat = 0x60 then rules _ .template
    else
      let _ ← symbol? "#"
      let _ ← anyWord
      return []
  | '.' :: rest =>
    set rest
    let _ ← symbol? "#"
    let _ ← anyWord
    return []
  | '(' :: _ => set cs; rules _ .parenthesized
  | '[' :: _ => set cs; rules _ .bracketed
  | '!' :: rest =>
    check (dialect.hasTypes && rest.head? ≠ some '=')
    set rest
    return []
  | '+' :: '+' :: rest => set rest; return []
  | '-' :: '-' :: rest => set rest; return []
  | '<' :: _ =>
    check dialect.hasTypes
    set cs
    rules _ .typeArguments
    check (followsTypeArguments (upcoming dialect place {} (← get)))
    return []
  | c :: _ =>
    check (c.toNat = 0x60)
    set cs
    rules _ .template
  | [] => failure

/-- A value with suffixes; a suffix makes it a value of no particular kind. -/
def suffixed (place : Place) (value : Value) : Reader Value := do
  let suffixes ← many (suffix dialect rules place) bound
  if suffixes.isEmpty then return value
  else return .other (value.inner ++ suffixes.flatten)

/-- A `yield`, whose operand may be missing. -/
def afterYield (place : Place) : Reader Value := do
  if ← sees "*" then symbol "*"
  match upcoming dialect place {} (← get) with
  | none => return .other []
  | some _ => (do return .other (← rules _ (.assignment place)).inner) <|> return .other []

/-- An expression without binary operators. -/
def operand (place : Place) : Reader Value := do
  skip
  let cs ← get
  match afterSymbol? prefixSymbols cs with
  | some rest =>
    set rest
    return .other (← rules _ (.operand place)).inner
  | none =>
    let (w, rest) := word cs
    if prefixWords.contains w then
      set rest
      if ← sees "." then suffixed dialect bound rules place (.other [])
      else return .other (← rules _ (.operand place)).inner
    else if w = "yield".toList then
      set rest
      afterYield dialect rules place
    else suffixed dialect bound rules place (← primary dialect bound rules place)

/-! ### Operators -/

/-- The binary operators that are written with symbols, longer ones first. -/
def binarySymbols : List (List Char) :=
  [">>>=", "===", "!==", "**=", "<<=", ">>=", ">>>", "&&=", "||=", "??=", "==", "!=", "<=", ">=",
    "&&", "||", "??", "+=", "-=", "*=", "/=", "%=", "&=", "|=", "^=", "<<", ">>", "**", "+", "-",
    "*", "/", "%", "&", "|", "^", "<", ">", "="].map String.toList

/-- Whether a question mark, given the text after it, opens a conditional expression. -/
def opensConditional (rest : List Char) : Bool :=
  match rest with
  | '?' :: _ => false
  | '.' :: more => !dialect.hasTypes && more.head?.any Char.isDigit
  | _ =>
    !dialect.hasTypes ||
      !(rest.dropWhile Semicolon.isBreakable).head?.any (":),".toList.contains ·)

/-- An operator and what it applies to, after an operand. -/
def operation (place : Place) : Reader (List Item) := do
  let cs ← ahead dialect place
  match cs with
  | '=' :: '>' :: _ => failure
  | '?' :: rest =>
    if opensConditional dialect rest then
      set rest
      let first ← rules _ (.assignment { consequent := true })
      symbol ":"
      let second ← rules _ (.assignment place)
      return first.inner ++ second.inner
    else
      let after := afterSymbol? binarySymbols cs
      match after with
      | some rest => set rest; return (← rules _ (.operand place)).inner
      | none => failure
  | _ =>
    match afterSymbol? binarySymbols cs with
    | some rest => set rest; return (← rules _ (.operand place)).inner
    | none =>
      let (w, rest) := word cs
      if w = "in".toList || w = "instanceof".toList then
        set rest
        return (← rules _ (.operand place)).inner
      else
        check (dialect.hasTypes && (w = "as".toList || w = "satisfies".toList))
        set rest
        rules _ (.type place)
        return []

/-- An expression without commas. -/
def assignment (place : Place) : Reader Value := do
  let first ← rules _ (.operand place)
  let operations ← many (operation dialect rules place) bound
  if operations.isEmpty then return first
  else return .other (first.inner ++ operations.flatten)

/-- A further expression after a comma. -/
def furtherExpression (place : Place) : Reader (List Item) := do
  let cs ← ahead dialect place
  match cs with
  | ',' :: rest =>
    set rest
    return (← rules _ (.assignment place)).inner
  | _ => failure

/-- Expressions separated by commas. -/
def expression (place : Place) : Reader Value := do
  let first ← rules _ (.assignment place)
  let others ← many (furtherExpression dialect rules place) bound
  if others.isEmpty then return first
  else return .other (first.inner ++ others.flatten)

end SourceAtlas.Syntax.Expression
