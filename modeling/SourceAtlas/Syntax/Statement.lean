import SourceAtlas.Syntax.ClassBody

/-!
# Statements

The rules for statements and declarations. A statement ends with its last lexeme and with the
comments before its implied end, so a comment that follows it stands on its own.
-/

namespace SourceAtlas.Syntax.Statement

open Text Reader Expression

variable (dialect : Dialect) (bound : Nat) (rules : Rules)

/-- What may follow a complete declaration. -/
def declarationEnd : Semicolon.Follow := { operator := false }

/-! ### Imports and exports -/

/-- A part of an import clause in front of the module's specifier. -/
def importPart : Reader Unit := do
  (symbol ",") <|> (symbol "*") <|> (do check (← sees "\x7b"); lexeme group?) <|>
    (do let _ ← anyWord)

/-- The attributes of an import, which stand on the line of the specifier. -/
def importAttributes : Reader Unit := do
  match upcoming dialect .statement declarationEnd (← get) with
  | some next =>
    if hasWord "with" next || hasWord "assert" next then
      set (word next).2
      let _ ← rules _ .object
  | none => pure ()

/-- An import after its keyword. -/
def importTail : Reader Item := do
  let _ ← many importPart bound
  if ← sees "=" then
    symbol "="
    let _ ← rules _ (.expression .statement)
    finish dialect {}
    return .other []
  else
    let source ← consumed (lexeme stringLiteral?)
    importAttributes dialect rules
    finish dialect declarationEnd
    return .importFrom source

/-- The module that exported names come from, unless the statement ends before it. -/
def exportSource : Reader Unit := do
  match upcoming dialect .statement declarationEnd (← get) with
  | some next =>
    if hasWord "from" next then
      set (word next).2
      lexeme stringLiteral?
      importAttributes dialect rules
  | none => pure ()

/-- A name of a whole module: a word or a string. -/
def moduleName : Reader Unit := (do let _ ← anyWord) <|> lexeme stringLiteral?

/-- A re-export or a list of exported names, after the keyword. -/
def exportList : Reader Item := do
  if ← symbol? "*" then
    if ← keyword? "as" then moduleName
    check (← seesWord "from")
  else
    check (← sees "\x7b")
    lexeme group?
  exportSource dialect rules
  finish dialect declarationEnd
  return .other []

/-- The name that a module has everywhere, after `export`. -/
def exportNamespace : Reader Item := do
  keyword "as"
  keyword "namespace"
  let _ ← anyWord
  finish dialect declarationEnd
  return .other []

/-! ### Declarations -/

/-- A function after its keyword. In a typed dialect it may be a signature without a body. -/
def functionDeclaration : Reader Item := do
  let starred ← symbol? "*"
  let name ← anyWord
  if dialect.hasTypes && (← sees "<") then rules _ .typeParameters
  let parameters ← rules _ .parenthesized
  TypeNotation.annotation? dialect rules .statement
  let follow : Semicolon.Follow := { operator := false, body := true }
  let hasBody := match upcoming dialect { endable := dialect.hasTypes } follow (← get) with
    | some ('{' :: _) => true
    | _ => false
  if hasBody then
    let body ← rules _ .block
    settle dialect {}
    let inner := parameters ++ body
    return .declared (if starred then .generator (some name) inner else .function (some name) inner)
  else
    check dialect.hasTypes
    finish dialect follow
    return .signature name parameters

/-- A class after its keyword. -/
def classDeclaration (before : List Item) : Reader Item := do
  match ← classTail dialect bound rules with
  | .classOf name members =>
    settle dialect declarationEnd
    return .declared (.classOf name (.other before :: members))
  | value => return .declared value

/-- A declared variable. -/
def declarator : Reader Declarator := do
  skip
  let cs ← get
  let (name, pattern) ← (match cs with
    | '{' :: _ => do return (none, ← rules _ .object)
    | '[' :: _ => do return (none, ← rules _ .bracketed)
    | _ => do return (some (← anyWord), []) : Reader (Option (List Char) × List Item))
  if dialect.hasTypes then
    match upcoming dialect .statement declarationEnd (← get) with
    | some ('!' :: rest) => set rest
    | _ => pure ()
    match upcoming dialect .statement declarationEnd (← get) with
    | some (':' :: rest) =>
      set rest
      rules _ (.type .statement)
    | _ => pure ()
  match upcoming dialect .statement declarationEnd (← get) with
  | some ('=' :: rest) =>
    set rest
    return .mk name pattern (some (← rules _ (.assignment .statement)))
  | _ => return .mk name pattern none

/-- A further declared variable after a comma. -/
def furtherDeclarator : Reader Declarator := do
  match upcoming dialect .statement {} (← get) with
  | some (',' :: rest) =>
    set rest
    declarator dialect rules
  | _ => failure

/-- A declaration of variables after its keyword. -/
def variableDeclaration : Reader Item := do
  let first ← declarator dialect rules
  let others ← many (furtherDeclarator dialect rules) bound
  finish dialect {}
  return .variables (first :: others)

/-! ### Declarations of the typed dialects -/

/-- A type alias after its keyword. -/
def typeAlias : Reader Item := do
  let _ ← anyWord
  if ← sees "<" then rules _ .typeParameters
  symbol "="
  rules _ (.type .statement)
  finish dialect declarationEnd
  return .other []

/-- An interface after its keyword. -/
def interfaceDeclaration : Reader Item := do
  let _ ← anyWord
  if ← sees "<" then rules _ .typeParameters
  if ← keyword? "extends" then
    rules _ (.type .enclosed)
    let _ ← many (do symbol ","; rules _ (.type .enclosed)) bound
  check (← sees "\x7b")
  lexeme group?
  return .other []

/-- An enumeration after its keyword. -/
def enumDeclaration : Reader Item := do
  let _ ← anyWord
  check (← sees "\x7b")
  lexeme group?
  return .other []

/-- A namespace or a module after its keyword. -/
def moduleDeclaration : Reader Item := do
  (do lexeme stringLiteral?) <|> (do
    let _ ← anyWord
    let _ ← many (do symbol "."; let _ ← anyWord) bound)
  if ← sees "\x7b" then
    let inner ← rules _ .block
    settle dialect {}
    return .other inner
  else
    finish dialect declarationEnd
    return .other []

/-! ### Control flow -/

/-- The head of a loop between parentheses. -/
def loopHead : Reader (List Item) := do
  symbol "("
  let parts ← many part bound
  symbol ")"
  return parts.flatten
where
  /-- A keyword, a separator or an expression of the head. -/
  part : Reader (List Item) :=
    (do symbol ";"; return []) <|> (do symbol ","; return []) <|>
    (do
      let w ← anyWord
      check (["var", "let", "const", "of", "in", "await"].any fun k => w = k.toList)
      check (!(← peek).any ("=;,)".toList.contains ·))
      return []) <|>
    (do return (← rules _ (.assignment .enclosed)).inner)

/-- A statement whose parts are read by a reader. -/
def compound (reader : Reader (List Item)) : Reader Item := do
  return .other (← reader)

/-- A conditional statement after its keyword. -/
def ifTail : Reader (List Item) := do
  let condition ← rules _ .parenthesized
  let first ← rules _ .statement
  if ← seesWord "else" then
    keyword "else"
    return condition ++ [first, ← rules _ .statement]
  else return condition ++ [first]

/-- A loop after the keyword `for`. -/
def forTail : Reader (List Item) := do
  let _ ← keyword? "await"
  let head ← loopHead bound rules
  return head ++ [← rules _ .statement]

/-- A loop after the keyword `do`. -/
def doTail : Reader (List Item) := do
  let body ← rules _ .statement
  keyword "while"
  let condition ← rules _ .parenthesized
  match statementEnd? dialect declarationEnd (← get) with
  | some rest => set rest
  | none => pure ()
  return body :: condition

/-- A case of a `switch` with its statements. -/
def switchCase : Reader (List Item) := do
  let value ← (do
      keyword "case"
      return (← rules _ (.expression { consequent := true })).inner) <|>
    (do keyword "default"; return [])
  symbol ":"
  return value ++ (← rules _ .items)

/-- A `switch` after its keyword. -/
def switchTail : Reader (List Item) := do
  let value ← rules _ .parenthesized
  symbol "\x7b"
  let cases ← many (switchCase rules) bound
  let remaining ← rules _ .items
  symbol "\x7d"
  return value ++ cases.flatten ++ remaining

/-- A block of a `try`, with the comments before its implied end. -/
def settledBlock : Reader (List Item) := do
  let inner ← rules _ .block
  settle dialect {}
  return inner

/-- The parameter of a `catch`. -/
def catchParameter : Reader (List Item) := do
  if ← sees "(" then rules _ .parenthesized else return []

/-- A `try` after its keyword. -/
def tryTail : Reader (List Item) := do
  let body ← settledBlock dialect rules
  let handler ← optionally [] do
    keyword "catch"
    let parameter ← catchParameter rules
    return parameter ++ (← settledBlock dialect rules)
  let final ← optionally [] do
    keyword "finally"
    settledBlock dialect rules
  return body ++ handler ++ final

/-- A `return` or a `throw` after its keyword. -/
def resultTail : Reader (List Item) := do
  match upcoming dialect .statement declarationEnd (← get) with
  | none => finish dialect declarationEnd; return []
  | some (';' :: _) => finish dialect declarationEnd; return []
  | some _ =>
    let value ← rules _ (.expression .statement)
    finish dialect {}
    return value.inner

/-- A `break` or a `continue` after its keyword. -/
def jumpTail : Reader (List Item) := do
  match upcoming dialect .statement declarationEnd (← get) with
  | some cs =>
    if !(word cs).1.isEmpty then set (word cs).2
  | none => pure ()
  finish dialect declarationEnd
  return []

/-! ### Expressions as statements -/

/-- An expression as a statement. -/
def expressionStatement : Reader Item := do
  let value ← rules _ (.expression .statement)
  finish dialect {}
  return .other value.inner

/-- A statement with a label, after the label's word. -/
def labelTail : Reader Item := do
  symbol ":"
  return .other [← rules _ .statement]

/-! ### Exports -/

/-- The value of a default export. -/
def exportedValue : Reader Item := do
  let value ← rules _ (.expression .statement)
  finish dialect {}
  return .declared value

/-- A default export after its keywords. -/
def defaultTail : Reader Item := do
  let start ← get
  let w ← peekWord
  if w = "function".toList then
    (do
      let _ ← anyWord
      functionDeclaration dialect rules) <|> (do set start; exportedValue dialect rules)
  else if w = "async".toList then
    (do
      let _ ← anyWord
      keyword "function"
      functionDeclaration dialect rules) <|> (do set start; exportedValue dialect rules)
  else if w = "class".toList then
    (do
      let _ ← anyWord
      let next ← peekWord
      check (!next.isEmpty && next ≠ "extends".toList && next ≠ "implements".toList)
      classDeclaration dialect bound rules []) <|> (do set start; exportedValue dialect rules)
  else if dialect.hasTypes && w = "abstract".toList then
    let _ ← anyWord
    keyword "class"
    classDeclaration dialect bound rules []
  else if dialect.hasTypes && w = "interface".toList then
    let _ ← anyWord
    interfaceDeclaration bound rules
  else exportedValue dialect rules

/-- An export after its keyword. -/
def exportTail : Reader Item := do
  let w ← peekWord
  match ← peek with
  | some '*' => exportList dialect rules
  | some '{' => exportList dialect rules
  | some '=' =>
    symbol "="
    let value ← rules _ (.expression .statement)
    finish dialect {}
    return .other value.inner
  | _ =>
    if w = "default".toList then
      let _ ← anyWord
      return .exported (← defaultTail dialect bound rules)
    else if dialect.hasTypes && w = "as".toList then exportNamespace dialect
    else if dialect.hasTypes && w = "import".toList then
      let _ ← anyWord
      match ← importTail dialect bound rules with
      | .importFrom _ => return .other []
      | item => return item
    else if dialect.hasTypes && w = "type".toList then
      (do
        let _ ← anyWord
        check ((← peek).any fun c => c == '{' || c == '*')
        exportList dialect rules) <|> (do return .exported (← rules _ .statement))
    else return .exported (← rules _ .statement)

/-! ### Statements by their first word -/

/-- A class or an export after decorators. -/
def decorated : Reader Item := do
  let marks ← decorators bound rules
  if ← keyword? "export" then
    let _ ← keyword? "default"
    let _ ← keyword? "abstract"
    keyword "class"
    return .exported (← classDeclaration dialect bound rules marks)
  else
    let _ ← keyword? "abstract"
    keyword "class"
    classDeclaration dialect bound rules marks

/-- A declaration that opens with a word of the typed dialects which may also be a name, given the
text at the next lexeme. -/
def typedDeclaration (w : List Char) (next : List Char) : Reader Item := do
  let named := !(word next).1.isEmpty
  if w = "type".toList then
    check named
    set next
    typeAlias dialect rules
  else if w = "declare".toList then
    check named
    set next
    if ← keyword? "global" then
      let inner ← rules _ .block
      settle dialect {}
      return .ambient (.other inner)
    else return .ambient (← rules _ .statement)
  else if w = "namespace".toList || w = "module".toList then
    check (named || next.head?.any fun c => c == '"' || c == '\'')
    set next
    moduleDeclaration dialect bound rules
  else if w = "abstract".toList then
    set next
    keyword "class"
    classDeclaration dialect bound rules []
  else failure

/-- A statement that opens with a word, given the text after the word. -/
def wordStatement (w : List Char) (rest : List Char) : Reader Item := do
  let plain : Reader Item :=
    (do set rest; labelTail rules) <|> expressionStatement dialect rules
  let after (reader : Reader Item) : Reader Item := do set rest; reader
  if w = "function".toList then after (functionDeclaration dialect rules)
  else if w = "class".toList then after (classDeclaration dialect bound rules [])
  else if w = "const".toList then
    after do
      if dialect.hasTypes && (← keyword? "enum") then enumDeclaration
      else variableDeclaration dialect bound rules
  else if w = "var".toList then after (variableDeclaration dialect bound rules)
  else if w = "let".toList then
    match upcoming dialect .statement {} rest with
    | some (c :: _) =>
      if isWordChar c || c == '{' || c == '[' || c == '\\' then
        after (variableDeclaration dialect bound rules)
      else plain
    | _ => plain
  else if w = "async".toList then
    match upcoming dialect .statement {} rest with
    | some next =>
      if hasWord "function" next then do
        set (word next).2
        functionDeclaration dialect rules
      else plain
    | none => plain
  else if w = "import".toList then
    match (skipTrivia rest).head? with
    | some '(' => plain
    | some '.' => plain
    | _ => after (importTail dialect bound rules)
  else if w = "export".toList then after (exportTail dialect bound rules)
  else if w = "if".toList then after (compound (ifTail rules))
  else if w = "for".toList then after (compound (forTail bound rules))
  else if w = "while".toList || w = "with".toList then
    after (compound do
      let head ← rules _ .parenthesized
      return head ++ [← rules _ .statement])
  else if w = "do".toList then after (compound (doTail dialect rules))
  else if w = "switch".toList then after (compound (switchTail bound rules))
  else if w = "try".toList then after (compound (tryTail dialect rules))
  else if w = "return".toList || w = "throw".toList then after (compound (resultTail dialect rules))
  else if w = "break".toList || w = "continue".toList || w = "debugger".toList then
    after (compound (jumpTail dialect))
  else if dialect.hasTypes && w = "interface".toList then after (interfaceDeclaration bound rules)
  else if dialect.hasTypes && w = "enum".toList then after enumDeclaration
  else if dialect.hasTypes then
    match upcoming dialect .statement {} rest with
    | some next => typedDeclaration dialect bound rules w next <|> plain
    | none => plain
  else plain

/-- One statement. -/
def statement : Reader Item := do
  skip
  let cs ← get
  match cs with
  | '{' :: _ => return .other (← settledBlock dialect rules)
  | ';' :: rest => set rest; return .other []
  | '@' :: _ => decorated dialect bound rules
  | _ =>
    let (w, rest) := word cs
    if w.isEmpty then expressionStatement dialect rules
    else wordStatement dialect bound rules w rest

/-! ### Lists of statements -/

/-- A comment or a statement. -/
def item : Reader Item := do
  modify (List.dropWhile isSpace)
  let cs ← get
  match comment? cs with
  | some (comment, rest) =>
    set rest
    return .comment comment
  | none =>
    match markupComment? cs with
    | some rest =>
      set rest
      return .other []
    | none =>
      check (!cs.isEmpty && cs.head? ≠ some '}')
      check (!hasWord "case" cs && !hasWord "default" cs)
      rules _ .statement

/-- Statements up to a closing brace, a case label or the end. -/
def items : Reader (List Item) := many (item rules) bound

/-- Statements between braces. -/
def block : Reader (List Item) := do
  symbol "\x7b"
  let inner ← rules _ .items
  symbol "\x7d"
  return inner

end SourceAtlas.Syntax.Statement
