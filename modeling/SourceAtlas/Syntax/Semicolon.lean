import SourceAtlas.Syntax.Dialect
import SourceAtlas.Syntax.Lexeme

/-!
# Statement ends without a semicolon

A statement may end without a semicolon at the end of the text, before a closing brace, and at a
line break unless what follows the break continues the statement. `Semicolon.implied` decides this
for a place where a statement may end. The two languages differ in how they look past comments: in
TypeScript a comment on the statement's last line still belongs to the statement.
-/

namespace SourceAtlas.Syntax.Semicolon

open Text

/-- What could come next by the grammar. -/
structure Follow where
  /-- A binary operator. -/
  operator : Bool := true
  /-- The body of a function. -/
  body : Bool := false
deriving Repr, DecidableEq

/-- White space, as far as statement ends are concerned. -/
def isBreakable (c : Char) : Bool := c == ' ' || (9 ≤ c.toNat && c.toNat ≤ 13)

/-- The line breaks that can end a JavaScript statement. -/
def isBreak (c : Char) : Bool := c == '\n' || c.toNat == 0x2028 || c.toNat == 0x2029

/-- Whether a block comment spans lines, and the text after it; an open comment runs to the end. -/
def pastBlock (p : Char → Bool) : List Char → Bool × List Char
  | [] => (false, [])
  | '*' :: '/' :: rest => (false, rest)
  | c :: rest =>
    let (broken, after) := pastBlock p rest
    (p c || broken, after)

theorem length_pastBlock_le (p : Char → Bool) (cs : List Char) :
    (pastBlock p cs).2.length ≤ cs.length := by
  fun_induction pastBlock p cs with
  | case1 => simp
  | case2 rest =>
    simp only [List.length_cons]
    omega
  | case3 c rest _ broken after heq ih =>
    rw [heq] at ih
    exact Nat.le_succ_of_le ih

/-- The text after white space and comments, unless a slash stands there that opens no comment. -/
def pastTrivia (lineBreak : Char → Bool) (cs : List Char) : Option (List Char) :=
  match _h : cs.dropWhile isBreakable with
  | '/' :: '/' :: rest => pastTrivia lineBreak (rest.dropWhile (!lineBreak ·))
  | '/' :: '*' :: rest => pastTrivia lineBreak (pastBlock lineBreak rest).2
  | '/' :: _ => none
  | rest => some rest
termination_by cs.length
decreasing_by
  all_goals
    have h1 := length_dropWhile_le isBreakable cs
    rw [_h] at h1
    simp only [List.length_cons] at h1
  · have := length_dropWhile_le (!lineBreak ·) rest
    omega
  · have := length_pastBlock_le lineBreak rest
    omega

/-- Whether the letters of `instanceof` after its first two are followed by another word. -/
def pastInstanceof : List Char → List Char → Bool
  | [], c :: _ => c.isAlpha
  | [], [] => false
  | k :: ks, c :: cs => if c = k then pastInstanceof ks cs else true
  | _ :: _, [] => true

/-- Whether the text after a line break leaves the statement ended: it does not go on with an
operator, a bracket that continues an expression, or `in` and `instanceof`. -/
def endsBefore (dialect : Dialect) (follow : Follow) : List Char → Bool
  | [] => true
  | c :: rest =>
    if "\x60,:;*%><=?^|&/".toList.contains c then false
    else if c = '(' ∨ c = '[' then dialect.hasTypes && !follow.operator
    else if c = '{' then !(dialect.hasTypes && follow.body)
    else if c = '.' then !dialect.hasTypes && rest.head?.any Char.isDigit
    else if c = '+' then rest.head? = some '+'
    else if c = '-' then rest.head? = some '-'
    else if c = '!' then rest.head? ≠ some '='
    else if c = 'i' then
      match rest with
      | 'n' :: more =>
        if more.head?.any Char.isAlpha then pastInstanceof "stanceof".toList more else false
      | _ => true
    else true

/-- Looks past the comments at the front of a JavaScript text: whether a line break was passed, and
the text after them. A slash that opens no comment blocks the view. -/
def pastComments (broken : Bool) (cs : List Char) : Option (Bool × List Char) :=
  match _h : cs.dropWhile isBreakable with
  | '/' :: '/' :: rest => pastComments broken (rest.dropWhile (!isBreak ·))
  | '/' :: '*' :: rest =>
    match _h' : pastBlock isBreak rest with
    | (spans, '/' :: more) => pastComments (broken || spans) ('/' :: more)
    | (spans, after) => some (broken || spans, after)
  | '/' :: _ => none
  | rest => some (true, rest)
termination_by cs.length
decreasing_by
  all_goals
    have h1 := length_dropWhile_le isBreakable cs
    rw [_h] at h1
    simp only [List.length_cons] at h1
  · have := length_dropWhile_le (!isBreak ·) rest
    omega
  · have := length_pastBlock_le isBreak rest
    rw [_h'] at this
    simp only [List.length_cons] at this ⊢
    omega

theorem length_of_pastComments {broken nextLine : Bool} {cs after : List Char}
    (h : pastComments broken cs = some (nextLine, after)) : after.length ≤ cs.length := by
  fun_induction pastComments broken cs with
  | case1 broken cs rest heq ih =>
    have h1 := length_dropWhile_le isBreakable cs
    have h2 := length_dropWhile_le (!isBreak ·) rest
    have := ih h
    simp [heq] at h1
    omega
  | case2 broken cs rest heq spans more heq' ih =>
    have h1 := length_dropWhile_le isBreakable cs
    have h2 := length_pastBlock_le isBreak rest
    have := ih h
    simp [heq, heq'] at h1 h2 this
    omega
  | case3 broken cs rest heq spans after' _ heq' =>
    have h1 := length_dropWhile_le isBreakable cs
    have h2 := length_pastBlock_le isBreak rest
    simp only [Option.some.injEq, Prod.mk.injEq] at h
    simp [heq, heq', h.2] at h1 h2
    omega
  | case4 => simp at h
  | case5 broken cs _ _ =>
    simp only [Option.some.injEq, Prod.mk.injEq] at h
    rw [← h.2]
    exact length_dropWhile_le isBreakable cs

/-- The decision at and after a line break. -/
def atBreak (dialect : Dialect) (follow : Follow) (lineBreak : Char → Bool) (rest : List Char) :
    Bool :=
  match pastTrivia lineBreak rest with
  | none => false
  | some after => endsBefore dialect follow after

/-- The decision for JavaScript. -/
def impliedJavaScript (follow : Follow) (cs : List Char) : Bool :=
  match cs with
  | [] => true
  | '/' :: rest =>
    match _h : pastComments false ('/' :: rest) with
    | none => false
    | some (nextLine, []) => nextLine && !follow.operator
    | some (nextLine, c :: after) =>
      if nextLine && !follow.operator && c ≠ ',' && c ≠ '=' then true
      else if c = '}' then true
      else if isBreak c then atBreak .javascript follow isBreak after
      else isBreakable c && impliedJavaScript follow after
  | c :: rest =>
    if c = '}' then true
    else if isBreak c then atBreak .javascript follow isBreak rest
    else isBreakable c && impliedJavaScript follow rest
termination_by cs.length
decreasing_by
  · have := length_of_pastComments _h
    simp only [List.length_cons] at this ⊢
    omega
  · simp

/-- The decision for TypeScript. -/
def impliedTypeScript (dialect : Dialect) (follow : Follow) : List Char → Bool
  | [] => true
  | '}' :: rest =>
    if (rest.dropWhile isBreakable).head? = some ':' then follow.operator else true
  | '\n' :: rest => atBreak dialect follow (· == '\n') rest
  | c :: rest => isBreakable c && impliedTypeScript dialect follow rest

/-- Whether a statement that may end here does so without a semicolon. -/
def implied (dialect : Dialect) (follow : Follow) (cs : List Char) : Bool :=
  if dialect.hasTypes then impliedTypeScript dialect follow cs
  else impliedJavaScript follow cs

end SourceAtlas.Syntax.Semicolon
