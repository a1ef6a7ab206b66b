import SourceAtlas.Syntax.Markup
import SourceAtlas.Syntax.Statement

/-!
# The grammar of a source file

`Grammar.rules` ties the rules of all constructs together; the bound limits how deeply they may
nest. `parse` reads a source file into its items. A statement that does not belong to the grammar is
passed over.
-/

namespace SourceAtlas.Syntax

open Text

namespace Grammar

/-- The rule of a goal, given rules for the constructs nested in it. -/
def step (dialect : Dialect) (bound : Nat) (rules : Rules) : Rules
  | _, .items => Statement.items bound rules
  | _, .statement => Statement.statement dialect bound rules
  | _, .block => Statement.block rules
  | _, .expression place => Expression.expression dialect bound rules place
  | _, .assignment place => Expression.assignment dialect bound rules place
  | _, .operand place => Expression.operand dialect bound rules place
  | _, .parenthesized => Expression.parenthesized dialect bound rules
  | _, .bracketed => Expression.bracketed dialect bound rules
  | _, .object => Expression.object dialect bound rules
  | _, .template => Expression.template bound rules
  | _, .markup => Markup.element dialect bound rules
  | _, .classBody => ClassBody.classBody dialect bound rules
  | _, .type place => TypeNotation.type dialect bound rules place
  | _, .typeArguments => TypeNotation.arguments bound rules
  | _, .typeParameters => TypeNotation.parameters bound rules

/-- The rules for constructs that nest at most as deeply as the bound says. -/
def rules (dialect : Dialect) : Nat → Rules
  | 0 => fun _ _ => failure
  | bound + 1 => step dialect bound (rules dialect bound)

end Grammar

/-- The interpreter line at the start of a file with the comments before it, and the text after it,
if there is such a line. -/
def interpreterLine? (cs : List Char) : Option (List Item × List Char) :=
  match _h : comment? (cs.dropWhile isSpace) with
  | some (comment, rest) =>
    (interpreterLine? rest).map fun (items, after) => (.comment comment :: items, after)
  | none =>
    match cs.dropWhile isSpace with
    | '#' :: '!' :: rest => some ([.interpreterLine], rest.dropWhile (· ≠ '\n'))
    | _ => none
termination_by cs.length
decreasing_by
  have := length_of_comment? _h
  have := length_dropWhile_le isSpace cs
  omega

/-- A bound on the depth of nesting in a text: every character opens a few constructs at most. -/
def nestingBound (cs : List Char) : Nat := 16 * cs.length + 64

/-- The text from the next line that has something other than a closing bracket in its first
column. -/
def nextLine : List Char → List Char
  | [] => []
  | '\n' :: c :: rest =>
    if isSpace c || ")]\x7d".toList.contains c then nextLine (c :: rest) else c :: rest
  | _ :: rest => nextLine rest

/-- The items of a text. A statement that does not belong to the grammar is passed over, and reading
goes on with the next line that can start a statement. The bound limits how often that happens. -/
def itemsOf (rules : Rules) : Nat → List Char → List Item
  | 0, _ => []
  | bound + 1, cs =>
    match rules _ .items cs with
    | none => []
    | some (items, rest) =>
      if (skipTrivia rest).isEmpty then items else items ++ itemsOf rules bound (nextLine rest)

/-- The items of a source file. -/
def parse (dialect : Dialect) (source : List Char) : List Item :=
  let (first, rest) := (interpreterLine? source).getD ([], source)
  first ++ itemsOf (Grammar.rules dialect (nestingBound source)) source.length.succ rest

end SourceAtlas.Syntax
