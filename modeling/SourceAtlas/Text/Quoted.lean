import SourceAtlas.Text.Unprintable

/-!
# Quoted text in messages

`quote` writes a text between double quotes so that every character of it can be seen: quotes and
backslashes are escaped, and characters without a visible form are written by their code point.
-/

namespace SourceAtlas.Text

/-- A character by its code point in hexadecimal, between braces. -/
def codePointEscape (c : Char) : List Char :=
  ['\\', 'u', '{'] ++ Nat.toDigits 16 c.toNat ++ ['}']

/-- One character of a quoted text. -/
def quoteChar (c : Char) : List Char :=
  match c with
  | '\x00' => ['\\', '0']
  | '\t' => ['\\', 't']
  | '\r' => ['\\', 'r']
  | '\n' => ['\\', 'n']
  | '"' => ['\\', '"']
  | '\\' => ['\\', '\\']
  | _ => if extendsGrapheme c || isUnprintable c then codePointEscape c else [c]

/-- A text between double quotes, with every character visible. -/
def quote (s : String) : String :=
  String.ofList (['"'] ++ s.toList.flatMap quoteChar ++ ['"'])

end SourceAtlas.Text
