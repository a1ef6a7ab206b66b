import SourceAtlas.Text.Affix

/-!
# Plain scalars with a meaning of their own

A scalar without quotes may stand for null, for a truth value or for a number. `isTyped` recognises
those texts, so that a text which only looks like one of them can be written in quotes.
-/

namespace SourceAtlas.Yaml

open Text

/-- Whether a plain scalar stands for null. -/
def isNull (s : List Char) : Bool :=
  ["null", "Null", "NULL", "~"].any fun word => s = word.toList

/-- The truth value that a plain scalar stands for. -/
def truth? (s : List Char) : Option Bool :=
  if ["true", "True", "TRUE"].any fun word => s = word.toList then some true
  else if ["false", "False", "FALSE"].any fun word => s = word.toList then some false
  else none

/-! ### Whole numbers -/

/-- The value of a digit in bases up to sixteen. -/
def digit? (c : Char) : Option Nat :=
  if c.isDigit then some (c.toNat - '0'.toNat)
  else if 'a' ≤ c && c ≤ 'f' then some (c.toNat - 'a'.toNat + 10)
  else if 'A' ≤ c && c ≤ 'F' then some (c.toNat - 'A'.toNat + 10)
  else none

/-- The value of digits in a base, after the value of those before them. -/
def numeral? (base : Nat) : Nat → List Char → Option Nat
  | value, [] => some value
  | value, c :: cs =>
    match digit? c with
    | some d => if d < base then numeral? base (value * base + d) cs else none
    | none => none

/-- Whether a text is a numeral in a base that is at most a limit. -/
def isNumeral (base limit : Nat) (s : List Char) : Bool :=
  !s.isEmpty && (numeral? base 0 s).any (· ≤ limit)

/-- A text without one leading sign of the given ones. -/
def dropSign (signs : List Char) : List Char → List Char
  | c :: cs => if signs.contains c then cs else c :: cs
  | [] => []

/-- Whether digits with a leading zero stand for themselves. -/
def hasLeadingZero (s : List Char) : Bool :=
  match dropSign ['-', '+'] s with
  | '0' :: d :: ds => (d :: ds).all Char.isDigit
  | _ => false

/-- The largest whole number. -/
def maxWhole : Nat := Nat.pow 2 128 - 1

/-- The size of the smallest whole number. -/
def maxNegative : Nat := Nat.pow 2 127

/-- Whether a text is a numeral in the base that its first two characters name. -/
def isBased (limit : Nat) : List Char → Bool
  | '0' :: 'x' :: s => isNumeral 16 limit s
  | '0' :: 'o' :: s => isNumeral 8 limit s
  | '0' :: 'b' :: s => isNumeral 2 limit s
  | _ => false

/-- Whether a plain scalar stands for a whole number. -/
def isWhole (s : List Char) : Bool :=
  match s with
  | '-' :: rest => isBased maxNegative rest || (!hasLeadingZero s && isNumeral 10 maxNegative rest)
  | _ =>
    let rest := dropSign ['+'] s
    isBased maxWhole rest || (!hasLeadingZero s && isNumeral 10 maxWhole rest)

/-! ### Decimal numbers -/

/-- The exponent of a decimal number, without its mark. -/
def exponent? (s : List Char) : Option Int :=
  match s with
  | '-' :: ds => if ds.isEmpty then none else (numeral? 10 0 ds).map fun n => -(n : Int)
  | _ =>
    let ds := dropSign ['+'] s
    if ds.isEmpty then none else (numeral? 10 0 ds).map fun n => (n : Int)

/-- The digits of a decimal number and the power of ten that scales them. -/
def decimal? (s : List Char) : Option (List Char × Int) :=
  let whole := s.takeWhile Char.isDigit
  let rest := s.dropWhile Char.isDigit
  let (fraction, rest) := match rest with
    | '.' :: after => (after.takeWhile Char.isDigit, after.dropWhile Char.isDigit)
    | _ => ([], rest)
  if whole.isEmpty && fraction.isEmpty then none
  else
    let scale : Int := -(fraction.length : Int)
    match rest with
    | [] => some (whole ++ fraction, scale)
    | c :: after =>
      if c == 'e' || c == 'E' then
        (exponent? after).map fun e => (whole ++ fraction, e + scale)
      else none

/-- From this value on a number is too large for sixty-four bits. -/
def overflow : Nat := Nat.pow 2 1024 - Nat.pow 2 970

/-- Whether digits scaled by a power of ten stay below the largest number. -/
def isFinite (digits : List Char) (scale : Int) : Bool :=
  let significant := digits.dropWhile (· = '0')
  let size : Int := significant.length + scale
  let value := (numeral? 10 0 significant).getD 0
  if significant.isEmpty || size < 300 then true
  else if 400 < size then false
  else if 0 ≤ scale then value * Nat.pow 10 scale.toNat < overflow
  else value < overflow * Nat.pow 10 (-scale).toNat

/-- The names of the values that are no decimals. -/
def isSpecialNumber (s : List Char) : Bool :=
  [".inf", ".Inf", ".INF", "+.inf", "+.Inf", "+.INF", "-.inf", "-.Inf", "-.INF",
    ".nan", ".NaN", ".NAN"].any fun word => s = word.toList

/-- Whether a plain scalar stands for a number that need not be whole. -/
def isReal (s : List Char) : Bool :=
  isSpecialNumber s || (!hasLeadingZero s &&
    (decimal? (dropSign ['-', '+'] s)).any fun (digits, scale) => isFinite digits scale)

/-- Whether a plain scalar stands for something other than its text, or looks as if it did. -/
def isTyped (s : List Char) : Bool :=
  s.isEmpty || isNull s || (truth? s).isSome || isWhole s || isReal s || hasLeadingZero s

end SourceAtlas.Yaml
