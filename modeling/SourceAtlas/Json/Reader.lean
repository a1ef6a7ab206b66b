import SourceAtlas.Json.Basic
import SourceAtlas.Text.Affix

/-!
# Reading JSON

`Json.parse?` reads a text that holds exactly one value.
-/

namespace SourceAtlas.Json

open Text

/-- The characters between the parts of a value. -/
def isGap (c : Char) : Bool := c == ' ' || c == '\t' || c == '\n' || c == '\r'

/-- A text without the gap in front of it. -/
def skipGap (cs : List Char) : List Char := cs.dropWhile isGap

/-! ### Strings -/

/-- The value of a hexadecimal digit. -/
def hexDigit? (c : Char) : Option Nat :=
  if c.isDigit then some (c.toNat - '0'.toNat)
  else if 'a' ≤ c && c ≤ 'f' then some (c.toNat - 'a'.toNat + 10)
  else if 'A' ≤ c && c ≤ 'F' then some (c.toNat - 'A'.toNat + 10)
  else none

/-- The value of four hexadecimal digits. -/
def hex4? (a b c d : Char) : Option Nat := do
  return (((← hexDigit? a) * 16 + (← hexDigit? b)) * 16 + (← hexDigit? c)) * 16 + (← hexDigit? d)

/-- The character that an escape of one letter stands for. -/
def escaped? : Char → Option Char
  | '"' => some '"'
  | '\\' => some '\\'
  | '/' => some '/'
  | 'b' => some '\x08'
  | 'f' => some '\x0c'
  | 'n' => some '\n'
  | 'r' => some '\r'
  | 't' => some '\t'
  | _ => none

/-- Whether a unit is the first half of a surrogate pair. -/
def isHighSurrogate (n : Nat) : Bool := 0xd800 ≤ n && n ≤ 0xdbff

/-- Whether a unit is the second half of a surrogate pair. -/
def isLowSurrogate (n : Nat) : Bool := 0xdc00 ≤ n && n ≤ 0xdfff

/-- The characters of a string after its opening quote, and the text after its closing quote. The
pending unit is the first half of a surrogate pair whose second half must come next. -/
def stringTail? (pending : Option Nat) : List Char → Option (Option (List Char) × List Char)
  | '\\' :: 'u' :: a :: b :: c :: d :: cs => do
    let unit ← hex4? a b c d
    if isHighSurrogate unit then
      let (text, rest) ← stringTail? (some unit) cs
      return (if pending.isSome then none else text, rest)
    else
      let (text, rest) ← stringTail? none cs
      let value := match pending with
        | some high =>
          if isLowSurrogate unit then
            text.map (Char.ofNat (0x10000 + (high - 0xd800) * 0x400 + (unit - 0xdc00)) :: ·)
          else none
        | none => if isLowSurrogate unit then none else text.map (Char.ofNat unit :: ·)
      return (value, rest)
  | '\\' :: letter :: cs => do
    let c ← escaped? letter
    let (text, rest) ← stringTail? none cs
    return (if pending.isSome then none else text.map (c :: ·), rest)
  | ['\\'] => none
  | '"' :: cs => some (if pending.isSome then none else some [], cs)
  | c :: cs =>
    if c.toNat < 0x20 then none
    else do
      let (text, rest) ← stringTail? none cs
      return (if pending.isSome then none else text.map (c :: ·), rest)
  | [] => none

/-! ### Numbers -/

/-- Digits and the text after them; there must be at least one. -/
def digits? (cs : List Char) : Option (List Char × List Char) :=
  match cs.takeWhile Char.isDigit with
  | [] => none
  | digits => some (digits, cs.dropWhile Char.isDigit)

/-- The whole part of a number, which has no leading zero. -/
def whole? (cs : List Char) : Option (List Char × List Char) :=
  match digits? cs with
  | some ('0' :: _ :: _, _) => none
  | found => found

/-- The text after a fraction, and whether there is one. -/
def fraction? : List Char → Option (Bool × List Char)
  | '.' :: cs => (digits? cs).map fun (_, rest) => (true, rest)
  | cs => some (false, cs)

/-- The text after an exponent, and whether there is one. -/
def exponent? : List Char → Option (Bool × List Char)
  | c :: cs =>
    if c == 'e' || c == 'E' then
      let digits := match cs with
        | '+' :: rest => rest
        | '-' :: rest => rest
        | rest => rest
      (digits? digits).map fun (_, rest) => (true, rest)
    else some (false, c :: cs)
  | [] => some (false, [])

/-- The value of decimal digits. -/
def decimalValue (digits : List Char) : Nat :=
  digits.foldl (fun value c => value * 10 + (c.toNat - '0'.toNat)) 0

/-- A number and the text after it. -/
def number? (cs : List Char) : Option (Json × List Char) := do
  let (negative, rest) := match cs with
    | '-' :: rest => (true, rest)
    | rest => (false, rest)
  let (digits, rest) ← whole? rest
  let (hasFraction, rest) ← fraction? rest
  let (hasExponent, rest) ← exponent? rest
  let isReal := negative || hasFraction || hasExponent
  return (if isReal then real else natural (decimalValue digits), rest)

/-! ### Values -/

/-- A value given by a word. -/
def word? (cs : List Char) : Option (Json × List Char) :=
  [("null", null), ("true", truth true), ("false", truth false)].findSome? fun (word, value) =>
    (word.toList.isPrefixOf? cs).map fun rest => (value, rest)

mutual

/-- A value and the text after it. -/
def value? : Nat → List Char → Option (Json × List Char)
  | 0, _ => none
  | bound + 1, cs =>
    match skipGap cs with
    | '{' :: rest =>
      match skipGap rest with
      | '}' :: rest => some (.object [], rest)
      | rest => (members? bound rest).map fun (members, rest) => (.object members, rest)
    | '[' :: rest =>
      match skipGap rest with
      | ']' :: rest => some (.array [], rest)
      | rest => (items? bound rest).map fun (items, rest) => (.array items, rest)
    | '"' :: rest => (stringTail? none rest).map fun (text, rest) => (.string text, rest)
    | rest => (word? rest).or (number? rest)

/-- The items of an array up to its closing bracket. -/
def items? : Nat → List Char → Option (List Json × List Char)
  | 0, _ => none
  | bound + 1, cs => do
    let (item, rest) ← value? bound cs
    match skipGap rest with
    | ']' :: rest => return ([item], rest)
    | ',' :: rest =>
      let (items, rest) ← items? bound rest
      return (item :: items, rest)
    | _ => none

/-- The members of an object up to its closing brace. -/
def members? : Nat → List Char → Option (List (Option (List Char) × Json) × List Char)
  | 0, _ => none
  | bound + 1, cs =>
    match skipGap cs with
    | '"' :: rest => do
      let (name, rest) ← stringTail? none rest
      match skipGap rest with
      | ':' :: rest =>
        let (value, rest) ← value? bound rest
        match skipGap rest with
        | '}' :: rest => return ([(name, value)], rest)
        | ',' :: rest =>
          let (members, rest) ← members? bound rest
          return ((name, value) :: members, rest)
        | _ => none
      | _ => none
    | _ => none

end

/-- The value that a text holds. -/
def parse? (cs : List Char) : Option Json :=
  match value? (cs.length + 1) cs with
  | some (value, rest) => if (skipGap rest).isEmpty then some value else none
  | none => none

/-! ### Parts of values -/

/-- A natural number of at most sixty-four bits. -/
def toNat? : Json → Option Nat
  | .natural n => if n < Nat.pow 2 64 then some n else none
  | _ => none

/-- A truth value. -/
def toBool? : Json → Option Bool
  | .truth b => some b
  | _ => none

/-- The characters of a string. -/
def toString? : Json → Option String
  | .string (some s) => some (String.ofList s)
  | _ => none

/-- The items of an array. -/
def toList? : Json → Option (List Json)
  | .array items => some items
  | _ => none

/-- A value that may be missing or null. -/
def optional? {α : Type} (decode : Json → Option α) : Option Json → Option (Option α)
  | none => some none
  | some .null => some none
  | some value => (decode value).map some

/-- The fields of a record with the given names: the members of an object, of which those with a
known name must not be repeated, or the items of an array in the order of the names. -/
def fields? (names : List String) : Json → Option (List (List Char × Json))
  | .object members => do
    let members ← members.mapM fun (name, value) => name.map fun n => (n, value)
    let known := members.filter fun (name, _) => names.any fun n => n.toList = name
    if (known.map Prod.fst).Nodup then some known else none
  | .array items =>
    if items.length ≤ names.length then some ((names.map String.toList).zip items) else none
  | _ => none

/-- The field with a name. -/
def field? (fields : List (List Char × Json)) (name : String) : Option Json :=
  (fields.find? fun (n, _) => n = name.toList).map Prod.snd

end SourceAtlas.Json
