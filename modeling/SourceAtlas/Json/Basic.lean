/-!
# JSON values

A JSON value as a text states it: objects keep the order of their members and repeated names, and
numbers that are no natural numbers are told apart only from those that are.
-/

namespace SourceAtlas

/-- A JSON value. -/
inductive Json where
  | null
  | truth (b : Bool)
  | natural (n : Nat)
  /-- A number with a sign, a fraction or an exponent. -/
  | real
  /-- A string; one with half of a surrogate pair has no characters. -/
  | string (text : Option (List Char))
  | array (items : List Json)
  | object (members : List (Option (List Char) × Json))
deriving Repr, Inhabited

namespace Json

/-- The value of a string. -/
def ofString (s : String) : Json := .string (some s.toList)

/-- An object of the fields that have a value. -/
def ofFields (fields : List (String × Option Json)) : Json :=
  .object (fields.filterMap fun (name, value) => value.map fun v => (some name.toList, v))

end Json

end SourceAtlas
