import SourceAtlas.DocComment.Basic
import SourceAtlas.Inventory.Basic
import SourceAtlas.Text.Word

/-!
# Parameters and returned values in documentation tags

A parameter tag reads `@param {type} name - description`, where type and description may be
missing and the name may stand in brackets with a default value. A return tag reads
`@returns {type} description`. `DocComment.document` puts what the tags say into a function's entry.
-/

namespace SourceAtlas

open Text

/-- A parameter, or a returned value, as written in a tag. -/
structure TagField where
  type : Option (List Char) := none
  name : List Char := []
  description : List Char := []
deriving Repr, DecidableEq, Inhabited

namespace DocTag

/-- The characters of a parameter's name. -/
def isParamNameChar (c : Char) : Bool := isWord c || c == '$' || c == '.'

/-- A type between braces, which is not empty, and the text after it. -/
def bracedType? : List Char → Option (List Char × List Char)
  | '{' :: rest =>
    match rest.takeWhile (· ≠ '}'), rest.dropWhile (· ≠ '}') with
    | c :: cs, '}' :: after => some (c :: cs, after)
    | _, _ => none
  | _ => none

/-- The text after the default value of a parameter, if it has one, and one closing bracket. -/
def afterDefault (cs : List Char) : List Char :=
  let rest := match cs with
    | '=' :: value => value.dropWhile (· ≠ ']')
    | _ => cs
  match rest with
  | ']' :: after => after
  | _ => rest

/-- A parameter's name, perhaps in brackets with a default value, and the text after it. -/
def paramName? (cs : List Char) : Option (List Char × List Char) :=
  let inner := match cs with
    | '[' :: rest => rest
    | _ => cs
  match inner.takeWhile isParamNameChar with
  | [] => none
  | name => some (name, afterDefault (inner.dropWhile isParamNameChar))

/-- The text of the line after a dash, if a dash comes next. -/
def afterDash (cs : List Char) : List Char :=
  match trimStart cs with
  | '-' :: rest => (trimStart rest).takeWhile (· ≠ '\n')
  | _ => []

/-- The blank-separated text after a keyword, if the text starts with the keyword and a blank. -/
def afterKeyword? (keyword cs : List Char) : Option (List Char) :=
  match keyword.isPrefixOf? cs with
  | some (c :: rest) => if isBlank c then some (trimStart rest) else none
  | _ => none

/-- A parameter written at the start of a text. -/
def paramAt? (cs : List Char) : Option TagField :=
  (afterKeyword? "@param".toList cs).bind fun rest =>
    let (type, rest) := match bracedType? rest with
      | some (type, after) => (some type, trimStart after)
      | none => (none, rest)
    (paramName? rest).map fun (name, after) => ⟨type, name, afterDash after⟩

/-- The first parameter written anywhere in a text. -/
def findParam? : List Char → Option TagField
  | [] => none
  | c :: cs => (paramAt? (c :: cs)).or (findParam? cs)

/-- A returned value written at the start of a text. -/
def returnAt? (cs : List Char) : Option TagField :=
  ((afterKeyword? "@returns".toList cs).or (afterKeyword? "@return".toList cs)).map fun rest =>
    let (type, rest) := match bracedType? rest with
      | some (type, after) => (some type, trimStart after)
      | none => (none, rest)
    ⟨type, [], rest.takeWhile (· ≠ '\n')⟩

/-- The first returned value written anywhere in a text. -/
def findReturn? : List Char → Option TagField
  | [] => none
  | c :: cs => (returnAt? (c :: cs)).or (findReturn? cs)

/-- The text after a leading type between braces and the blanks after it. -/
def withoutType (cs : List Char) : List Char :=
  match cs with
  | '{' :: rest =>
    match rest.dropWhile (· ≠ '}') with
    | '}' :: after => trimStart after
    | _ => cs
  | _ => cs

/-- The text after a leading parameter name and the blanks after it. -/
def withoutName (cs : List Char) : List Char :=
  match paramName? cs with
  | some (_, after) => trimStart after
  | none => cs

/-- A text without the dash in front of it, unless nothing is left. -/
def withoutDash? (cs : List Char) : Option (List Char) :=
  match trim cs with
  | '-' :: rest => nonEmpty? (trim rest)
  | rest => nonEmpty? rest

/-- The parameter that a tag documents. -/
def parameter? (tag : DocTag) : Option Parameter :=
  (findParam? tag.text).map fun field =>
    { name := String.ofList field.name
      type := field.type.map fun type => String.ofList (trim type)
      description := ((nonEmpty? (trim field.description)).or
        (withoutDash? (withoutName (withoutType tag.body)))).map String.ofList }

/-- The returned value that a tag documents, unless the tag says nothing. -/
def returned? (tag : DocTag) : Option Returned :=
  let comment := withoutDash? (withoutType tag.body)
  let info : Returned := match findReturn? tag.text with
    | some field =>
      { type := field.type.map fun type => String.ofList (trim type)
        description := ((nonEmpty? (trim field.description)).or comment).map String.ofList }
    | none => { description := comment.map String.ofList }
  if info.isEmpty then none else some info

/-- Adds what a tag says to a function's entry: parameters collect, the last returned value wins. -/
def document (entry : FunctionEntry) (tag : DocTag) : FunctionEntry :=
  if tag.name = "param".toList then
    { entry with params := entry.params ++ tag.parameter?.toList }
  else if tag.name = "return".toList ∨ tag.name = "returns".toList then
    { entry with returns := tag.returned?.or entry.returns }
  else entry

end DocTag

/-- Puts the description and the tags of a comment into a function's entry. -/
def DocComment.document (doc : DocComment) (entry : FunctionEntry) : FunctionEntry :=
  doc.tags.foldl DocTag.document { entry with description := doc.description.map String.ofList }

end SourceAtlas
