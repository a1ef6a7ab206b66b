/-!
# What is recorded about a source file

A `FileEntry` lists what a reader wants to know about one file: its leading description, the
modules it imports, and its named functions with their documentation.
-/

namespace SourceAtlas

/-- A documented parameter of a function. -/
structure Parameter where
  name : String
  type : Option String := none
  description : Option String := none
deriving Repr, DecidableEq, Inhabited

/-- What the documentation says about the returned value. -/
structure Returned where
  type : Option String := none
  description : Option String := none
deriving Repr, DecidableEq, Inhabited

/-- Whether nothing is said about the returned value. -/
def Returned.isEmpty (r : Returned) : Bool := r.type.isNone && r.description.isNone

/-- A named function with its documentation. -/
structure FunctionEntry where
  name : String
  description : Option String := none
  params : List Parameter := []
  returns : Option Returned := none
deriving Repr, DecidableEq, Inhabited

/-- A source file: its name, its path below the project's root, and its contents' inventory. -/
structure FileEntry where
  name : String
  path : String
  description : Option String := none
  externalImports : List String := []
  internalImports : List String := []
  functions : List FunctionEntry := []
deriving Repr, DecidableEq, Inhabited

end SourceAtlas
