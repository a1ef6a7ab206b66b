import SourceAtlas.DocComment.Fields
import SourceAtlas.Syntax.Tree

/-!
# The functions of a file

The inventory lists the named functions at the top level of a file in three groups: declared
functions, functions bound to variables, and methods of classes, each group in source order. A
function is documented by the nearest documentation comment in the run of comments directly above
the statement or the method.
-/

namespace SourceAtlas

open Text Syntax

/-- How a function comes into being. -/
inductive FunctionGroup where
  | declared
  | bound
  | method
deriving Repr, DecidableEq, Inhabited

/-- A function at the top level of a file, perhaps without a name, with the comments directly above
it, nearest first. -/
structure Candidate where
  group : FunctionGroup
  name : Option (List Char)
  comments : List (List Char)
deriving Repr, DecidableEq, Inhabited

namespace Candidate

/-- The comment that documents a function: the nearest one that opens like documentation. -/
def docComment? (comments : List (List Char)) : Option (List Char) :=
  comments.find? (List.isPrefixOf Comment.docOpening)

/-- The entry of a function with the documentation above it. Functions without a name have none. -/
def entry? (candidate : Candidate) : Option FunctionEntry :=
  (candidate.name.bind nonEmpty?).map fun name =>
    let entry : FunctionEntry := { name := String.ofList name }
    match (docComment? candidate.comments).bind DocComment.parse? with
    | some doc => doc.document entry
    | none => entry

/-- The function that a variable is bound to. Its own name counts before the variable's. -/
def ofDeclarator? (comments : List (List Char)) : Declarator → Option Candidate
  | .mk name _ (some (.arrow _)) => some ⟨.bound, name, comments⟩
  | .mk name _ (some (.function own _)) => some ⟨.bound, own.or name, comments⟩
  | .mk name _ (some (.generator own _)) => some ⟨.bound, own.or name, comments⟩
  | _ => none

/-- The name of a method: after the name of its class, if the class has one. -/
def methodName (className : Option (List Char)) (name : List Char) : List Char :=
  match className with
  | some owner => owner ++ '.' :: name
  | none => name

/-- The methods of a class other than its constructor and its accessors, given the comments passed
since the last member. -/
def ofMembers (className : Option (List Char)) :
    List (List Char) → List Member → List Candidate
  | _, [] => []
  | comments, .comment comment :: members =>
    ofMembers className (comment.text :: comments) members
  | comments, .method accessor name _ :: members =>
    let others := ofMembers className [] members
    if accessor || name = "constructor".toList then others
    else ⟨.method, some (methodName className name), comments⟩ :: others
  | _, .other _ :: members => ofMembers className [] members

/-- The functions of a declaration, given the comments directly above its statement. -/
def ofDeclaration (comments : List (List Char)) : Item → List Candidate
  | .declared (.function name _) => [⟨.declared, name, comments⟩]
  | .declared (.generator name _) => [⟨.declared, name, comments⟩]
  | .declared (.classOf name members) => ofMembers name [] members
  | .variables declarators => declarators.filterMap (ofDeclarator? comments)
  | _ => []

/-- The functions of a statement, which may export them, given the comments directly above it. -/
def ofItem (comments : List (List Char)) (item : Item) : List Candidate :=
  ofDeclaration comments item.declaration

/-- The functions of a list of items in source order, given the comments passed since the last
statement. -/
def ofItems : List (List Char) → List Item → List Candidate
  | _, [] => []
  | comments, .comment comment :: items => ofItems (comment.text :: comments) items
  | comments, item :: items => ofItem comments item ++ ofItems [] items

/-- The candidates of one group, in order. -/
def ofGroup (group : FunctionGroup) (candidates : List Candidate) : List Candidate :=
  candidates.filter fun candidate => candidate.group = group

end Candidate

/-- The named functions at the top level of a file: declared ones, bound ones, then methods. -/
def functionEntries (items : List Item) : List FunctionEntry :=
  let candidates := Candidate.ofItems [] items
  ([.declared, .bound, .method].flatMap fun group => Candidate.ofGroup group candidates).filterMap
    Candidate.entry?

end SourceAtlas
