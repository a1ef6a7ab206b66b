import SourceAtlas.Syntax.Lexeme

/-!
# Syntax trees of source files

A source file is a list of items: comments and statements in source order. Of a statement the tree
keeps what the inventory asks for: the module an import names, the functions and classes that are
declared, the values that variables are bound to, whether a declaration is exported, lacks a body or
speaks of something defined elsewhere, and everywhere the statements nested inside, since an import may
stand there too.
-/

namespace SourceAtlas.Syntax

mutual

/-- An item of a list of statements. -/
inductive Item where
  /-- A comment. -/
  | comment (comment : SourceComment)
  /-- The interpreter line at the start of a file. -/
  | interpreterLine
  /-- An import, with the module's specifier as written, quotes included. -/
  | importFrom (source : List Char)
  /-- A declared function or class, or the value of a default export. -/
  | declared (value : Value)
  /-- A declaration of variables. -/
  | variables (declarators : List Declarator)
  /-- An export of a declaration or of a value. -/
  | exported (content : Item)
  /-- A function that is declared without a body. -/
  | signature (name : List Char) (inner : List Item)
  /-- A declaration of something that is defined elsewhere. -/
  | ambient (content : Item)
  /-- Any other statement, with the statements nested in it. -/
  | other (inner : List Item)

/-- The value of an expression, as far as the inventory tells values apart. -/
inductive Value where
  /-- An arrow function. -/
  | arrow (inner : List Item)
  /-- A function, perhaps with a name of its own. -/
  | function (name : Option (List Char)) (inner : List Item)
  /-- A generator function, perhaps with a name of its own. -/
  | generator (name : Option (List Char)) (inner : List Item)
  /-- A class, perhaps with a name of its own. -/
  | classOf (name : Option (List Char)) (members : List Member)
  /-- Any other value, with the statements nested in it. -/
  | other (inner : List Item)

/-- A variable of a declaration: its name, unless it is a pattern, and its value, if it has one. -/
inductive Declarator where
  | mk (name : Option (List Char)) (inner : List Item) (value : Option Value)

/-- An item of a class body. -/
inductive Member where
  /-- A comment. -/
  | comment (comment : SourceComment)
  /-- A method with a body; accessors read or write a property. -/
  | method (accessor : Bool) (name : List Char) (inner : List Item)
  /-- Anything else in a class body, with the statements nested in it. -/
  | other (inner : List Item)

end

instance : Inhabited Item := ⟨.interpreterLine⟩
instance : Inhabited Value := ⟨.other []⟩
instance : Inhabited Member := ⟨.other []⟩
instance : Inhabited Declarator := ⟨.mk none [] none⟩

/-- What a statement declares: for an export, what it exports. -/
def Item.declaration : Item → Item
  | .exported content => content
  | item => item

/-- The statements nested in a member of a class. -/
def Member.inner : Member → List Item
  | .comment _ => []
  | .method _ _ inner => inner
  | .other inner => inner

/-- The statements nested in a value. -/
def Value.inner : Value → List Item
  | .arrow inner => inner
  | .function _ inner => inner
  | .generator _ inner => inner
  | .classOf _ members => members.flatMap Member.inner
  | .other inner => inner

mutual

/-- The specifiers of all imports in an item, as written, in source order. -/
def Item.imports : Item → List (List Char)
  | .comment _ => []
  | .interpreterLine => []
  | .importFrom source => [source]
  | .declared value => Value.imports value
  | .variables declarators => declaratorImports declarators
  | .exported content => Item.imports content
  | .signature _ inner => itemImports inner
  | .ambient content => Item.imports content
  | .other inner => itemImports inner

/-- The specifiers of all imports in a list of items. -/
def itemImports : List Item → List (List Char)
  | [] => []
  | item :: items => Item.imports item ++ itemImports items

/-- The specifiers of all imports in a value. -/
def Value.imports : Value → List (List Char)
  | .arrow inner => itemImports inner
  | .function _ inner => itemImports inner
  | .generator _ inner => itemImports inner
  | .classOf _ members => memberImports members
  | .other inner => itemImports inner

/-- The specifiers of all imports in a declared variable. -/
def Declarator.imports : Declarator → List (List Char)
  | .mk _ inner none => itemImports inner
  | .mk _ inner (some value) => itemImports inner ++ Value.imports value

/-- The specifiers of all imports in a list of declared variables. -/
def declaratorImports : List Declarator → List (List Char)
  | [] => []
  | declarator :: declarators => Declarator.imports declarator ++ declaratorImports declarators

/-- The specifiers of all imports in a member of a class. -/
def Member.imports : Member → List (List Char)
  | .comment _ => []
  | .method _ _ inner => itemImports inner
  | .other inner => itemImports inner

/-- The specifiers of all imports in a class body. -/
def memberImports : List Member → List (List Char)
  | [] => []
  | member :: members => Member.imports member ++ memberImports members

end

end SourceAtlas.Syntax
