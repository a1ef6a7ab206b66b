/-!
# Source languages

The two languages whose files are catalogued, and the three grammars they are read by: JavaScript
with markup elements, TypeScript without them, and TypeScript with them.
-/

namespace SourceAtlas

/-- A language whose source files can be catalogued. -/
inductive Language where
  | javascript
  | typescript
deriving Repr, DecidableEq, Inhabited

/-- The grammar that a source file is read by. -/
inductive Dialect where
  | javascript
  | typescript
  | typescriptMarkup
deriving Repr, DecidableEq, Inhabited

namespace Language

/-- The name of a language. -/
def name : Language → String
  | javascript => "javascript"
  | typescript => "typescript"

/-- The file extensions of a language, without the dot. -/
def extensions : Language → List String
  | javascript => ["js", "jsx", "mjs", "cjs"]
  | typescript => ["ts", "tsx", "mts", "cts"]

/-- The language of the files with an extension. -/
def ofExtension? (extension : String) : Option Language :=
  [javascript, typescript].find? fun language => language.extensions.contains extension

/-- The grammar for files of a language with an extension. -/
def dialect (language : Language) (extension : String) : Dialect :=
  match language with
  | javascript => .javascript
  | typescript => if extension = "tsx" then .typescriptMarkup else .typescript

end Language

namespace Dialect

/-- Whether types may be annotated. -/
def hasTypes : Dialect → Bool
  | javascript => false
  | typescript | typescriptMarkup => true

end Dialect

end SourceAtlas
