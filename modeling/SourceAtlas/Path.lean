import SourceAtlas.Text.Affix

/-!
# Paths

A path is a text whose segments are divided by slashes. Repeated and trailing slashes and inner `.`
segments do not matter. `Path.clean` shortens a path, `Path.normalize?` evaluates it below a root, and
`Path.relative?` expresses a path below a directory.
-/

namespace SourceAtlas.Path

open Text

/-- A significant part of a path. -/
inductive Component where
  /-- The slash at the start of an absolute path. -/
  | root
  /-- A `.` at the start of a relative path. -/
  | current
  /-- A `..` segment. -/
  | parent
  /-- A named segment. -/
  | name (segment : List Char)
deriving Repr, DecidableEq, Inhabited

/-- Whether a path starts at the root of the file system. -/
def isAbsolute (path : List Char) : Bool := path.head? = some '/'

/-- The segments of a path that are neither empty nor `.`. -/
def segments (path : List Char) : List (List Char) :=
  (path.splitOn '/').filter fun segment => !segment.isEmpty && segment ≠ ['.']

/-- The component that a segment stands for. -/
def Component.ofSegment (segment : List Char) : Component :=
  if segment = ['.', '.'] then .parent else .name segment

/-- The named segment that a component stands for. -/
def Component.name? : Component → Option (List Char)
  | .name segment => some segment
  | _ => none

/-- Where a path starts: at the root, explicitly in the current directory, or implicitly there. -/
def start (path : List Char) : List Component :=
  if isAbsolute path then [.root]
  else if (path.splitOn '/').head? = some ['.'] then [.current]
  else []

/-- The significant parts of a path. -/
def components (path : List Char) : List Component :=
  start path ++ (segments path).map Component.ofSegment

/-- The last component of a path, if it is a named segment. -/
def fileName? (path : List Char) : Option (List Char) :=
  (components path).getLast?.bind Component.name?

/-- The part of a file name after its last dot, unless nothing stands before that dot. -/
def extension? (path : List Char) : Option (List Char) :=
  (fileName? path).bind fun name =>
    match (name.splitOn '.').reverse with
    | last :: before :: others =>
      if before.isEmpty && others.isEmpty then none else some last
    | _ => none

/-- The text after the last slash. -/
def lastSegment (path : List Char) : List Char :=
  ((path.splitOn '/').getLast?).getD []

/-- The text before the last slash, or nothing if there is none. -/
def parentText (path : List Char) : List Char :=
  ['/'].intercalate (path.splitOn '/').dropLast

/-- A path below another one; an absolute path replaces what it is joined to. -/
def joined (base path : List Char) : List Char :=
  if isAbsolute path || base.isEmpty then path
  else if base.getLast? = some '/' then base ++ path
  else base ++ '/' :: path

/-- Two texts divided by a slash, unless the first is empty. -/
def below (directory path : List Char) : List Char :=
  if directory.isEmpty then path else directory ++ '/' :: path

/-! ### Evaluation -/

/-- A component as it is written. -/
def Component.text : Component → List Char
  | .root => ['/']
  | .current => ['.']
  | .parent => ['.', '.']
  | .name segment => segment

/-- What a path comes down to, last component first, when one more component follows: `.` adds
nothing, and `..` takes back the name before it. At the root it is dropped, and where there is no
name to take back it stays. -/
def reduce (reduced : List Component) (component : Component) : List Component :=
  match component, reduced with
  | .current, _ => reduced
  | .parent, .name _ :: above => above
  | .parent, .root :: _ => reduced
  | _, _ => component :: reduced

/-- The path whose components are joined one after another. -/
def ofComponents (components : List Component) : List Char :=
  components.foldl (fun path component => joined path component.text) []

/-- The shortest path with the same meaning, if no directory is a link. -/
def clean (path : List Char) : List Char :=
  match ((components path).foldl reduce []).reverse with
  | [] => ['.']
  | reduced => ofComponents reduced

/-- The named segments among components, unless one of the components leads up. -/
def namesOf? : List Component → Option (List (List Char))
  | [] => some []
  | .parent :: _ => none
  | .name segment :: rest => (namesOf? rest).map (segment :: ·)
  | _ :: rest => namesOf? rest

/-- The segments of a path with `.` and `..` evaluated, joined by slashes. A path that climbs above
where it starts has no value. -/
def normalize? (path : List Char) : Option (List Char) :=
  (namesOf? (components (clean path))).map ['/'].intercalate

/-! ### Directories above a path -/

/-- Whether a segment does not matter: it is empty, or it is a `.` that does not open a relative
path. The segments before it are given last first. -/
def isIdle (absolute : Bool) (segment : List Char) (before : List (List Char)) : Bool :=
  segment.isEmpty || (segment = ['.'] && (absolute || !before.isEmpty))

/-- The segments of a path, last first, without those at the end that do not matter. -/
def dropIdle (absolute : Bool) : List (List Char) → List (List Char)
  | [] => []
  | segment :: before =>
    if isIdle absolute segment before then dropIdle absolute before else segment :: before

/-- The segments of the directories above a path, nearest first, each last first. -/
def segmentsAbove (absolute : Bool) : List (List Char) → List (List (List Char))
  | [] => []
  | segment :: before =>
    if isIdle absolute segment before then segmentsAbove absolute before
    else dropIdle absolute before :: segmentsAbove absolute before

/-- The directories above a path, nearest first, as the path writes them. -/
def ancestors (path : List Char) : List (List Char) :=
  match path with
  | '/' :: body =>
    (segmentsAbove true (body.splitOn '/').reverse).map fun above =>
      '/' :: ['/'].intercalate above.reverse
  | _ =>
    (segmentsAbove false (path.splitOn '/').reverse).map fun above =>
      ['/'].intercalate above.reverse

/-- The directory that a path lies in. -/
def parent? (path : List Char) : Option (List Char) := (ancestors path).head?

/-! ### Relative paths -/

/-- The named segments of a path below a directory, joined by slashes. -/
def relative? (root path : List Char) : Option (List Char) :=
  ((components root).isPrefixOf? (components path)).map fun rest =>
    ['/'].intercalate (rest.filterMap Component.name?)

end SourceAtlas.Path
