/-!
# Options on a command line

An argument is an option under its long name (`--output x`, `--output=x`), one or more options under
their letters (`-o x`, `-ox`, `-fo x`), or a positional value. After `--` every argument is a
positional value. `Reading.read` goes through the arguments of one command.

An option that waits for its value is settled as late as possible: by the next option, by a value in
another place or at the end. So a fault in it is found only if no unknown option comes before.
-/

namespace SourceAtlas.Command

/-- Why arguments do not make up a command. -/
inductive UsageError where
  /-- The help text was asked for. -/
  | help
  /-- The version was asked for. -/
  | version
  /-- Nothing was given where something is needed. -/
  | nothingGiven
  | missingCommand
  | unknownCommand
  | unknownArgument
  /-- An option was given twice, or with one that excludes it. -/
  | conflict
  /-- A value is missing or empty. -/
  | badValue
  /-- A value was given to an option that takes none. -/
  | unexpectedValue
deriving Repr, DecidableEq, Inhabited

/-- The exit code: help and version are no failures. -/
def UsageError.exitCode : UsageError → Nat
  | help => 0
  | version => 0
  | _ => 2

/-- What the user is told. -/
def UsageError.message : UsageError → String
  | help =>
    "usage: codedoc [-v] analyze [PATH] [-c CONFIG] [-o OUTPUT | --stdout]\n"
      ++ "       codedoc [-v] graph [PATH] [-c CONFIG] [--from DOCUMENT] [-o OUTPUT] [--pretty]\n"
      ++ "       codedoc [-v] init [-o OUTPUT] [-f]"
  | version => "codedoc 0.1.0"
  | nothingGiven => "error: a command is needed: analyze, graph or init"
  | missingCommand => "error: a command is needed: analyze, graph or init"
  | unknownCommand => "error: unrecognized command"
  | unknownArgument => "error: unexpected argument"
  | conflict => "error: an argument cannot be used here or cannot be used again"
  | badValue => "error: a value is required"
  | unexpectedValue => "error: unexpected value"

/-- What an option does. -/
inductive OptionKind where
  | flag
  | value
  | help
  | version
deriving Repr, DecidableEq, Inhabited

/-- An option with its long name and, possibly, its letter. -/
structure OptionSpec where
  name : List Char
  letter : Option Char := none
  kind : OptionKind := .flag
deriving Repr, DecidableEq, Inhabited

/-- What a command accepts. -/
structure CommandSpec where
  options : List OptionSpec
  /-- Whether there is one positional value. -/
  takesPlace : Bool := false
  /-- The names of the commands that may follow. -/
  commands : List (List Char) := []
deriving Repr, Inhabited

/-- What a value is for: an option, or the positional place. -/
inductive Slot where
  | option (name : List Char)
  | place
deriving Repr, DecidableEq, Inhabited

/-- The values that were read, and one that is still to be settled. -/
structure Reading where
  found : List (Slot × List Char) := []
  /-- A slot with its value, if that was read. -/
  waiting : Option (Slot × Option (List Char)) := none
deriving Repr, Inhabited

namespace Reading

/-- The value of a slot. -/
def value? (reading : Reading) (slot : Slot) : Option (List Char) :=
  (reading.found.find? fun (s, _) => s = slot).map Prod.snd

/-- Whether an option was given. -/
def has (reading : Reading) (name : String) : Bool :=
  (reading.value? (.option name.toList)).isSome

/-- Keeps a value, which must be the first of its slot. -/
def keep (reading : Reading) (slot : Slot) (value : List Char) : Except UsageError Reading :=
  if (reading.value? slot).isSome then .error .conflict
  else if value.isEmpty then .error .badValue
  else .ok { reading with found := reading.found ++ [(slot, value)] }

/-- Settles the value that is waited for. -/
def settle (reading : Reading) : Except UsageError Reading :=
  match reading.waiting with
  | none => .ok reading
  | some (_, none) => .error .badValue
  | some (slot, some value) => { reading with waiting := none }.keep slot value

/-- Whether the next argument is the value of an option. -/
def awaitsValue (reading : Reading) : Bool :=
  match reading.waiting with
  | some (_, none) => true
  | _ => false

/-- Takes an option without a value at hand. -/
def takeBare (reading : Reading) (option : OptionSpec) : Except UsageError Reading := do
  let reading ← reading.settle
  match option.kind with
  | .flag => reading.keep (.option option.name) "true".toList
  | .value => .ok { reading with waiting := some (.option option.name, none) }
  | .help => .error .help
  | .version => .error .version

/-- Takes an option with the value that is attached to it. -/
def takeAttached (reading : Reading) (option : OptionSpec) (value : List Char) :
    Except UsageError Reading := do
  if option.kind ≠ .value then .error .unexpectedValue
  let reading ← reading.settle
  reading.keep (.option option.name) value

/-- Takes an option under its long name. -/
def takeLong (reading : Reading) (spec : CommandSpec) (text : List Char) :
    Except UsageError Reading :=
  let name := text.takeWhile (· ≠ '=')
  match spec.options.find? fun option => option.name = name with
  | none => .error .unknownArgument
  | some option =>
    match text.drop name.length with
    | [] => reading.takeBare option
    | _ :: value => reading.takeAttached option value

/-- Takes options under their letters. What follows the letter of an option with a value is the
value. -/
def takeLetters (reading : Reading) (spec : CommandSpec) :
    List Char → Except UsageError Reading
  | [] => .ok reading
  | letter :: rest =>
    match spec.options.find? fun option => option.letter = some letter with
    | none => .error .unknownArgument
    | some option =>
      if option.kind = .value && !rest.isEmpty then
        reading.takeAttached option (if rest.head? = some '=' then rest.tail else rest)
      else do
        let reading ← reading.takeBare option
        reading.takeLetters spec rest

/-- Takes a positional value. -/
def takePlace (reading : Reading) (spec : CommandSpec) (text : List Char) :
    Except UsageError Reading :=
  let taken := (reading.value? .place).isSome || (reading.waiting.map Prod.fst) = some .place
  if !spec.commands.isEmpty then .error .unknownCommand
  else if !spec.takesPlace || taken then .error .unknownArgument
  else do
    let reading ← reading.settle
    .ok { reading with waiting := some (.place, some text) }

/-- Takes an argument that names no command. -/
def take (reading : Reading) (spec : CommandSpec) (argument : List Char) :
    Except UsageError Reading :=
  match argument with
  | '-' :: '-' :: text => reading.takeLong spec text
  | '-' :: c :: letters => reading.takeLetters spec (c :: letters)
  | text =>
    match reading.waiting with
    | some (slot, none) => .ok { reading with waiting := some (slot, some text) }
    | _ => reading.takePlace spec text

/-- Takes the arguments after `--`. -/
def takePlaces (reading : Reading) (spec : CommandSpec) :
    List (List Char) → Except UsageError Reading
  | [] => reading.settle
  | argument :: rest =>
    if spec.commands.contains argument then .error .unknownArgument
    else do
      let reading ← reading.takePlace spec argument
      reading.takePlaces spec rest

/-- Reads the arguments up to a command that follows, which is given with the arguments after it. -/
def read (reading : Reading) (spec : CommandSpec) :
    List (List Char) → Except UsageError (Reading × Option (List Char × List (List Char)))
  | [] => do
    return (← reading.settle, none)
  | argument :: rest =>
    if spec.commands.contains argument && !reading.awaitsValue then
      .ok (reading, some (argument, rest))
    else if argument = ['-', '-'] then do
      return (← reading.takePlaces spec rest, none)
    else do
      let reading ← reading.take spec argument
      reading.read spec rest

end Reading

end SourceAtlas.Command
