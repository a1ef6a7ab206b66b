import SourceAtlas.Command.Option

/-!
# Commands

What the program can be asked to do, and how the arguments of a command line ask for it.
-/

namespace SourceAtlas

namespace Command

/-- Writes the document of a project. -/
structure AnalyzeOptions where
  path : List Char := ['.']
  config : Option (List Char) := none
  output : Option (List Char) := none
  /-- Print the document and write no file. -/
  stdout : Bool := false
deriving Repr, DecidableEq, Inhabited

/-- Makes the graph of a project. -/
structure GraphOptions where
  path : List Char := ['.']
  config : Option (List Char) := none
  /-- The document to take instead of a new analysis. -/
  source : Option (List Char) := none
  output : Option (List Char) := none
  pretty : Bool := false
deriving Repr, DecidableEq, Inhabited

/-- Writes a configuration file. -/
structure InitOptions where
  output : List Char := "codedoc.yaml".toList
  /-- Replace a file that is there. -/
  force : Bool := false
deriving Repr, DecidableEq, Inhabited

end Command

/-- What the program can be asked to do. -/
inductive Command where
  | analyze (options : Command.AnalyzeOptions)
  | graph (options : Command.GraphOptions)
  | init (options : Command.InitOptions)
deriving Repr, DecidableEq, Inhabited

/-- A command line. -/
structure Invocation where
  verbose : Bool
  command : Command
deriving Repr, DecidableEq, Inhabited

namespace Command

/-- The names of the commands. -/
inductive Verb where
  | analyze
  | graph
  | init
deriving Repr, DecidableEq, Inhabited

/-- How a command is written. -/
def Verb.text : Verb → List Char
  | analyze => "analyze".toList
  | graph => "graph".toList
  | init => "init".toList

/-- All commands. -/
def Verb.all : List Verb := [analyze, graph, init]

/-- The word that asks for help on a command. -/
def helpWord : List Char := "help".toList

/-- The options of every command. -/
def commonOptions : List OptionSpec :=
  [{ name := "verbose".toList, letter := some 'v' },
    { name := "help".toList, letter := some 'h', kind := .help }]

/-- What may stand before a command. -/
def rootSpec : CommandSpec :=
  { options := commonOptions ++
      [{ name := "version".toList, letter := some 'V', kind := .version }]
    commands := Verb.all.map Verb.text ++ [helpWord] }

/-- What a command accepts. -/
def Verb.spec : Verb → CommandSpec
  | analyze =>
    { takesPlace := true
      options := commonOptions ++
        [{ name := "config".toList, letter := some 'c', kind := .value },
          { name := "output".toList, letter := some 'o', kind := .value },
          { name := "stdout".toList }] }
  | graph =>
    { takesPlace := true
      options := commonOptions ++
        [{ name := "config".toList, letter := some 'c', kind := .value },
          { name := "output".toList, letter := some 'o', kind := .value },
          { name := "from".toList, kind := .value },
          { name := "pretty".toList }] }
  | init =>
    { options := commonOptions ++
        [{ name := "output".toList, letter := some 'o', kind := .value },
          { name := "force".toList, letter := some 'f' }] }

/-- The value of an option. -/
def option? (reading : Reading) (name : String) : Option (List Char) :=
  reading.value? (.option name.toList)

/-- The command that values ask for. -/
def Verb.command (verb : Verb) (reading : Reading) : Except UsageError Command :=
  let path := (reading.value? .place).getD ['.']
  match verb with
  | analyze =>
    if reading.has "stdout" && reading.has "output" then .error .conflict
    else .ok (.analyze
      { path, config := option? reading "config", output := option? reading "output"
        stdout := reading.has "stdout" })
  | graph => .ok (.graph
      { path, config := option? reading "config", source := option? reading "from"
        output := option? reading "output", pretty := reading.has "pretty" })
  | init =>
    let plain : InitOptions := {}
    .ok (.init
      { output := (option? reading "output").getD plain.output, force := reading.has "force" })

/-- What the arguments after the word for help ask for: the help on one command. -/
def helpError : List (List Char) → UsageError
  | [] => .help
  | [word] => if rootSpec.commands.contains word then .help else .unknownCommand
  | _ => .unknownCommand

end Command

open Command in
/-- The command line that arguments make up. -/
def Invocation.parse (arguments : List (List Char)) : Except UsageError Invocation := do
  let (outer, next) ← Reading.read {} rootSpec arguments
  match next with
  | none => .error (if outer.found.isEmpty then .nothingGiven else .missingCommand)
  | some (word, rest) =>
    match Verb.all.find? fun verb => verb.text = word with
    | none => .error (helpError rest)
    | some verb =>
      let (inner, _) ← Reading.read {} verb.spec rest
      let command ← verb.command inner
      return { verbose := outer.has "verbose" || inner.has "verbose", command }

end SourceAtlas
