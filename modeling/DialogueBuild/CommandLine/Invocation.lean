import DialogueBuild.Path.Basic
/-!
What can be asked for on the command line, and how it is spelled there.
-/
namespace DialogueBuild.CommandLine

/-! ## Commands and their options -/

inductive Command
  | compile
  | dumpCode
  | createProject
  deriving DecidableEq, Repr

inductive Key
  | outputDirectory
  | outputName
  | stringTableName
  | stdout
  | compiler
  | color
  | excludeBuilds
  | help
  deriving DecidableEq, Repr

namespace Command

def all : List Command := [.compile, .dumpCode, .createProject]

def name : Command → String
  | .compile => "compile"
  | .dumpCode => "dump-code"
  | .createProject => "create-proj"

/-- The options that a command knows. -/
def keys : Command → List Key
  | .compile =>
    [.outputDirectory, .outputName, .stringTableName, .stdout, .compiler, .color, .help]
  | .dumpCode => [.compiler, .color, .help]
  | .createProject => [.excludeBuilds, .outputDirectory, .color, .help]

/-- How many words besides options a command takes at most. -/
def maxWords : Command → Option Nat
  | .compile | .dumpCode => none
  | .createProject => some 1

/-- How messages write the words that a command takes. -/
def wordsText : Command → String
  | .compile | .dumpCode => "<INPUT>..."
  | .createProject => "<NAME>"

end Command

namespace Key

/-- The name that stands behind two dashes. -/
def long : Key → String
  | .outputDirectory => "output-directory"
  | .outputName => "output-name"
  | .stringTableName => "output-string-table-name"
  | .stdout => "stdout"
  | .compiler => "compiler"
  | .color => "color"
  | .excludeBuilds => "exclude-builds"
  | .help => "help"

/-- The letter that stands behind one dash. -/
def short? : Key → Option Char
  | .outputDirectory => some 'o'
  | .outputName => some 'n'
  | .stringTableName => some 't'
  | .help => some 'h'
  | _ => none

/-- What messages call the value of an option; flags have none. -/
def placeholder? : Key → Option String
  | .outputDirectory => some "DIR"
  | .outputName => some "NAME"
  | .stringTableName => some "NAME"
  | .compiler => some "CMD"
  | .color => some "WHEN"
  | .stdout | .excludeBuilds | .help => none

def takesValue (k : Key) : Bool := k.placeholder?.isSome

/-- The values of an option are paths, and so not empty. -/
def isPath : Key → Bool
  | .outputDirectory | .compiler => true
  | _ => false

/-- How messages write an option. -/
def text (k : Key) : String :=
  "--" ++ k.long ++ match k.placeholder? with
    | some p => " <" ++ p ++ ">"
    | none => ""

end Key

/-! ## Invocations -/

inductive ColorChoice
  | auto
  | always
  | never
  deriving DecidableEq, Repr

namespace ColorChoice

def all : List ColorChoice := [.auto, .always, .never]

def name : ColorChoice → String
  | .auto => "auto"
  | .always => "always"
  | .never => "never"

def ofName? (name : String) : Option ColorChoice := all.find? fun c => c.name = name

/-- Whether output is coloured; without a choice it is on a terminal. -/
def isColored (isTerminal : Bool) : ColorChoice → Bool
  | .auto => isTerminal
  | .always => true
  | .never => false

end ColorChoice

structure CompileRequest where
  inputs : List Path
  outputDirectory : Path
  outputName : Option String
  stringTableName : Option String
  /-- Write a report instead of a module. -/
  stdout : Bool
  compiler : Path
  color : ColorChoice
  deriving DecidableEq, Repr

structure DumpRequest where
  inputs : List Path
  compiler : Path
  color : ColorChoice
  deriving DecidableEq, Repr

structure CreateRequest where
  name : String
  excludeBuilds : Bool
  outputDirectory : Path
  color : ColorChoice
  deriving DecidableEq, Repr

inductive Invocation
  | compile (r : CompileRequest)
  | dumpCode (r : DumpRequest)
  | createProject (r : CreateRequest)
  deriving DecidableEq, Repr

/-- Why the arguments ask for no command. -/
inductive Stop
  | help
  | version
  | noCommand
  | unknownCommand (word : String)
  | unknownArgument (word : String)
  | missingArgument (argument : String)
  | missingValue (argument : String)
  | wrongValue (value : String) (argument : String)
  | needlessValue (value : String) (argument : String)
  | repeated (argument : String)
  deriving DecidableEq, Repr

end DialogueBuild.CommandLine
