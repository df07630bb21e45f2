import DialogueBuild.CommandLine.Invocation
/-!
Reading the arguments of a command line, one after the other.

What an argument gives is settled when the next option or word comes: an option waits for its
value, and words that follow each other are settled together. An option that is not known is
reported before anything that is not settled yet.
-/
namespace DialogueBuild.CommandLine

/-- What is settled. -/
structure Settled where
  /-- The options with their values; flags have the empty one. -/
  options : List (Key × String)
  words : List String
  deriving DecidableEq, Repr

/-- What waits to be settled. -/
inductive Pending
  | nothing
  | words (ws : List String)
  | option (k : Key) (value : Option String)
  deriving DecidableEq, Repr

structure State where
  settled : Settled
  pending : Pending
  /-- After `--` every argument is a word. -/
  onlyWords : Bool
  deriving DecidableEq, Repr

def State.start : State := ⟨⟨[], []⟩, .nothing, false⟩

/-! ## Settling -/

def Settled.value? (s : Settled) (k : Key) : Option String :=
  (s.options.find? fun (key, _) => key = k).map Prod.snd

def Settled.has (s : Settled) (k : Key) : Bool := (s.value? k).isSome

/-- Refuses values that an option cannot have. -/
def checkValue (k : Key) (value : String) : Except Stop Unit :=
  if k.isPath ∧ value.isEmpty then .error (.missingValue k.text)
  else if k = .color ∧ (ColorChoice.ofName? value).isNone then
    if value.isEmpty then .error (.missingValue k.text) else .error (.wrongValue value k.text)
  else .ok ()

/-- Settles an option, which may be given once. -/
def Settled.addOption (s : Settled) (k : Key) (value : String) : Except Stop Settled :=
  if s.has k then .error (.repeated k.text)
  else do
    checkValue k value
    return { s with options := s.options ++ [(k, value)] }

/-- Settles words. Inputs are paths, and so not empty. -/
def Settled.addWords (s : Settled) (c : Command) (ws : List String) : Except Stop Settled :=
  if c ≠ .createProject ∧ ws.contains "" then .error (.missingValue c.wordsText)
  else .ok { s with words := s.words ++ ws }

/-- Settles what waits. -/
def State.settle (s : State) (c : Command) : Except Stop Settled :=
  match s.pending with
  | .nothing => .ok s.settled
  | .words ws => s.settled.addWords c ws
  | .option k (some value) => s.settled.addOption k value
  | .option k none => .error (.missingValue k.text)

/-! ## Reading -/

/-- An argument by its looks. -/
inductive Argument
  | word
  | separator
  /-- A name behind two dashes, and what follows the first equals sign. -/
  | long (name : String) (value : Option String)
  /-- A letter behind one dash, and what follows it. -/
  | short (letter : Char) (rest : List Char)

def Argument.ofText (arg : String) : Argument :=
  match arg.toList with
  | ['-', '-'] => .separator
  | '-' :: '-' :: cs =>
    let name := String.ofList (cs.takeWhile (· ≠ '='))
    match cs.dropWhile (· ≠ '=') with
    | _ :: value => .long name (some (String.ofList value))
    | [] => .long name none
  | '-' :: c :: rest => .short c rest
  | _ => .word

/-- The value that follows a letter; an equals sign may stand between. -/
def attachedValue : List Char → Option String
  | [] => none
  | '=' :: value => some (String.ofList value)
  | value => some (String.ofList value)

/-- Reads an option that is known, with the value attached to it. -/
def State.readOption (s : State) (c : Command) (k : Key) (attached : Option String) :
    Except Stop State :=
  if k.takesValue then do
    let settled ← s.settle c
    match attached with
    | some value => return { s with settled := ← settled.addOption k value, pending := .nothing }
    | none => return { s with settled := settled, pending := .option k none }
  else
    match attached with
    | some value => .error (.needlessValue value k.text)
    | none => do
      let settled ← s.settle c
      if k = .help then .error .help
      else return { s with settled := ← settled.addOption k "", pending := .nothing }

/-- Reads a word that is no value of an option. -/
def State.readWord (s : State) (c : Command) (word : String) : Except Stop State :=
  match s.pending, c.maxWords with
  | .words ws, none => .ok { s with pending := .words (ws ++ [word]) }
  | .words _, some _ => .error (.unknownArgument word)
  | _, some n =>
    if n ≤ s.settled.words.length then .error (.unknownArgument word)
    else do return { s with settled := ← s.settle c, pending := .words [word] }
  | _, none => do return { s with settled := ← s.settle c, pending := .words [word] }

/-- Reads one argument of a command. -/
def State.read (s : State) (c : Command) (arg : String) : Except Stop State :=
  if s.onlyWords then s.readWord c arg
  else
    match Argument.ofText arg with
    | .separator => .ok { s with onlyWords := true }
    | .long name value =>
      match c.keys.find? (·.long = name) with
      | some k => s.readOption c k value
      | none => .error (.unknownArgument arg)
    | .short letter rest =>
      match c.keys.find? (·.short? = some letter) with
      | some k => s.readOption c k (if k.takesValue then attachedValue rest else none)
      | none => .error (.unknownArgument arg)
    | .word =>
      match s.pending with
      | .option k none => .ok { s with pending := .option k (some arg) }
      | _ => s.readWord c arg

/-- Reads all arguments of a command. -/
def readAll (c : Command) : State → List String → Except Stop Settled
  | s, [] => s.settle c
  | s, arg :: rest => do readAll c (← s.read c arg) rest

/-! ## Invocations -/

/-- The compiler that is run when nothing names another one. -/
def defaultCompiler : String := "ysc-json"

/-- The variable of the environment that names a compiler. -/
def compilerVariable : String := "PLAYLINE_COMPILER"

/-- The compiler: the one that an option names, else that of the environment. -/
def Settled.compiler (s : Settled) (preset : Option String) : Except Stop Path :=
  match s.value? .compiler, preset with
  | some value, _ => .ok ⟨value⟩
  | none, some value =>
    if value.isEmpty then .error (.missingValue Key.compiler.text) else .ok ⟨value⟩
  | none, none => .ok ⟨defaultCompiler⟩

def Settled.color (s : Settled) : ColorChoice :=
  ((s.value? .color).bind ColorChoice.ofName?).getD .auto

def Settled.outputDirectory (s : Settled) : Path := ⟨(s.value? .outputDirectory).getD "."⟩

/-- The inputs, of which there must be one. -/
def Settled.inputs (s : Settled) (c : Command) : Except Stop (List Path) :=
  if s.words.isEmpty then .error (.missingArgument c.wordsText) else .ok (s.words.map Path.mk)

/-- What the settled arguments of a command ask for. -/
def Settled.invocation (s : Settled) (c : Command) (preset : Option String) :
    Except Stop Invocation :=
  match c with
  | .compile => do
    let compiler ← s.compiler preset
    return .compile
      ⟨← s.inputs c, s.outputDirectory, s.value? .outputName, s.value? .stringTableName,
       s.has .stdout, compiler, s.color⟩
  | .dumpCode => do
    let compiler ← s.compiler preset
    return .dumpCode ⟨← s.inputs c, compiler, s.color⟩
  | .createProject =>
    match s.words with
    | [] => .error (.missingArgument c.wordsText)
    | name :: _ =>
      .ok (.createProject ⟨name, s.has .excludeBuilds, s.outputDirectory, s.color⟩)

/-- What the arguments of a command ask for. -/
def parseCommand (c : Command) (preset : Option String) (args : List String) :
    Except Stop Invocation := do
  (← readAll c .start args).invocation c preset

/-- Whether a word asks for a command, of which `help` is one. -/
def namesCommand (word : String) : Bool := word = "help" || Command.all.any (·.name = word)

/-- Shows help about a command that is named. -/
def parseHelp : List String → Stop
  | [] => .help
  | word :: rest =>
    if namesCommand word then
      match rest with
      | [] => .help
      | next :: _ => .unknownCommand next
    else .unknownCommand word

/-- Reads the words behind a separator in front of any command. None of them starts a command: what
is no command is reported as such, and the name of one as out of place. -/
def parseSeparated : List String → Stop
  | [] => .noCommand
  | word :: _ => if namesCommand word then .unknownArgument word else .unknownCommand word

/-- Reads an option in front of any command: there are only help and version. -/
def parseGlobal (arg : String) : Argument → Stop
  | .long "help" none | .short 'h' _ => .help
  | .long "version" none | .short 'V' _ => .version
  | .long "help" (some value) => .needlessValue value "--help"
  | .long "version" (some value) => .needlessValue value "--version"
  | _ => .unknownArgument arg

/-- What the arguments ask for. -/
def parse (args : List String) (preset : Option String) : Except Stop Invocation :=
  match args with
  | [] => .error .noCommand
  | first :: rest =>
    match Argument.ofText first with
    | .separator => .error (parseSeparated rest)
    | .word =>
      if first = "help" then .error (parseHelp rest)
      else
        match Command.all.find? (·.name = first) with
        | some c => parseCommand c preset rest
        | none => .error (.unknownCommand first)
    | argument => .error (parseGlobal first argument)

end DialogueBuild.CommandLine
