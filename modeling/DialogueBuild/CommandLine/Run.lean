import DialogueBuild.CommandLine.Reader
import DialogueBuild.Diagnostic.Snippet
import DialogueBuild.Pipeline
import DialogueBuild.Program.Listing
/-!
Runs of the program: what it prints, what becomes of the files, and how it ends.

Stdout may refuse a text, as a pipe does that nobody reads any more. Stderr takes everything.
-/
namespace DialogueBuild.CommandLine

/-! ## What runs work on -/

/-- Where stdout leads. -/
structure Sink where
  /-- Why a text is refused, and how many of its characters are taken nevertheless. A character
  that is taken in part does not count. -/
  refusal? : List Char → Option (Nat × FileSystem.Fault)

namespace Sink

/-- Everything is taken. -/
def sound : Sink := ⟨fun _ => none⟩

/-- What is taken of a text, and why not all of it. The empty text cannot be refused. -/
def write (s : Sink) (text : List Char) : List Char × Except FileSystem.Fault Unit :=
  if text = [] then ([], .ok ())
  else
    match s.refusal? text with
    | none => (text, .ok ())
    | some (n, fault) => (text.dropLast.take n, .error fault)

end Sink

/-- How libraries word what they report. -/
structure Wording where
  /-- What is wrong with the document that a run cannot read, and where in its text. -/
  problem : Json.Problem → String
  /-- What is said about a listing that stdout refuses. -/
  crash : FileSystem.Fault → List Char

/-- Words that leave out all places, in documents and in the program. -/
def Wording.plain : Wording where
  problem := Json.Problem.message
  crash fault := ("failed printing to stdout: " ++ fault.message).toList ++ ['\n']

/-- What a command works on. -/
structure Host where
  files : FileSystem
  /-- What files are written to. -/
  disk : FileSystem.Disk
  /-- Starts a compiler on a job. -/
  start : Path → Job → Except FileSystem.Fault Exchange
  /-- What is printed goes to a terminal. -/
  isTerminal : Bool
  sink : Sink
  wording : Wording

/-- What a run leaves behind. -/
structure Outcome where
  exitCode : UInt8
  stdout : List Char
  stderr : List Char
  files : FileSystem
  /-- The job as the compiler read it. -/
  jobRead : Option String

/-! ## Messages -/

/-- A line about the run itself. -/
def logLine (p : Palette) (s : Severity) (message : String) : List Char :=
  p.severity s ++ s.label.toList ++ p.reset ++ [':', ' '] ++ message.toList ++ ['\n']

def usage : String :=
  "Usage: playline compile <INPUT>... [-o <DIR>] [-n <NAME>] [-t <NAME>]\n"
    ++ "       playline compile <INPUT>... --stdout\n"
    ++ "       playline dump-code <INPUT>...\n"
    ++ "       playline create-proj <NAME> [-o <DIR>] [--exclude-builds]\n"

/-- What is wrong with the arguments. -/
def Stop.message : Stop → String
  | .help | .noCommand => usage
  | .version => "playline 0.3.0\n"
  | .unknownCommand word => refusal ("unrecognized subcommand '" ++ word ++ "'")
  | .unknownArgument word => refusal ("unexpected argument '" ++ word ++ "' found")
  | .missingArgument argument =>
    refusal ("the following required arguments were not provided:\n  " ++ argument)
  | .missingValue argument =>
    refusal ("a value is required for '" ++ argument ++ "' but none was supplied"
      ++ choices argument)
  | .wrongValue value argument =>
    refusal ("invalid value '" ++ value ++ "' for '" ++ argument ++ "'" ++ choices argument)
  | .needlessValue value argument =>
    refusal ("unexpected value '" ++ value ++ "' for '" ++ argument
      ++ "' found; no more were expected")
  | .repeated argument =>
    refusal ("the argument '" ++ argument ++ "' cannot be used multiple times")
where
  refusal (text : String) : String :=
    "error: " ++ text ++ "\n\nFor more information, try '--help'.\n"
  choices (argument : String) : String :=
    if argument = Key.color.text then
      "\n  [possible values: " ++ ", ".intercalate (ColorChoice.all.map ColorChoice.name) ++ "]"
    else ""

/-- Whether the arguments ask for nothing but a text. -/
def Stop.isAnswer : Stop → Bool
  | .help | .version => true
  | _ => false

def Stop.exitCode (s : Stop) : UInt8 := if s.isAnswer then 0 else 2

/-- The exit status of a run that is given up in the middle of its output. -/
def crashCode : UInt8 := 101

/-! ## Commands -/

namespace Host

variable (h : Host)

/-- A run that writes to stderr only. -/
def stop (exitCode : UInt8) (stderr : List Char) (jobRead : Option String) : Outcome :=
  ⟨exitCode, [], stderr, h.files, jobRead⟩

/-- A run that ends with a failure, behind what it has printed. -/
def fail (p : Palette) (stderr : List Char) (f : Failure) (jobRead : Option String) : Outcome :=
  h.stop f.exitCode (stderr ++ logLine p .error (f.messageIn h.wording.problem)) jobRead

/-- What is said about the diagnostics of a compilation. -/
def diagnosticsText (p : Palette) (c : Compiled) : List Char :=
  let printed := Diagnostic.renderAll p.isEnabled
    (Diagnostic.loadSources h.files c.diagnostics) c.diagnostics
  let warnings := c.result.warningCount
  if !c.isValid then
    printed ++ logLine p .error "not compiling files because errors were encountered"
  else if 0 < warnings then
    printed ++ logLine p .warning
      (String.ofList (Decimal.digitsOf warnings) ++ " warning(s) emitted")
  else printed

/-- Compiles inputs, and goes on with the result if it has no errors. -/
def withCompiled (p : Palette) (inputs : List Path) (compiler : Path)
    (next : Compiled → (stderr : List Char) → (jobRead : Option String) → Outcome) : Outcome :=
  match Pipeline.ofInputs h.files inputs with
  | .error failure => h.fail p [] failure none
  | .ok pipeline =>
    let run := CompilerRun.ofExchange compiler (h.start compiler pipeline.job)
    match run.outcome with
    | .error failure => h.fail p [] failure run.jobRead
    | .ok result =>
      let compiled : Compiled := ⟨pipeline.inputs, result⟩
      let stderr := h.diagnosticsText p compiled
      if compiled.isValid then next compiled stderr run.jobRead
      else h.stop 1 stderr run.jobRead

/-- Writes a module or a report. -/
def compile (r : CompileRequest) : Outcome :=
  let p := Palette.ofEnabled (r.color.isColored h.isTerminal)
  h.withCompiled p r.inputs r.compiler fun compiled stderr jobRead =>
    if r.stdout then
      match compiled.report with
      | .error failure => h.fail p stderr failure jobRead
      | .ok text =>
        match h.sink.write text with
        | (taken, .ok ()) => ⟨0, taken, stderr, h.files, jobRead⟩
        | (taken, .error fault) =>
          { h.fail p stderr (.unwrittenReport fault) jobRead with stdout := taken }
    else
      match compiled.writeModuleOn h.disk h.files
          ⟨r.outputDirectory, r.outputName, r.stringTableName⟩ with
      | (files, .ok artifact) =>
        ⟨0, [], stderr ++ logLine p .info ("Wrote " ++ artifact.programPath.text), files, jobRead⟩
      | (files, .error failure) => { h.fail p stderr failure jobRead with files := files }

/-- Lists a program. A run whose listing is refused is given up. -/
def dumpCode (r : DumpRequest) : Outcome :=
  let p := Palette.ofEnabled (r.color.isColored h.isTerminal)
  h.withCompiled p r.inputs r.compiler fun compiled stderr jobRead =>
    match compiled.result.program with
    | some program =>
      match h.sink.write ((program.listing compiled.result.strings).paint p) with
      | (taken, .ok ()) => ⟨0, taken, stderr, h.files, jobRead⟩
      | (taken, .error fault) =>
        ⟨crashCode, taken, stderr ++ h.wording.crash fault, h.files, jobRead⟩
    | none => h.stop 1 (stderr ++ logLine p .error "the compiler produced no program") jobRead

/-- Creates a project. -/
def createProject (r : CreateRequest) : Outcome :=
  let p := Palette.ofEnabled (r.color.isColored h.isTerminal)
  match Project.createOn h.disk h.files r.name r.excludeBuilds r.outputDirectory with
  | (files, .ok path) =>
    ⟨0, [], logLine p .info ("new project file created at " ++ path.text), files, none⟩
  | (files, .error failure) => { h.fail p [] failure none with files := files }

def invoke : Invocation → Outcome
  | .compile r => h.compile r
  | .dumpCode r => h.dumpCode r
  | .createProject r => h.createProject r

/-- A run with these arguments; the environment may name a compiler. Whether help is taken makes no
difference. -/
def run (preset : Option String) (args : List String) : Outcome :=
  match parse args preset with
  | .ok invocation => h.invoke invocation
  | .error reason =>
    if reason.isAnswer then ⟨0, (h.sink.write reason.message.toList).1, [], h.files, none⟩
    else h.stop reason.exitCode reason.message.toList none

end Host

/-- What a run finds. -/
structure Surroundings where
  machine : Machine
  /-- The compiler that the environment names. -/
  compiler : Option String
  /-- What is printed goes to a terminal. -/
  isTerminal : Bool

namespace Surroundings

/-- Disks and stdout refuse nothing, commands are found by their names, and words are plain. -/
def host (w : Surroundings) : Host where
  files := w.machine.files
  disk := w.machine.files.soundDisk
  start command job := w.machine.start command [] job
  isTerminal := w.isTerminal
  sink := .sound
  wording := .plain

/-- A run with these arguments. -/
def run (w : Surroundings) (args : List String) : Outcome := w.host.run w.compiler args

end Surroundings

end DialogueBuild.CommandLine
