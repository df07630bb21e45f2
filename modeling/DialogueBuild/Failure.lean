import DialogueBuild.Decimal.Shortest
import DialogueBuild.FileSystem.Fault
import DialogueBuild.Glob.Pattern
import DialogueBuild.Json.Decoder
import DialogueBuild.Path.Basic
import DialogueBuild.ValueType
/-!
How processes end, and why a run stops before or instead of writing its output.
-/
namespace DialogueBuild

/-! ## How processes end -/

inductive ExitStatus
  | exited (code : UInt8)
  | killed (signal : Nat)
  deriving DecidableEq, Repr

namespace ExitStatus

def isSuccess (s : ExitStatus) : Bool := s = .exited 0

/-- The names of the signals, from the first one on. -/
def signalNames : List String :=
  ["SIGHUP", "SIGINT", "SIGQUIT", "SIGILL", "SIGTRAP", "SIGABRT", "SIGBUS", "SIGFPE", "SIGKILL",
   "SIGUSR1", "SIGSEGV", "SIGUSR2", "SIGPIPE", "SIGALRM", "SIGTERM", "SIGSTKFLT", "SIGCHLD",
   "SIGCONT", "SIGSTOP", "SIGTSTP", "SIGTTIN", "SIGTTOU", "SIGURG", "SIGXCPU", "SIGXFSZ",
   "SIGVTALRM", "SIGPROF", "SIGWINCH", "SIGIO", "SIGPWR", "SIGSYS"]

def describe : ExitStatus → String
  | .exited code => "exit status: " ++ String.ofList (Decimal.digitsOf code.toNat)
  | .killed signal =>
    let name := match signalNames[signal - 1]? with
      | some n => " (" ++ n ++ ")"
      | none => ""
    "signal: " ++ String.ofList (Decimal.digitsOf signal) ++ name

end ExitStatus

/-! ## Failures -/

/-- What is wrong with an invocation. -/
inductive Misuse
  /-- A project beside other inputs. -/
  | projectBesideInputs
  | projectExists (path : Path)
  deriving DecidableEq, Repr

/-- What is wrong with a definitions document. -/
inductive DefinitionsFault
  | unreadable (problem : Json.Problem)
  /-- The function with this index has no text under a key. -/
  | missingText (index : Nat) (key : String)
  /-- A parameter of a function has no type name. -/
  | missingParameterType (function : String)
  | parametersNotArray (function : String)

/-- What is wrong with a project. -/
inductive ProjectFault
  | unreadable (problem : Json.Problem)
  | excludePattern (pattern : String) (fault : Glob.Fault)
  | sourcePattern (pattern : String) (fault : Glob.Fault)

inductive Failure
  | misuse (m : Misuse)
  | unknownType (name : String)
  | definitions (path : Path) (fault : DefinitionsFault)
  | project (path : Path) (fault : ProjectFault)
  | access (path : Path) (fault : FileSystem.Fault)
  /-- A result cannot be read, or a report not be written. -/
  | serialization (problem : Json.Problem)
  /-- The compiler failed without a result, or with one that is not taken because the compiler did
  not take its whole job. -/
  | compiler (status : ExitStatus) (complaint : String)
  /-- The compiler found errors in the sources. -/
  | rejected (errors : Nat)

/-- The compiler succeeded, but its answer is no result. -/
@[match_pattern]
abbrev Failure.unreadableResult (problem : Json.Problem) : Failure := .serialization problem

/-- A report is refused by what it is written to. -/
abbrev Failure.unwrittenReport (fault : FileSystem.Fault) : Failure :=
  .serialization (.output fault)

/-! ## Messages

The words for what is wrong with a document are those of the library that reads it, and a parameter
here. -/

def Misuse.message : Misuse → String
  | .projectBesideInputs =>
    "when compiling a Yarn project file, you must specify only a single file path"
  | .projectExists path =>
    "unable to create a new project file as one already exists at \"" ++ path.text ++ "\""

section Messages

variable (words : Json.Problem → String)

def DefinitionsFault.message : DefinitionsFault → String
  | .unreadable problem => words problem
  | .missingText index key =>
    "function #" ++ String.ofList (Decimal.digitsOf index) ++ ": missing string `" ++ key ++ "`"
  | .missingParameterType function =>
    "function `" ++ function ++ "`: parameter is missing string `Type`"
  | .parametersNotArray function =>
    "function `" ++ function ++ "`: `Parameters` must be an array"

def ProjectFault.message : ProjectFault → String
  | .unreadable problem => words problem
  | .excludePattern pattern fault =>
    "invalid exclude pattern `" ++ pattern ++ "`: " ++ fault.message
  | .sourcePattern pattern fault =>
    "invalid source pattern `" ++ pattern ++ "`: " ++ fault.message

def Failure.messageIn : Failure → String
  | .misuse m => m.message
  | .unknownType name => unknownTypeMessage name
  | .definitions path fault =>
    "invalid definitions file '" ++ path.text ++ "': " ++ fault.message words
  | .project path fault => "invalid project file '" ++ path.text ++ "': " ++ fault.message words
  | .access path fault => "failed to access '" ++ path.text ++ "': " ++ fault.message
  | .serialization problem => "serialization failed: " ++ words problem
  | .compiler status complaint => "compiler exited with " ++ status.describe ++ ": " ++ complaint
  | .rejected errors =>
    "not compiling files because " ++ String.ofList (Decimal.digitsOf errors)
      ++ " error(s) were encountered"

end Messages

namespace Failure

/-- The message in plain words. -/
def message (f : Failure) : String := f.messageIn Json.Problem.message

/-- Whether the job could not be made from what the user asked for. -/
def isConfiguration : Failure → Bool
  | .misuse _ | .unknownType _ | .definitions _ _ | .project _ _ => true
  | _ => false

/-- The exit status of a run that fails. -/
def exitCode (f : Failure) : UInt8 := if f.isConfiguration then 2 else 1

end Failure

end DialogueBuild
