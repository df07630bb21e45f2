import DialogueBuild.Compilation
import DialogueBuild.Compiler.Script
import DialogueBuild.Failure
import DialogueBuild.FileSystem.Basic
import DialogueBuild.Job
import DialogueBuild.Text.Blank
/-!
Running a dialogue compiler: it is sent a job as text, and answers with a result as text.
-/
namespace DialogueBuild

/-- How a compiler behaves when it is run. -/
structure Compiler where
  /-- What it answers. -/
  answer : String
  /-- What it complains about. -/
  complaint : String
  status : ExitStatus
  /-- It reads the job that it is sent. -/
  readsJob : Bool

/-- The files that a run sees, and the commands that it finds by their names. -/
structure Machine where
  files : FileSystem
  commands : List (String × Compiler)

namespace Compiler

/-! ## Sending -/

/-- The bytes that can be sent before anybody reads them. -/
def pipeSize : Nat := 65536

/-- Whether a job reaches the pipe. One that is too large for it has to be read. -/
def send (c : Compiler) (job : Job) : Except FileSystem.Fault Unit :=
  if c.readsJob || job.text.utf8ByteSize ≤ pipeSize then .ok () else .error .brokenPipe

end Compiler

/-! ## The outcome -/

/-- What is left of a compiler that was started, when it has ended. -/
structure Exchange where
  /-- The result that its answer holds. -/
  answer : Except Json.Problem Compilation
  complaint : String
  status : ExitStatus
  /-- Whether it was sent the whole job. -/
  sent : Except FileSystem.Fault Unit
  jobRead : Option String

namespace Exchange

/-- The complaint of a compiler that failed, and why the job could not be sent. -/
def complaintText (complaint : String) (sent : Except FileSystem.Fault Unit) : String :=
  let text := String.ofList (Text.trim complaint.toList)
  match sent with
  | .ok () => text
  | .error fault =>
    (if text.isEmpty then "" else text ++ "\n") ++ "failed to send the job: " ++ fault.message

/-- What a run amounts to. An answer that is a result counts, unless the compiler failed and did
not even get its job. -/
def outcome (e : Exchange) : Except Failure Compilation :=
  let failed : Except Failure Compilation :=
    .error (.compiler e.status (complaintText e.complaint e.sent))
  match e.answer, e.sent with
  | .ok result, .ok () => .ok result
  | .ok result, .error _ => if e.status.isSuccess then .ok result else failed
  | .error _, .error _ => failed
  | .error problem, .ok () =>
    if e.status.isSuccess then .error (.unreadableResult problem) else failed

end Exchange

/-- What comes of a compiler that is sent a job. -/
def Compiler.exchange (c : Compiler) (job : Job) : Exchange :=
  ⟨Compilation.ofText c.answer, c.complaint, c.status, c.send job,
   if c.readsJob then some job.text else none⟩

/-- A run of a command: what it comes to, and the job as the compiler read it. -/
structure CompilerRun where
  outcome : Except Failure Compilation
  jobRead : Option String

/-- The run of a command that was started, or could not be. -/
def CompilerRun.ofExchange (command : Path) : Except FileSystem.Fault Exchange → CompilerRun
  | .ok e => ⟨e.outcome, e.jobRead⟩
  | .error fault => ⟨.error (.access command fault), none⟩

namespace Machine

/-! ## Starting -/

/-- Why the file at a path cannot be run as a compiler. Only commands that are found by their
names are compilers. -/
def refusal (files : FileSystem) (path : Path) : FileSystem.Fault :=
  match Script.refuse files Script.maxScripts path with
  | .error fault => fault

/-- Finds the compiler that a command starts. A command with a slash is a path. -/
def find (m : Machine) (command : Path) (arguments : List String) :
    Except FileSystem.Fault Compiler :=
  let name := command.text.toList
  if (command.text :: arguments).any fun s => s.toList.contains '\x00' then .error .nulInCommand
  else if name.contains '/' then .error (refusal m.files command)
  else if name = [] then .error .notFound
  else if name = ['.'] ∨ name = ['.', '.'] then .error .denied
  else if FileSystem.isTooLong FileSystem.maxName name then .error .nameTooLong
  else
    match findEntry? command.text m.commands with
    | some c => .ok c
    | none => .error .notFound

/-- Starts a command, and waits until it has ended. -/
def start (m : Machine) (command : Path) (arguments : List String) (job : Job) :
    Except FileSystem.Fault Exchange := do
  return (← m.find command arguments).exchange job

/-- Runs a command on a job. -/
def run (m : Machine) (command : Path) (arguments : List String) (job : Job) : CompilerRun :=
  .ofExchange command (m.start command arguments job)

end Machine

end DialogueBuild
