import DialogueBuild.Compiler.Run
import DialogueBuild.Lua.Module
import DialogueBuild.Project.Sources
/-!
From inputs to outputs: a job is made, compiled, and the result is written unless it has errors.
-/
namespace DialogueBuild

/-- A job that is ready for a compiler. -/
structure Pipeline where
  inputs : List Path
  job : Job

/-- The job of some inputs. -/
def Pipeline.ofInputs (fs : FileSystem) (inputs : List Path) : Except Failure Pipeline := do
  return ⟨inputs, ← Job.ofInputs fs inputs Job.defaultVersion⟩

/-- What a compiler made of the inputs. -/
structure Compiled where
  inputs : List Path
  result : Compilation

namespace Compiled

def diagnostics (c : Compiled) : List Diagnostic := c.result.diagnostics

/-- There are no errors. Warnings do not count. -/
def isValid (c : Compiled) : Bool := !c.result.hasErrors

/-- Refuses any output if there are errors. -/
def check (c : Compiled) : Except Failure Unit :=
  match c.result.errorCount with
  | 0 => .ok ()
  | errors => .error (.rejected errors)

/-- Writes the module to a disk. -/
def writeModuleOn (c : Compiled) (disk : FileSystem.Disk) (fs : FileSystem)
    (o : Lua.ModuleOptions) : FileSystem × Except Failure Lua.Artifact :=
  match c.check with
  | .ok () => Lua.writeModuleOn disk fs c.inputs c.result o
  | .error failure => (fs, .error failure)

/-- Writes the module to a disk that refuses nothing. -/
def writeModule (c : Compiled) (fs : FileSystem) (o : Lua.ModuleOptions) :
    FileSystem × Except Failure Lua.Artifact :=
  c.writeModuleOn fs.soundDisk fs o

/-- The text of the report. -/
def report (c : Compiled) : Except Failure (List Char) := do
  c.check
  return c.result.reportText

end Compiled

end DialogueBuild
