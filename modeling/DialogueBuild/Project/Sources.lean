import DialogueBuild.Glob.Walk
import DialogueBuild.Project.Basic
import DialogueBuild.Project.Definitions
/-!
The sources that belong to a project, and the jobs for what a user wants compiled: loose source
files, or one project.
-/
namespace DialogueBuild.Project

/-- Reads the patterns of what is left out. -/
def excludes (p : Project) : Except Failure (List Glob.Pattern) :=
  p.manifest.excludePatterns.mapM fun pattern =>
    match Glob.Pattern.ofText pattern.toList with
    | .ok compiled => .ok compiled
    | .error fault => .error (.project p.path (.excludePattern pattern fault))

/-- A source pattern below the directory of the project, whatever that directory is called. -/
def placed (p : Project) (pattern : String) : List Char :=
  if p.directory.isEmpty then pattern.toList
  else Glob.escape p.directory.text.toList ++ '/' :: pattern.toList

/-- Whether a path is left out. -/
def isExcluded (p : Project) (excludes : List Glob.Pattern) (path : Path) : Bool :=
  excludes.any fun pattern => pattern.accepts (path.relativeTo p.directory).text.toList

/-- The files that a source pattern stands for and that are not left out. -/
def filesOf (p : Project) (fs : FileSystem) (excludes : List Glob.Pattern) (pattern : String) :
    Except Failure (List Path) :=
  match Glob.files fs (p.placed pattern) with
  | .ok files => .ok (files.filter fun path => !p.isExcluded excludes path)
  | .error fault => .error (.project p.path (.sourcePattern pattern fault))

/-- Of neighbours with the same components only the first stays. -/
def mergeSame : List Path → List Path
  | [] => []
  | path :: rest =>
    match mergeSame rest with
    | [] => [path]
    | next :: others => if path.same next then path :: others else path :: next :: others

/-- The sources of the project in the order of their paths, each of them once. -/
def sources (p : Project) (fs : FileSystem) : Except Failure (List Path) := do
  let excludes ← p.excludes
  let files ← p.manifest.sourcePatterns.mapM (p.filesOf fs excludes)
  return mergeSame (files.flatten.mergeSort Path.le)

end DialogueBuild.Project

namespace DialogueBuild.Job

/-! ## Jobs of projects and of loose files -/

/-- The version of the language in loose source files. -/
def defaultVersion : Int32 := Manifest.currentVersion

/-- The job of a project: its sources, its version, and what its definitions declare. -/
def ofProject (fs : FileSystem) (p : Project) : Except Failure Job := do
  let sources ← p.sources fs
  let declarations ← match p.definitionsPath? with
    | some path => Definitions.load fs path
    | none => pure []
  return ⟨sources, p.manifest.version, declarations⟩

/-- The job of some inputs. A project must be the only input; files that are none have the given
version. -/
def ofInputs (fs : FileSystem) (inputs : List Path) (version : Int32) : Except Failure Job :=
  if inputs.any Project.isProjectPath then
    match inputs with
    | [path] => do ofProject fs (← Project.load fs path)
    | _ => .error (.misuse .projectBesideInputs)
  else .ok (.ofSources inputs version)

end DialogueBuild.Job
