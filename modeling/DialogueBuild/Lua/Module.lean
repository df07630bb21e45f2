import DialogueBuild.Failure
import DialogueBuild.FileSystem.Disk
import DialogueBuild.Lua.Chunk
/-!
Module files: the chunk of a compiled dialogue in a directory, under a name.

A module is written in full before it takes the place of an older one, so that a run that fails
leaves the older one whole.
-/
namespace DialogueBuild.Lua

/-! ## Names -/

/-- The name of a module that nothing better is known about. -/
def defaultName : String := "Output"

/-- What follows the name of a module in its path. -/
def moduleExtension : String := ".yarnc.lua"

/-- The name of the module for some inputs: the given one unless it is the default name, else that
of the only input. -/
def moduleName (inputs : List Path) (given : Option String) : String :=
  match given.filter (· ≠ defaultName), inputs with
  | some name, _ => name
  | none, [input] => match input.stem? with
    | some stem => String.ofList stem
    | none => defaultName
  | none, _ => defaultName

/-- The name of the table of strings beside a module. -/
def stringTableName (base : String) (given : Option String) : String :=
  match given.filter fun name => !name.isEmpty with
  | some name => name
  | none => base ++ "-Lines.csv"

/-- Where a module goes, and under which names. -/
structure ModuleOptions where
  directory : Path
  name : Option String
  stringTableName : Option String

/-- The module that was written. -/
structure Artifact where
  name : String
  programPath : Path
  /-- A path for tables of strings; nothing is written there. -/
  stringTablePath : Path
  deriving DecidableEq, Repr

def ModuleOptions.artifact (o : ModuleOptions) (inputs : List Path) : Artifact :=
  let name := moduleName inputs o.name
  ⟨name, o.directory.join ⟨name ++ moduleExtension⟩,
   o.directory.join ⟨Lua.stringTableName name o.stringTableName⟩⟩

/-! ## Writing -/

/-- Where the scratch files for a directory are created. -/
def scratchDirectory (directory : Path) : Path :=
  if directory.isEmpty then ⟨"."⟩ else directory

/-- Writes a text to a path, by way of a directory that is created if need be. A file that is
replaced keeps its permissions. -/
def install (disk : FileSystem.Disk) (fs : FileSystem) (directory path : Path) (text : String) :
    FileSystem × Except Failure Unit :=
  match fs.createDirectories directory with
  | (fs, .error fault) => (fs, .error (.access directory fault))
  | (fs, .ok ()) =>
    match fs.replaceFile disk (scratchDirectory directory) path text.toUTF8 with
    | (fs, .ok ()) => (fs, .ok ())
    | (fs, .error (place, fault)) => (fs, .error (.access place fault))

/-- Writes the module of a compilation to a disk. -/
def writeModuleOn (disk : FileSystem.Disk) (fs : FileSystem) (inputs : List Path) (c : Compilation)
    (o : ModuleOptions) : FileSystem × Except Failure Artifact :=
  let artifact := o.artifact inputs
  match install disk fs o.directory artifact.programPath
      (String.ofList (chunkText artifact.name c)) with
  | (fs, .ok ()) => (fs, .ok artifact)
  | (fs, .error failure) => (fs, .error failure)

/-- Writes the module of a compilation to a disk that refuses nothing. -/
def writeModule (fs : FileSystem) (inputs : List Path) (c : Compilation) (o : ModuleOptions) :
    FileSystem × Except Failure Artifact :=
  writeModuleOn fs.soundDisk fs inputs c o

end DialogueBuild.Lua
