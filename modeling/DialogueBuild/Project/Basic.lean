import DialogueBuild.FileSystem.Disk
import DialogueBuild.Failure
import DialogueBuild.Project.Manifest
/-!
Projects: manifests with the path at which they are found.
-/
namespace DialogueBuild

structure Project where
  manifest : Manifest
  /-- Empty for a project that is found nowhere. -/
  path : Path

namespace Project

/-- The extension of a manifest's path. -/
def fileExtension : List Char := "yarnproject".toList

/-- Whether a path is that of a manifest. -/
def isProjectPath (p : Path) : Bool := p.extension? = some fileExtension

def new (excludeBuilds : Bool) : Project := ⟨.new excludeBuilds, ⟨""⟩⟩

/-- The project whose manifest is at a path. -/
def load (fs : FileSystem) (path : Path) : Except Failure Project :=
  match fs.readText path with
  | .error fault => .error (.access path fault)
  | .ok text =>
    match Manifest.ofText text with
    | .ok manifest => .ok ⟨manifest, path⟩
    | .error problem => .error (.project path (.unreadable problem))

/-- Writes the manifest to a new file of a disk. A file that was created stays if it cannot be
written. -/
def saveOn (p : Project) (disk : FileSystem.Disk) (fs : FileSystem) (path : Path) :
    FileSystem × Except Failure Unit :=
  match fs.createNew disk path with
  | .error .exists => (fs, .error (.misuse (.projectExists path)))
  | .error fault => (fs, .error (.access path fault))
  | .ok (loc, created) =>
    match created.writeNew disk loc p.manifest.text.toUTF8 with
    | (fs, .ok ()) => (fs, .ok ())
    | (fs, .error fault) => (fs, .error (.access path fault))

/-- Writes the manifest to a new file of a disk that refuses nothing. -/
def save (p : Project) (fs : FileSystem) (path : Path) : Except Failure FileSystem :=
  match p.saveOn fs.soundDisk fs path with
  | (fs, .ok ()) => .ok fs
  | (_, .error failure) => .error failure

/-- The directory where the paths in the manifest start. -/
def directory (p : Project) : Path := p.path.parent?.getD ⟨""⟩

/-- The path of the definitions document. -/
def definitionsPath? (p : Project) : Option Path :=
  p.manifest.definitions.map fun text => p.directory.join ⟨text⟩

/-- The path of the manifest of a project with this name. -/
def pathFor (name : String) (directory : Path) : Path :=
  if isProjectPath ⟨name⟩ then directory.join ⟨name⟩
  else directory.join ⟨name ++ "." ++ String.ofList fileExtension⟩

/-- Creates a project in a directory, and says where. -/
def createOn (disk : FileSystem.Disk) (fs : FileSystem) (name : String) (excludeBuilds : Bool)
    (directory : Path) : FileSystem × Except Failure Path :=
  let path := pathFor name directory
  match (new excludeBuilds).saveOn disk fs path with
  | (fs, .ok ()) => (fs, .ok path)
  | (fs, .error failure) => (fs, .error failure)

end Project

end DialogueBuild
