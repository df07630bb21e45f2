import DialogueBuild.FileSystem.Change
/-!
Files on a disk that may refuse what files and directories would allow.

A new file is created first and written then, so that one that cannot be written stays, with what
of its contents has reached the disk. A file that takes the place of another one does so only when
it is complete: the contents go to a scratch file, which is then moved to where they belong.
Whatever is refused on the way, the scratch file is taken away again, and an older file stays as it
is.
-/
namespace DialogueBuild.FileSystem

/-! ## Disks -/

/-- What is done with a file, in this order. New files are only created and written; the other steps
are those of scratch files. -/
inductive DiskStep
  | create
  | write
  /-- Makes sure that what was written has reached the disk. -/
  | flush
  | setMode
  | move
  deriving DecidableEq, Repr

/-- How a disk behaves. -/
structure Disk where
  /-- The names that are tried for a scratch file, one after the other. -/
  names : List (List Char)
  /-- Why a step is refused that files and directories would allow. -/
  refusal? : DiskStep → Option Fault
  /-- What of some contents is in a file when writing them is refused. -/
  torn : ByteArray → ByteArray

/-- A disk that refuses nothing, and tries more names than there are entries. -/
def soundDisk (fs : FileSystem) : Disk where
  names := (List.range (fs.entries.length + 1)).map fun n => ".tmp".toList ++ Nat.toDigits 10 n
  refusal? _ := none
  torn := id

/-! ## New files -/

/-- Creates an empty file where nothing is, and says where. -/
def createNew (disk : Disk) (fs : FileSystem) (p : Path) :
    Except Fault (Location × FileSystem) := do
  let loc ← fs.vacancy p
  match disk.refusal? .create with
  | some fault => throw fault
  | none => return (loc, fs.put loc (.file .blank))

/-- Writes a file that was just created. -/
def writeNew (disk : Disk) (fs : FileSystem) (loc : Location) (contents : ByteArray) :
    FileSystem × Except Fault Unit :=
  let holding (contents : ByteArray) := fs.put loc (.file ⟨contents, File.defaultMode⟩)
  match disk.refusal? .write with
  | some fault => (holding (disk.torn contents), .error fault)
  | none => (holding contents, .ok ())

/-! ## Scratch files -/

/-- Takes away the entry at a location, and nothing else. -/
def remove (fs : FileSystem) (loc : Location) : FileSystem :=
  { fs with
    entries := fs.entries.filter fun (l, _) => l ≠ loc
    nodup := (List.filter_sublist.map Prod.fst).nodup fs.nodup }

/-- The first of some names that is free in a directory. -/
def freeName? (fs : FileSystem) (directory : Location) (names : List (List Char)) :
    Option (List Char) :=
  names.find? fun name => (fs.entryAt? (directory ++ [name])).isNone

/-- Creates an empty scratch file in the directory that a path leads to, and says where. -/
def createScratch (disk : Disk) (fs : FileSystem) (directory : Path) :
    Except Fault (Location × FileSystem) := do
  let loc ← fs.locate directory
  match fs.entryAt? loc with
  | none => throw .notFound
  | some (.file _) => throw .notDirectory
  | some .directory =>
    match disk.refusal? .create, fs.freeName? loc disk.names with
    | some fault, _ => throw fault
    | none, none => throw .exists
    | none, some name =>
      let scratch := loc ++ [name]
      return (scratch, fs.put scratch (.file .blank))

/-- Fills a scratch file, up to the first step that is refused. Without a word about the mode it
stays that of a new file. -/
def fillScratch (disk : Disk) (fs : FileSystem) (scratch : Location) (contents : ByteArray)
    (mode? : Option Nat) : FileSystem × Except Fault Unit :=
  let holding (contents : ByteArray) (mode : Nat) := fs.put scratch (.file ⟨contents, mode⟩)
  match disk.refusal? .write, disk.refusal? .flush, mode?, disk.refusal? .setMode with
  | some fault, _, _, _ => (holding (disk.torn contents) File.defaultMode, .error fault)
  | none, some fault, _, _ => (holding contents File.defaultMode, .error fault)
  | none, none, some _, some fault => (holding contents File.defaultMode, .error fault)
  | none, none, some mode, none => (holding contents mode, .ok ())
  | none, none, none, _ => (holding contents File.defaultMode, .ok ())

/-- Moves a scratch file to a path, in place of a file that is there. -/
def moveScratch (disk : Disk) (fs : FileSystem) (scratch : Location) (p : Path) :
    Except Fault FileSystem := do
  if '\x00' ∈ p.text.toList then throw .invalidArgument
  match ← fs.slot p with
  | .inside => throw .busy
  | .named loc endsInSlash =>
    if endsInSlash then throw .notDirectory
    checkName loc
    match fs.entryAt? scratch, fs.entryAt? loc, disk.refusal? .move with
    | some (.file f), some (.file _), none | some (.file f), none, none =>
      if loc = scratch then return fs else return (fs.put loc (.file f)).remove scratch
    | some (.file _), some .directory, _ => throw .isDirectory
    | some (.file _), _, some fault => throw fault
    | _, _, _ => throw .notFound

/-! ## Replacing -/

/-- The path of a location from the root on. -/
def pathOf (loc : Location) : Path := ⟨String.ofList ('/' :: ['/'].intercalate loc)⟩

/-- Puts a file with these contents at a path by way of a scratch file in a directory. What is
replaced passes on its mode. A fault comes with the path that it is about. -/
def replaceFile (disk : Disk) (fs : FileSystem) (directory path : Path) (contents : ByteArray) :
    FileSystem × Except (Path × Fault) Unit :=
  match createScratch disk fs directory with
  | .error fault => (fs, .error (directory, fault))
  | .ok (scratch, created) =>
    match fillScratch disk created scratch contents (fs.mode? path) with
    | (filled, .error fault) => (filled.remove scratch, .error (pathOf scratch, fault))
    | (filled, .ok ()) =>
      match moveScratch disk filled scratch path with
      | .error fault => (filled.remove scratch, .error (path, fault))
      | .ok moved => (moved, .ok ())

end DialogueBuild.FileSystem
