import DialogueBuild.FileSystem.Basic
/-!
Changes of a file system. A change that is refused leaves everything as it was, except that
directories which were created on the way stay.
-/
namespace DialogueBuild.FileSystem

/-! ## Where something new goes -/

/-- Where a path leads whose last part need not be there. -/
inductive Slot
  /-- Into a directory, by `.` or `..` or the root. -/
  | inside
  /-- To a name in a directory; the path may end in a slash. -/
  | named (loc : Location) (endsInSlash : Bool)

def slot (fs : FileSystem) (p : Path) : Except Fault Slot := do
  checkPath p
  let names := (Path.splitSlashes p.text.toList).filter fun part => !part.isEmpty
  match names.getLast? with
  | none => return .inside
  | some last =>
    let parent ← fs.walk (fs.start p) names.dropLast
    match fs.entryAt? parent with
    | some .directory =>
      if last = ['.'] ∨ last = ['.', '.'] then return .inside
      else return .named (parent ++ [last]) (p.text.toList.getLast? = some '/')
    | some (.file _) => throw .notDirectory
    | none => throw .notFound

/-- Refuses a location whose name is too long. The names in front of it are those of entries. -/
def checkName (loc : Location) : Except Fault Unit :=
  if loc.getLast?.any (isTooLong maxName) then .error .nameTooLong else .ok ()

/-! ## Creating -/

/-- Where a file goes that is created where nothing is. -/
def vacancy (fs : FileSystem) (p : Path) : Except Fault Location := do
  match ← fs.slot p with
  | .inside => throw .exists
  | .named loc endsInSlash =>
    if endsInSlash then throw .isDirectory
    checkName loc
    match fs.entryAt? loc with
    | some _ => throw .exists
    | none => return loc

/-- Creates a directory where nothing is. -/
def createDirectory (fs : FileSystem) (p : Path) : Except Fault FileSystem := do
  match ← fs.slot p with
  | .inside => throw .exists
  | .named loc _ =>
    checkName loc
    match fs.entryAt? loc with
    | some _ => throw .exists
    | none => return fs.put loc .directory

/-- A path and the paths that lead to it, the longest first; neither the root nor the empty path. -/
def ancestors (p : Path) : List Path := go (p.components.length + 1) p
where
  go : Nat → Path → List Path
    | 0, _ => []
    | n + 1, p =>
      match p.parent? with
      | some parent => if p.isEmpty then [] else p :: go n parent
      | none => []

/-- Creates the first of some directories, if need be after the others. -/
def createFirst (fs : FileSystem) : List Path → FileSystem × Except Fault Unit
  | [] => (fs, .ok ())
  | p :: parents =>
    match fs.createDirectory p with
    | .ok fs => (fs, .ok ())
    | .error .notFound =>
      match fs.createFirst parents with
      | (fs, .error e) => (fs, .error e)
      | (fs, .ok ()) => settle fs p (fs.createDirectory p)
    | .error e => settle fs p (.error e)
where
  /-- A directory that is there already will do. -/
  settle (fs : FileSystem) (p : Path) : Except Fault FileSystem → FileSystem × Except Fault Unit
    | .ok fs => (fs, .ok ())
    | .error .exists => if fs.isDirectory p then (fs, .ok ()) else (fs, .error .exists)
    | .error e => (fs, .error e)

/-- Creates a directory and all that lead to it. -/
def createDirectories (fs : FileSystem) (p : Path) : FileSystem × Except Fault Unit :=
  fs.createFirst (ancestors p)

/-! ## Writing -/

/-- Writes a file, whether there is one already or not. An old file keeps its permissions. -/
def storeFile (fs : FileSystem) (p : Path) (contents : ByteArray) : Except Fault FileSystem := do
  match ← fs.slot p with
  | .inside => throw .isDirectory
  | .named loc endsInSlash =>
    if endsInSlash then throw .isDirectory
    checkName loc
    match fs.entryAt? loc with
    | some .directory => throw .isDirectory
    | some (.file old) => return fs.put loc (.file ⟨contents, old.mode⟩)
    | none => return fs.put loc (.file ⟨contents, File.defaultMode⟩)

/-- Changes the permissions of a file. -/
def setMode (fs : FileSystem) (p : Path) (mode : Nat) : Except Fault FileSystem := do
  let loc ← fs.locate p
  match fs.entryAt? loc with
  | some (.file f) => return fs.put loc (.file ⟨f.contents, mode⟩)
  | some .directory => return fs
  | none => throw .notFound

/-- Removes a file. Directories stay. -/
def removeFile (fs : FileSystem) (p : Path) : Except Fault FileSystem := do
  match ← fs.slot p with
  | .inside => throw .isDirectory
  | .named loc endsInSlash =>
    checkName loc
    match fs.entryAt? loc with
    | some .directory => throw .isDirectory
    | some (.file _) => if endsInSlash then throw .notDirectory else return fs.erase loc
    | none => throw .notFound

/-! ## A working directory of its own -/

/-- An empty working directory inside a directory. -/
def fresh (parent name : List Char) : FileSystem where
  entries := [([parent], .directory), ([parent, name], .directory)]
  nodup := by simp
  workingDirectory := [parent, name]

/-- The paths below the working directory, directories with a slash at the end, in order. -/
def tree (fs : FileSystem) : List String :=
  let shown (loc : Location) : List Char :=
    let path := ['/'].intercalate (loc.drop fs.workingDirectory.length)
    if fs.entryAt? loc = some .directory then path ++ ['/'] else path
  (((fs.below fs.workingDirectory).map shown).mergeSort
    fun a b => !decide (Path.codes b < Path.codes a)).map String.ofList

end DialogueBuild.FileSystem
