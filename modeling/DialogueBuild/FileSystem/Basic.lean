import DialogueBuild.FileSystem.Fault
import DialogueBuild.Path.Basic
import DialogueBuild.Table
/-!
File systems: files and directories at locations under one root, and how a path leads to one.

A location is the list of names below the root. The root itself is always a directory.

Results:

1. `entryAt?_put_self`, `entryAt?_put_of_ne`   a write is read back and changes no other location.
-/
namespace DialogueBuild

/-- The names that lead to an entry from the root. -/
abbrev Location := List (List Char)

structure File where
  contents : ByteArray
  /-- The permission bits. -/
  mode : Nat

-- with the test of byte arrays that is compiled, whatever other one is in scope
instance : DecidableEq File := fun ⟨a, m⟩ ⟨b, n⟩ =>
  match ByteArray.decEq a b, Nat.decEq m n with
  | isTrue ha, isTrue hm => isTrue (by rw [ha, hm])
  | isFalse ha, _ => isFalse fun h => ha (File.mk.inj h).1
  | _, isFalse hm => isFalse fun h => hm (File.mk.inj h).2

/-- The permissions of a file that is created without a word about them. -/
def File.defaultMode : Nat := 0o644

/-- A file that was just created. -/
def File.blank : File := ⟨.empty, defaultMode⟩

/-- A new file that holds a text. -/
def File.ofText (text : String) : File := ⟨text.toUTF8, defaultMode⟩

/-- The text that a file holds. -/
def File.text? (f : File) : Option String := String.fromUTF8? f.contents

inductive Entry
  | file (f : File)
  | directory
  deriving DecidableEq

/-- The permissions of directories, which all have the same ones. -/
def Entry.directoryMode : Nat := 0o755

def Entry.mode : Entry → Nat
  | .file f => f.mode
  | .directory => directoryMode

structure FileSystem where
  entries : List (Location × Entry)
  nodup : (entries.map Prod.fst).Nodup
  /-- Where relative paths start. -/
  workingDirectory : Location

namespace FileSystem

/-! ## Entries -/

/-- The entry at a location. -/
def entryAt? (fs : FileSystem) : Location → Option Entry
  | [] => some .directory
  | loc => findEntry? loc fs.entries

/-- Puts an entry at a location in place of what was there. -/
def put (fs : FileSystem) (loc : Location) (e : Entry) : FileSystem :=
  { fs with entries := insertEntry loc e fs.entries, nodup := insertEntry_nodup fs.nodup }

/-- Takes away what is at a location or below it. -/
def erase (fs : FileSystem) (loc : Location) : FileSystem :=
  { fs with
    entries := fs.entries.filter fun (l, _) => !loc.isPrefixOf l
    nodup := (List.filter_sublist.map Prod.fst).nodup fs.nodup }

theorem entryAt?_put_self {fs : FileSystem} {loc : Location} {e : Entry} (h : loc ≠ []) :
    (fs.put loc e).entryAt? loc = some e := by
  cases loc with
  | nil => exact absurd rfl h
  | cons n rest => simp [entryAt?, put, findEntry?_insertEntry]

theorem entryAt?_put_of_ne {fs : FileSystem} {loc l : Location} {e : Entry} (h : l ≠ loc) :
    (fs.put loc e).entryAt? l = fs.entryAt? l := by
  cases l with
  | nil => rfl
  | cons n rest => simp [entryAt?, put, findEntry?_insertEntry, h]

/-! ## Where paths lead -/

/-- The bytes that a name may have. -/
def maxName : Nat := 255

/-- The bytes that a path may have. -/
def maxPath : Nat := 4095

def isTooLong (limit : Nat) (cs : List Char) : Bool := limit < (String.ofList cs).utf8ByteSize

/-- The parts of a path, one after the other. A slash at the end asks for a directory, as a `.`
does. -/
def parts (p : Path) : List (List Char) :=
  let cs := p.text.toList
  (Path.splitSlashes cs).filter (fun part => !part.isEmpty)
    ++ if cs.getLast? = some '/' then [['.']] else []

/-- Where the parts of a path start. -/
def start (fs : FileSystem) (p : Path) : Location :=
  if p.isAbsolute then [] else fs.workingDirectory

/-- Refuses paths that no entry can have. -/
def checkPath (p : Path) : Except Fault Unit :=
  if '\x00' ∈ p.text.toList then .error .nulInPath
  else if p.isEmpty then .error .notFound
  else if isTooLong maxPath p.text.toList then .error .nameTooLong
  else .ok ()

/-- Takes one step from a location. Every part can be taken from a directory only. -/
def step (fs : FileSystem) (loc : Location) (part : List Char) : Except Fault Location :=
  match fs.entryAt? loc with
  | none => .error .notFound
  | some (.file _) => .error .notDirectory
  | some .directory =>
    if part = ['.'] then .ok loc
    else if part = ['.', '.'] then .ok loc.dropLast
    else if isTooLong maxName part then .error .nameTooLong
    else
      match fs.entryAt? (loc ++ [part]) with
      | none => .error .notFound
      | some _ => .ok (loc ++ [part])

/-- Follows the parts of a path from a location. -/
def walk (fs : FileSystem) (loc : Location) : List (List Char) → Except Fault Location
  | [] => .ok loc
  | part :: rest => do fs.walk (← fs.step loc part) rest

/-- The location that a path leads to. -/
def locate (fs : FileSystem) (p : Path) : Except Fault Location := do
  checkPath p
  fs.walk (fs.start p) (parts p)

/-- The entry that a path leads to. -/
def lookup (fs : FileSystem) (p : Path) : Except Fault Entry := do
  match fs.entryAt? (← fs.locate p) with
  | some e => return e
  | none => throw .notFound

def isPresent (fs : FileSystem) (p : Path) : Bool :=
  match fs.lookup p with
  | .ok _ => true
  | .error _ => false

def isDirectory (fs : FileSystem) (p : Path) : Bool :=
  match fs.lookup p with
  | .ok .directory => true
  | _ => false

def isFile (fs : FileSystem) (p : Path) : Bool :=
  match fs.lookup p with
  | .ok (.file _) => true
  | _ => false

/-- The permissions of what a path leads to. -/
def mode? (fs : FileSystem) (p : Path) : Option Nat :=
  match fs.lookup p with
  | .ok e => some e.mode
  | .error _ => none

/-- The file that a path leads to. -/
def fileAt (fs : FileSystem) (p : Path) : Except Fault File := do
  match ← fs.lookup p with
  | .file f => return f
  | .directory => throw .isDirectory

/-- The text in the file that a path leads to. -/
def readText (fs : FileSystem) (p : Path) : Except Fault String := do
  match (← fs.fileAt p).text? with
  | some text => return text
  | none => throw .notText

/-! ## What is where -/

/-- Locations are ordered name by name. -/
def locationKey (loc : Location) : List (List Nat) := loc.map Path.codes

/-- The locations below one, every directory before what is in it, and names in order. -/
def below (fs : FileSystem) (loc : Location) : List Location :=
  ((fs.entries.map Prod.fst).filter fun l => loc.isPrefixOf l && loc.length < l.length).mergeSort
    fun a b => !decide (locationKey b < locationKey a)

/-- The names in a directory, in order. -/
def names (fs : FileSystem) (loc : Location) : List (List Char) :=
  ((fs.below loc).filter fun l => l.length = loc.length + 1).filterMap List.getLast?

end FileSystem

end DialogueBuild
