import DialogueBuild.FileSystem.Basic
/-!
Files that are run as compilers.

A file is run by the interpreter that its first line names behind `#!`, and that may be a script
itself. No file is a program of its own, so that every run ends in a refusal.
-/
namespace DialogueBuild.Script

/-! ## The first line -/

/-- The bytes at the start of a file that tell how it is run. -/
def headSize : Nat := 256

/-- Blanks and tabs stand between the words of a line. -/
def isGap (b : UInt8) : Bool := b = 0x20 || b = 0x09

/-- NUL ends a word as well. -/
def endsWord (b : UInt8) : Bool := isGap b || b = 0

/-- The interpreter that a file names. A name that may go on behind the head does not count; the
empty name stands for what is in front of a NUL, or where the file ends. -/
def interpreter? (contents : ByteArray) : Option (List UInt8) :=
  match (contents.extract 0 headSize).toList with
  | 0x23 :: 0x21 :: rest =>
    let line := rest.takeWhile (· ≠ 0x0A)
    let words := line.dropWhile isGap
    let isNamed :=
      if line.length < rest.length then !words.isEmpty
      else contents.size < headSize || words.any endsWord
    if isNamed then some (words.takeWhile fun b => !endsWord b) else none
  | _ => none

/-! ## Refusals -/

/-- Bits that permit to execute a file. -/
def executeBits : Nat := 0o111

/-- The scripts that may run one another. -/
def maxScripts : Nat := 6

/-- The file that a path leads to, if it may be executed. -/
def executable (files : FileSystem) (path : Path) : Except FileSystem.Fault File := do
  match ← files.lookup path with
  | .directory => throw .denied
  | .file f => if f.mode &&& executeBits = 0 then throw .denied else return f

/-- The path of an interpreter. The empty one leads to the working directory, and so to nothing that
can be executed. -/
def interpreterPath (name : List UInt8) : Except FileSystem.Fault Path :=
  if name.isEmpty then .error .denied
  else
    match String.fromUTF8? ⟨name.toArray⟩ with
    | some text => .ok ⟨text⟩
    | none => .error .notFound

/-- Runs the file at a path, with so many further scripts allowed to run one another. -/
def refuse (files : FileSystem) : (scripts : Nat) → Path → Except FileSystem.Fault Empty
  | 0, path => do
    let _ ← executable files path
    throw .tooManyLinks
  | scripts + 1, path => do
    let f ← executable files path
    match interpreter? f.contents with
    | some name => refuse files scripts (← interpreterPath name)
    | none => throw .notExecutable

end DialogueBuild.Script
