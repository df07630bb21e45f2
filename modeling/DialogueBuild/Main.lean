import DialogueBuild.CommandLine.Run
/-!
The program on a command line.

A run sees the files below the working directory, and the files that it changes are written when
it has ended. The answer of the dialogue compiler is read from standard input, whatever the
compiler is called, so that the compiler itself runs in front of this program.
-/
namespace DialogueBuild.Main

open CommandLine

/-- The entries below a directory of the disk, as far as they can be read; `loc` is its location. -/
partial def readTree (loc : Location) (entries : Array IO.FS.DirEntry) :
    IO (List (Location × Entry)) := do
  let mut found := []
  for e in entries do
    let l := loc ++ [e.fileName.toList]
    if ← e.path.isDir then
      found := found ++ (l, .directory) :: (← readTree l (← e.path.readDir))
    else
      match ← (IO.FS.readBinFile e.path).toBaseIO with
      | .ok contents => found := found ++ [(l, .file ⟨contents, File.defaultMode⟩)]
      | .error _ => pure ()
  return found

/-- The files below the working directory. -/
def readFiles : IO FileSystem := do
  let directory ← IO.currentDir
  let loc := FileSystem.parts ⟨directory.toString⟩
  let empty : FileSystem := ⟨[], List.nodup_nil, loc⟩
  let parents := (List.range loc.length).map fun n => (loc.take (n + 1), Entry.directory)
  let entries ← readTree loc (← directory.readDir)
  return (parents ++ entries).foldl (fun fs (l, e) => fs.put l e) empty

/-- Writes what is new or changed. -/
def writeChanges (before after : FileSystem) : IO Unit := do
  for (loc, e) in after.entries do
    if before.entryAt? loc ≠ some e then
      let path := String.ofList ('/' :: ['/'].intercalate loc)
      match e with
      | .directory => IO.FS.createDirAll path
      | .file f => IO.FS.writeBinFile path f.contents

/-- The compiler that an invocation names. -/
def compilerName : Invocation → Option String
  | .compile r => some r.compiler.text
  | .dumpCode r => some r.compiler.text
  | .createProject _ => none

/-- The compilers that a run finds: the named one, with an answer that waits on standard input. -/
def commands (preset : Option String) (args : List String) : IO (List (String × Compiler)) := do
  match (parse args preset).toOption.bind compilerName with
  | some name =>
    let answer ← (← IO.getStdin).readToEnd
    return [(name, ⟨answer, "", .exited 0, true⟩)]
  | none => return []

end DialogueBuild.Main

open DialogueBuild DialogueBuild.CommandLine in
def main (args : List String) : IO UInt32 := do
  let preset ← IO.getEnv compilerVariable
  let stdout ← IO.getStdout
  let stderr ← IO.getStderr
  let isTerminal := (← stdout.isTty) && (← stderr.isTty)
  let files ← Main.readFiles
  let machine : Machine := ⟨files, ← Main.commands preset args⟩
  let outcome := Surroundings.run ⟨machine, preset, isTerminal⟩ args
  Main.writeChanges files outcome.files
  stdout.putStr (String.ofList outcome.stdout)
  stderr.putStr (String.ofList outcome.stderr)
  return outcome.exitCode.toUInt32
