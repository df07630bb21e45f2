import DialogueBuild.Glob.Matching
import DialogueBuild.FileSystem.Basic
/-!
The paths of a file system that a pattern stands for, found by walking its directories one
component of the pattern after the other.
-/
namespace DialogueBuild.Glob

/-- The patterns of the components of a pattern. A slash at the end adds no component. -/
def componentPatterns (cs : List Char) : Except Fault (List Pattern) :=
  let parts := Path.splitSlashes cs
  let parts := if parts.getLast? = some [] then parts.dropLast else parts
  parts.mapM Pattern.ofText

/-- The path of the working directory. -/
def here : Path := ⟨"."⟩

/-- The path of an entry of a directory. -/
def inside (directory : Path) (name : List Char) : Path :=
  if directory.same here then ⟨String.ofList name⟩ else directory.join ⟨String.ofList name⟩

/-- The entries of a directory with their names, in order. -/
def entriesIn (fs : FileSystem) (directory : Path) : List (Path × List Char) :=
  match fs.locate directory with
  | .ok loc => (fs.names loc).map fun name => (inside directory name, name)
  | .error _ => []

/-- The entries at any depth below a directory with their names, every directory before what is in
it. -/
def entriesBelow (fs : FileSystem) (directory : Path) : List (Path × List Char) :=
  match fs.locate directory with
  | .ok loc =>
    (fs.below loc).map fun l => ((l.drop loc.length).foldl inside directory, l.getLast?.getD [])
  | .error _ => []

/-- The directories that a component with wildcards names without being their name: `..` and `.`,
if it starts with a dot itself. -/
def dotPaths (directory : Path) (p : Pattern) : List Path :=
  if p.head? = some (.char '.') then
    ([['.', '.'], ['.']].filter p.accepts).map fun name => directory.join ⟨String.ofList name⟩
  else []

/-- Whether a component without wildcards leads anywhere. `.` and `..` do from every directory. -/
def leads (fs : FileSystem) (directory : Path) (name : List Char) : Bool :=
  if name = ['.'] ∨ name = ['.', '.'] then fs.isDirectory directory
  else fs.isPresent (inside directory name)

mutual

/-- The paths that some components stand for, from a directory on. -/
def expand (fs : FileSystem) : List Pattern → Path → List Path
  | [], path => [path]
  | p :: rest, directory =>
    match p.literal? with
    | some name =>
      if leads fs directory name then expand fs rest (inside directory name) else []
    | none =>
      if !fs.isDirectory directory then []
      else if p.isAnyDirectories then expandBelow fs rest directory
      else
        (dotPaths directory p).flatMap (expand fs rest)
        ++ (entriesIn fs directory).flatMap fun (path, name) =>
          if p.accepts name then expand fs rest path else []

/-- The paths that some components stand for, from any directory below one on. -/
def expandBelow (fs : FileSystem) : List Pattern → Path → List Path
  | [], directory => ((entriesBelow fs directory).map Prod.fst).filter fs.isDirectory
  | p :: rest, directory =>
    if p.isAnyDirectories then expandBelow fs rest directory
    else
      (entriesBelow fs directory).flatMap fun (path, name) =>
        if p.accepts name then expand fs rest path else []

end

/-- The files that a pattern stands for, in the order in which they are found. -/
def files (fs : FileSystem) (cs : List Char) : Except Fault (List Path) := do
  let _ ← Pattern.ofText cs
  let absolute := Path.isAbsoluteText cs
  let components ← componentPatterns (if absolute then cs.drop 1 else cs)
  if cs.getLast? = some '/' then return []
  return (expand fs components (if absolute then ⟨"/"⟩ else here)).filter fs.isFile

end DialogueBuild.Glob
