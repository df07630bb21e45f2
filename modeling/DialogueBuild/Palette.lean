import DialogueBuild.Diagnostic.Basic
/-!
Colours of terminal output.
-/
namespace DialogueBuild

/-- The texts that switch a terminal to a colour, and back. -/
structure Palette where
  blue : List Char
  green : List Char
  red : List Char
  yellow : List Char
  dim : List Char
  reset : List Char
  deriving DecidableEq, Repr

/-- An escape sequence that selects a graphic rendition. -/
def rendition (code : List Char) : List Char := ['\x1b', '['] ++ code ++ ['m']

namespace Palette

def colored : Palette where
  blue := rendition ['3', '4']
  green := rendition ['3', '2']
  red := rendition ['3', '1']
  yellow := rendition ['3', '3']
  dim := rendition ['2']
  reset := rendition ['0']

/-- No colours at all. -/
def plain : Palette := ⟨[], [], [], [], [], []⟩

def ofEnabled (enabled : Bool) : Palette := if enabled then colored else plain

def isEnabled (p : Palette) : Bool := !p.reset.isEmpty

/-- The colour of a severity. -/
def severity (p : Palette) : Severity → List Char
  | .error => p.red
  | .warning => p.yellow
  | .info => p.blue

end Palette

end DialogueBuild
