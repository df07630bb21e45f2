import DialogueBuild.Diagnostic.Place
import DialogueBuild.Text.Columns
import DialogueBuild.Text.Split
/-!
The lines of a source, and where its bytes are shown on a terminal.
-/
namespace DialogueBuild

/-- A line without its line end. -/
structure SourceLine where
  /-- Lines are counted from one. -/
  number : Nat
  text : List Char
  /-- The bytes in front of the line. -/
  start : Nat
  /-- The bytes up to the end of the line, its line end included. -/
  stop : Nat
  deriving DecidableEq, Repr

namespace SourceLine

/-- Leaves out a carriage return at the end. -/
def dropReturn (cs : List Char) : List Char :=
  if cs.getLast? = some '\r' then cs.dropLast else cs

/-- The lines that stand between line feeds, of which the first has this number and place. Behind
the last line feed there is a line only if something stands there. -/
def between (number start : Nat) : List (List Char) → List SourceLine
  | [] => []
  | [last] =>
    if last.isEmpty && 1 < number then [] else [⟨number, last, start, start + textSize last⟩]
  | part :: rest =>
    let stop := start + textSize part + 1
    ⟨number, dropReturn part, start, stop⟩ :: between (number + 1) stop rest

/-- The lines of a source. An empty source is an empty line. -/
def ofSource (source : List Char) : List SourceLine := between 1 0 (Text.split '\n' source)

def empty : SourceLine := ⟨1, [], 0, 0⟩

/-- The line that a byte belongs to. What is behind all lines belongs to the last one. -/
def holding (lines : List SourceLine) (byte : Nat) : SourceLine :=
  (lines.find? fun l => l.start ≤ byte && byte < l.stop).getD (lines.getLast?.getD empty)

/-- Characters that would change the direction of the text. -/
def turnsText (c : Char) : Bool :=
  0x202A ≤ c.toNat && c.toNat ≤ 0x202E || 0x2066 ≤ c.toNat && c.toNat ≤ 0x2069

/-- The columns that a character takes as it is shown. -/
def columns (c : Char) : Nat :=
  if c = '\t' then 4 else if turnsText c then 1 else Text.columns c

/-- How a character is shown: characters without a sign of their own get one, a tab is four
spaces, and a joiner vanishes. -/
def shown (c : Char) : List Char :=
  if c = '\t' then [' ', ' ', ' ', ' ']
  else if c.toNat < 0x20 ∧ c ≠ '\n' then [Char.ofNat (0x2400 + c.toNat)]
  else if c.toNat = 0x7F then ['\u2421']
  else if c.toNat = 0x200D then []
  else if turnsText c then ['\uFFFD']
  else [c]

def shownText (cs : List Char) : List Char := cs.flatMap shown

/-! ## Marks -/

/-- A place in a line: what stands in front of it, in characters and in columns. -/
structure Mark where
  line : SourceLine
  characters : Nat
  columns : Nat
  deriving DecidableEq, Repr

/-- The place of a byte in its line. -/
def mark (lines : List SourceLine) (byte : Nat) : Mark :=
  let line := holding lines byte
  let front := takeBytes (byte - line.start) line.text
  ⟨line, front.length, (front.map columns).foldr (· + ·) 0⟩

/-- The place where a span starts. One inside the line end is a character behind the line. -/
def startMark (lines : List SourceLine) (s : Span) : Mark :=
  let m := mark lines s.start
  if textSize m.line.text < s.start - m.line.start then { m with characters := m.characters + 1 }
  else m

/-- The place where a span ends. In a line other than that of the start, one inside the line end
is behind the line. -/
def stopMark (lines : List SourceLine) (s : Span) (start : Mark) : Mark :=
  if s.start = s.stop then start
  else
    let m := mark lines s.stop
    if start.line.number ≠ m.line.number ∧ m.line.start + textSize m.line.text < s.stop then
      { m with characters := m.characters + 1, columns := m.columns + 1 }
    else m

end SourceLine

end DialogueBuild
