import DialogueBuild.Diagnostic.Basic
/-!
Where the positions of a diagnostic are in the text of its source, counted in bytes.

Positions outside the text count as its ends, and characters outside a line as the end of the line.
-/
namespace DialogueBuild

/-- The bytes of a text. -/
def textSize (cs : List Char) : Nat := (cs.map Char.utf8Size).foldr (· + ·) 0

/-- What stands behind so many bytes of a text. -/
def dropBytes : Nat → List Char → List Char
  | _, [] => []
  | n, c :: rest => if n = 0 then c :: rest else dropBytes (n - c.utf8Size) rest

/-- What stands in so many bytes of a text. -/
def takeBytes : Nat → List Char → List Char
  | _, [] => []
  | n, c :: rest => if n = 0 then [] else c :: takeBytes (n - c.utf8Size) rest

/-- The bytes in front of a character of a line. -/
def offsetOf : List Char → (line character : Nat) → Nat
  | [], _, _ => 0
  | _ :: _, 0, 0 => 0
  | c :: rest, 0, k + 1 => if c = '\n' then 0 else c.utf8Size + offsetOf rest 0 k
  | c :: rest, l + 1, k => c.utf8Size + offsetOf rest (if c = '\n' then l else l + 1) k

namespace Position

/-- The bytes in front of a position. Negative numbers count as zero. -/
def offset (source : List Char) (p : Position) : Nat :=
  offsetOf source p.line.toInt.toNat p.character.toInt.toNat

end Position

/-- Bytes of a source, from the first up to but not including the second. -/
structure Span where
  start : Nat
  stop : Nat
  deriving DecidableEq, Repr

/-- The bytes that an extent covers. An extent that covers nothing is widened to one character. -/
def Extent.span (source : List Char) (e : Extent) : Span :=
  let start := e.start.offset source
  let stop := max (e.stop.offset source) start
  if start = stop then
    match dropBytes start source with
    | c :: _ => ⟨start, start + c.utf8Size⟩
    | [] => ⟨start, start⟩
  else ⟨start, stop⟩

/-- The text that a span covers. -/
def Span.text (source : List Char) (s : Span) : List Char :=
  takeBytes (s.stop - s.start) (dropBytes s.start source)

end DialogueBuild
