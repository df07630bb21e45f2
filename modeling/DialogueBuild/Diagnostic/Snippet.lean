import DialogueBuild.Diagnostic.SourceLine
import DialogueBuild.FileSystem.Basic
import DialogueBuild.Palette
import DialogueBuild.Text.Blank
/-!
Diagnostics with the lines of the source that they are about, where these are known.
-/
namespace DialogueBuild.Snippet

open Decimal (digitsOf)

/-! ## Rows -/

inductive Ink
  | plain
  | strong
  /-- Line numbers and the bar beside the source. -/
  | gutter
  /-- The colour of the severity. -/
  | level
  deriving DecidableEq, Repr

structure Run where
  ink : Ink
  text : List Char
  deriving DecidableEq, Repr

/-- A row of output, without its line end. -/
abbrev Row := List Run

def bold : List Char := rendition ['1']

def levelColour : Severity → List Char
  | .error => rendition ['9', '1']
  | .warning => rendition ['3', '3']
  | .info => rendition ['9', '4']

/-- What switches a terminal to an ink. -/
def Ink.start (s : Severity) : Ink → List Char
  | .plain => []
  | .strong => bold
  | .gutter => bold ++ rendition ['9', '4']
  | .level => bold ++ levelColour s

def Run.paint (colored : Bool) (s : Severity) (r : Run) : List Char :=
  if !colored || r.ink = .plain || r.text.isEmpty then r.text
  else r.ink.start s ++ r.text ++ rendition ['0']

def paintRow (colored : Bool) (s : Severity) (row : Row) : List Char :=
  row.flatMap (Run.paint colored s) ++ ['\n']

def spaces (n : Nat) : List Char := List.replicate n ' '

/-! ## The frame -/

/-- The message behind the severity; further lines of it stand below its first one. -/
def messageRows (s : Severity) (message : String) : List Row :=
  let label := s.label.toList
  match Text.split '\n' message.toList with
  | [] => []
  | first :: rest =>
    [⟨.level, label⟩, ⟨.strong, [':', ' '] ++ SourceLine.shownText first⟩]
      :: rest.map fun line =>
        [⟨.plain, spaces (label.length + 2)⟩, ⟨.strong, SourceLine.shownText line⟩]

/-- Where the source is, and where in it the diagnostic starts. -/
def placeRow (width : Nat) (fileName : String) (start : SourceLine.Mark) : Row :=
  [⟨.plain, spaces width⟩, ⟨.gutter, ['-', '-', '>', ' ']⟩,
   ⟨.plain, fileName.toList ++ ':' :: digitsOf start.line.number
     ++ ':' :: digitsOf (start.characters + 1)⟩]

/-- A row beside the source that is no line of it. -/
def besideRow (width : Nat) (runs : Row) : Row :=
  [⟨.plain, spaces (width + 1)⟩, ⟨.gutter, ['|']⟩] ++ runs

/-- A line number and the bar beside it. A number that is a digit too wide takes the place of the
blank in front of the bar. -/
def numberRuns (width number : Nat) : Row :=
  let digits := digitsOf number
  if digits.length ≤ width then
    [⟨.gutter, spaces (width - digits.length) ++ digits⟩, ⟨.plain, [' ']⟩, ⟨.gutter, ['|']⟩]
  else [⟨.gutter, digits ++ ['|']⟩]

/-- A line of the source behind its number, with a mark in front of it. -/
def lineRow (width : Nat) (line : SourceLine) (front : Row) : Row :=
  let text := SourceLine.shownText line.text
  numberRuns width line.number ++ front ++ if text.isEmpty then [] else [⟨.plain, ' ' :: text⟩]

/-! ## One line -/

/-- The line of a span with carets below it. -/
def oneLineRows (width : Nat) (start stop : SourceLine.Mark) : List Row :=
  let carets := max 1 (stop.columns - start.columns)
  [lineRow width start.line [],
   besideRow width
     [⟨.plain, spaces (start.columns + 1)⟩, ⟨.level, List.replicate carets '^'⟩]]

/-! ## Several lines -/

/-- The bar along the lines of a span. -/
def bar : Row := [⟨.plain, [' ']⟩, ⟨.level, ['|']⟩]

/-- Whether a line has more on it than blanks, a single bracket or a comment. -/
def isTelling (cs : List Char) : Bool :=
  let text := Text.trim cs
  let isComment := ['/', '/'].isPrefixOf text
    && !(['/', '/', '/'].isPrefixOf text || ['/', '/', '!'].isPrefixOf text)
  !isComment && !text.isEmpty
    && !(text.length = 1 && text.any (['{', '}', '(', ')', '[', ']'].contains ·))

/-- The lines of a span between its first and its last one that are shown in any case: those up to
the fourth behind the first, without a tail that tells nothing, and the one before the last. -/
def innerLines (lines : List SourceLine) (start stop : Nat) : List SourceLine :=
  let middle := min (start + 4) stop
  let telling := lines.filter fun l => start ≤ l.number && l.number < middle && isTelling l.text
  let last := match telling.getLast? with
    | some l => l.number
    | none => start
  let head := lines.filter fun l => start < l.number && l.number ≤ last
  let tail := lines.filter fun l => middle < l.number && l.number + 1 = stop && isTelling l.text
  head ++ tail

/-- Dots for lines that are left out, and the bar along them. -/
def dotsRow (width : Nat) : Row :=
  [⟨.gutter, ['.', '.', '.']⟩, ⟨.plain, spaces (width - 1)⟩] ++ bar

/-- What stands between a line that is shown and the next one: nothing, the only line between
them, or dots. -/
def gapRows (width : Nat) (lines : List SourceLine) (number next : Nat) : List Row :=
  if next ≤ number + 1 then []
  else if next = number + 2 then
    (lines.filter fun l => l.number = number + 1).map fun l => lineRow width l bar
  else [dotsRow width]

/-- Whether only blanks stand in front of a place in a line. -/
def startsLine (m : SourceLine.Mark) : Bool :=
  ((SourceLine.shownText m.line.text).take m.columns).all Text.isBlank

/-- The first line of a span, with the corner where its bar starts. -/
def firstRows (width : Nat) (start : SourceLine.Mark) : List Row :=
  if startsLine start then [lineRow width start.line [⟨.plain, [' ']⟩, ⟨.level, ['/']⟩]]
  else
    [lineRow width start.line [⟨.plain, [' ', ' ']⟩],
     besideRow width
       [⟨.plain, [' ']⟩,
        ⟨.level, ' ' :: List.replicate (start.columns + 1) '_' ++ ['^']⟩]]

/-- The last line of a span, with the corner where its bar ends. -/
def lastRows (width : Nat) (stop : SourceLine.Mark) : List Row :=
  [lineRow width stop.line bar,
   besideRow width
     [⟨.plain, [' ']⟩,
      ⟨.level, '|' :: List.replicate (max 1 stop.columns) '_' ++ ['^']⟩]]

/-- The lines that are shown between the first and the last one, each with the gap before it. -/
def innerRows (width : Nat) (lines : List SourceLine) (last : Nat) :
    (number : Nat) → List SourceLine → List Row
  | number, [] => gapRows width lines number last
  | number, l :: rest =>
    gapRows width lines number l.number ++ lineRow width l bar
      :: innerRows width lines last l.number rest

def severalLinesRows (width : Nat) (lines : List SourceLine) (start stop : SourceLine.Mark) :
    List Row :=
  firstRows width start
    ++ innerRows width lines stop.line.number start.line.number
      (innerLines lines start.line.number stop.line.number)
    ++ lastRows width stop

/-! ## The whole -/

/-- The width of the column of line numbers: that of the number of lines up to the end of the span.
A line that the span reaches without covering anything of it does not count. -/
def gutterWidth (source : List Char) (s : Span) : Nat :=
  (digitsOf (SourceLine.ofSource (takeBytes s.stop source)).length).length

/-- The rows of a diagnostic and of the source that it is about. -/
def rows (d : Diagnostic) (source : List Char) : List Row :=
  let lines := SourceLine.ofSource source
  let span := d.extent.span source
  let start := SourceLine.startMark lines span
  let stop := SourceLine.stopMark lines span start
  let width := gutterWidth source span
  messageRows d.severity d.message
    ++ [placeRow width d.fileName start, besideRow width []]
    ++ if start.line.number = stop.line.number then oneLineRows width start stop
       else severalLinesRows width lines start stop

/-- The text of a diagnostic with its source. -/
def text (colored : Bool) (d : Diagnostic) (source : List Char) : List Char :=
  (rows d source).flatMap (paintRow colored d.severity)

end DialogueBuild.Snippet

namespace DialogueBuild.Diagnostic

/-! ## Printing -/

/-- The text of a diagnostic, with its line end. -/
def render (colored : Bool) (sources : Table String) (d : Diagnostic) : List Char :=
  match sources.get? d.fileName with
  | some source => Snippet.text colored d source.toList
  | none => d.summary ++ ['\n']

/-- The texts of diagnostics, with an empty line between each two. -/
def renderAll (colored : Bool) (sources : Table String) (ds : List Diagnostic) : List Char :=
  ['\n'].intercalate (ds.map (render colored sources))

/-- Adds the text of a file, unless it is known already or cannot be read. -/
def addSource (fs : FileSystem) (sources : Table String) (fileName : String) : Table String :=
  if fileName.isEmpty ∨ (sources.get? fileName).isSome then sources
  else
    match fs.readText ⟨fileName⟩ with
    | .ok text => sources.insert fileName text
    | .error _ => sources

/-- The texts of the files that diagnostics are about, as far as they can be read. -/
def loadSources (fs : FileSystem) (ds : List Diagnostic) : Table String :=
  ds.foldl (fun sources d => addSource fs sources d.fileName) .empty

end DialogueBuild.Diagnostic
