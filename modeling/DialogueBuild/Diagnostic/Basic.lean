import DialogueBuild.Json.Decoder
/-!
What a compiler has to say about its sources.
-/
namespace DialogueBuild

open Json (Value Decoder Form Field)

inductive Severity
  | info
  | warning
  | error
  deriving DecidableEq, Repr

namespace Severity

def label : Severity → String
  | .info => "info"
  | .warning => "warning"
  | .error => "error"

/-- The name that is written. -/
def name : Severity → String
  | .info => "Info"
  | .warning => "Warning"
  | .error => "Error"

/-- Severities in ascending order. -/
def rank : Severity → Nat
  | .info => 0
  | .warning => 1
  | .error => 2

/-- Every spelling that is read. -/
def variants : List (String × Severity) :=
  [("INFO", .info), ("Info", .info), ("info", .info), ("WARNING", .warning),
   ("Warning", .warning), ("warning", .warning), ("ERROR", .error), ("Error", .error),
   ("error", .error)]

def decode : Decoder Severity := Json.decodeVariant variants

def toJson (s : Severity) : Value := .string s.name

end Severity

/-- A place in a source: line and character, both counted from zero. -/
structure Position where
  line : Int32
  character : Int32
  deriving DecidableEq, Repr

namespace Position

/-- Positions are ordered by line, and then by character. -/
def le (p q : Position) : Bool := p.line < q.line || p.line = q.line && p.character ≤ q.character

def form : Form Position where
  record := "Position"
  fields :=
    [.mayHave "line" Json.int32 fun v p => { p with line := v },
     .mayHave "character" Json.int32 fun v p => { p with character := v }]
  blank := ⟨0, 0⟩

def decode : Decoder Position := form.decode

def toJson (p : Position) : Value :=
  .object [("Line", .ofInt32 p.line), ("Character", .ofInt32 p.character)]

end Position

/-- The part of a source from one position up to another. -/
structure Extent where
  start : Position
  stop : Position
  deriving DecidableEq, Repr

namespace Extent

def form : Form Extent where
  record := "Range"
  fields :=
    [.mayHave "start" Position.decode fun v e => { e with start := v },
     .mayHave "end" Position.decode fun v e => { e with stop := v }]
  blank := ⟨⟨0, 0⟩, ⟨0, 0⟩⟩

def decode : Decoder Extent := form.decode

def toJson (e : Extent) : Value :=
  .object [("Start", e.start.toJson), ("End", e.stop.toJson)]

end Extent

structure Diagnostic where
  message : String
  /-- The source that the diagnostic is about; empty if it is about none. -/
  fileName : String
  extent : Extent
  severity : Severity
  deriving DecidableEq, Repr

namespace Diagnostic

def isError (d : Diagnostic) : Bool := d.severity = .error

def form : Form Diagnostic where
  record := "Diagnostic"
  fields :=
    [.mustHave "message" Json.decodeString fun v d => { d with message := v },
     .mayHave "fileName" Json.decodeString fun v d => { d with fileName := v },
     .mayHave "range" Extent.decode fun v d => { d with extent := v },
     .mustHave "severity" Severity.decode fun v d => { d with severity := v }]
  blank := ⟨"", "", Extent.form.blank, .info⟩

def decode : Decoder Diagnostic := form.decode

def toJson (d : Diagnostic) : Value :=
  .object
    [("Message", .string d.message), ("FileName", .string d.fileName),
     ("Range", d.extent.toJson), ("Severity", d.severity.toJson)]

/-- A number counted from zero as people count. The smallest number comes behind the largest one. -/
def fromOne (n : Int32) : List Char := Json.intText (n + 1).toInt

/-- The diagnostic on one line: its place if it names a source, its severity, its message. -/
def summary (d : Diagnostic) : List Char :=
  let place :=
    if d.fileName.isEmpty then []
    else d.fileName.toList ++ ':' :: fromOne d.extent.start.line
      ++ ':' :: fromOne d.extent.start.character ++ [':', ' ']
  place ++ d.severity.label.toList ++ [':', ' '] ++ d.message.toList

end Diagnostic

end DialogueBuild
