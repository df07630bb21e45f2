import DialogueBuild.Program.Json
import DialogueBuild.Diagnostic.Basic
/-!
What a compiler hands back for a job, and how it is reported as one line of JSON.
-/
namespace DialogueBuild

open Json (Value Decoder Form Field)

/-- A line of dialogue as the compiler lists it. -/
structure StringEntry where
  text : String
  nodeName : String
  lineNumber : Int32
  fileName : String
  /-- Tags of the line, as written. -/
  metadata : List String
  /-- The line had no tag that names it. -/
  isImplicitTag : Bool
  deriving DecidableEq, Repr

def StringEntry.form : Form StringEntry where
  record := "StringTableEntry"
  fields :=
    [.mayHave "text" Json.decodeString fun v e => { e with text := v },
     .mayHave "nodeName" Json.decodeString fun v e => { e with nodeName := v },
     .mayHave "lineNumber" Json.int32 fun v e => { e with lineNumber := v },
     .mayHave "fileName" Json.decodeString fun v e => { e with fileName := v },
     .mayHave "metadata" (Json.decodeList Json.decodeString) fun v e => { e with metadata := v },
     .mayHave "isImplicitTag" Json.decodeBool fun v e => { e with isImplicitTag := v }]
  blank := ⟨"", "", 0, "", [], false⟩

def StringEntry.decode : Decoder StringEntry := StringEntry.form.decode

structure Compilation where
  program : Option Program
  strings : Table StringEntry
  diagnostics : List Diagnostic

namespace Compilation

def form : Form Compilation where
  record := "CompilationResult"
  fields :=
    [.mayHave "program" (Json.decodeOption Program.decode) fun v c => { c with program := v },
     .mayHave "stringTable" (Json.decodeTable StringEntry.decode)
       fun v c => { c with strings := v },
     .mayHave "diagnostics" (Json.decodeList Diagnostic.decode)
       fun v c => { c with diagnostics := v }]
  blank := ⟨none, .empty, []⟩

def decode : Decoder Compilation := form.decode

/-- The result that a text holds. -/
def ofText (text : String) : Except Json.Problem Compilation := Json.decodeText? decode text

def hasErrors (c : Compilation) : Bool := c.diagnostics.any Diagnostic.isError

def errorCount (c : Compilation) : Nat := c.diagnostics.countP Diagnostic.isError

def warningCount (c : Compilation) : Nat :=
  c.diagnostics.countP fun d => d.severity = .warning

/-- The text of the line with an id. -/
def lineText? (c : Compilation) (id : String) : Option String :=
  (c.strings.get? id).map StringEntry.text

/-- The two ways to ask for errors agree. -/
theorem hasErrors_eq_false_iff (c : Compilation) : c.hasErrors = false ↔ c.errorCount = 0 := by
  simp [hasErrors, errorCount, List.countP_eq_zero]

/-! ## Reports -/

/-- The program, the texts of the lines, and the diagnostics. Nothing else that is known of a line
is reported. -/
def reportBody (c : Compilation) : Value :=
  .object
    [("Program", match c.program with
      | some p => p.toJson
      | none => .null),
     ("Strings", .ofTable (fun e => .object [("Text", .string e.text)]) c.strings),
     ("Diagnostics", .array (c.diagnostics.map Diagnostic.toJson))]

/-- The text of the report, with its line end. -/
def reportText (c : Compilation) : List Char := c.reportBody.compact ++ ['\n']

end Compilation

end DialogueBuild
