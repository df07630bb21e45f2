import DialogueBuild.Proofs.Lua.ReadBack
import DialogueBuild.Lua.Chunk
import DialogueBuild.Compilation
/-!
Modules and reports show the same result.

The two outputs are made from different projections of the table of strings, and they treat null
members differently: a module drops them while it is written, a report keeps them.

Results:

1. `lines_match`      the lines of a module and the strings of a report agree entry by entry;
2. `outputs_agree`    the table of a module is the text of the program of the report and of these
                      lines, once null members are taken out of them.
-/
namespace DialogueBuild

open Json (Value)

/-- The entry of a line in a module and the entry of a string in a report have the same name and
the same text. -/
def SameText (line string : String × Value) : Prop :=
  line.1 = string.1 ∧
    ∃ text : String, line.2.member? "Text" = some (.string text) ∧
      string.2.member? "Text" = some (.string text)

/-- What a report says of a string. -/
def StringEntry.reported (e : StringEntry) : Value := .object [("Text", .string e.text)]

/-- The lines of a module stand in the order of the strings of a report. -/
theorem lines_match (entries : List (String × StringEntry)) :
    List.Forall₂ SameText (entries.map fun e => (e.1, (Line.ofEntry e.2).toJson))
      (entries.map fun e => (e.1, e.2.reported)) := by
  induction entries with
  | nil => exact .nil
  | cons e rest ih =>
    have htext : (Line.ofEntry e.2).toJson.member? "Text" = some (.string e.2.text) := rfl
    exact .cons ⟨rfl, e.2.text, htext, rfl⟩ ih

/-- The program as a member of an output. -/
def Compilation.programMember (c : Compilation) : Value := (c.program.map Program.toJson).getD .null

theorem Compilation.reportBody_eq (c : Compilation) :
    c.reportBody = .object [("Program", c.programMember),
      ("Strings", .object (c.strings.entries.map fun e => (e.1, e.2.reported))),
      ("Diagnostics", .array (c.diagnostics.map Diagnostic.toJson))] := by
  unfold reportBody programMember
  cases c.program <;> rfl

theorem Lua.chunkBody_eq (c : Compilation) :
    chunkBody c = .object [("Program", c.programMember),
      ("Lines", .object (c.strings.entries.map fun e => (e.1, (Line.ofEntry e.2).toJson)))] := by
  have hlines : Value.ofTable Line.toJson (Line.ofEntries c.strings)
      = .object (c.strings.entries.map fun e => (e.1, (Line.ofEntry e.2).toJson)) := by
    simp [Value.ofTable, Line.ofEntries, Table.map]
  unfold chunkBody Compilation.programMember
  rw [hlines]
  cases c.program <;> rfl

/-- The table of a module is the text of an object that keeps its null members: of the program as
the report has it, and of lines with the names and texts of the report, both without the null
members that they hold at any depth. -/
theorem Compilation.outputs_agree (name : String) (c : Compilation) :
    ∃ (program diagnostics : Value) (strings lines : List (String × Value)),
      c.reportBody
          = .object [("Program", program), ("Strings", .object strings),
              ("Diagnostics", diagnostics)]
        ∧ c.reportText = c.reportBody.compact ++ ['\n']
        ∧ Lua.chunkText name c
          = Lua.guardText Lua.registry ++ Lua.guardText Lua.registryOfCompiled
              ++ Lua.fieldText Lua.registryOfCompiled name ++ [' ', '=', ' ']
              ++ Lua.text .kept
                (Value.object [("Program", program), ("Lines", .object lines)]).pruned
              ++ ['\n']
        ∧ List.Forall₂ SameText lines strings := by
  have htable : Lua.text .dropped (Lua.chunkBody c) = Lua.text .kept (Lua.chunkBody c).pruned :=
    Lua.expression_dropped 0 (Lua.chunkBody c)
  refine ⟨c.programMember, .array (c.diagnostics.map Diagnostic.toJson), _, _, c.reportBody_eq, rfl,
    ?_, lines_match c.strings.entries⟩
  rw [Lua.chunkText, htable, Lua.chunkBody_eq]

end DialogueBuild
