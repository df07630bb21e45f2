import DialogueBuild.Lua.Table
import DialogueBuild.Line
/-!
The Lua chunk that registers a compiled dialogue under its name.
-/
namespace DialogueBuild.Lua

open Json (Value)

/-- Makes sure that a table exists before fields are added to it. -/
def guardText (table : List Char) : List Char :=
  table ++ [' ', '=', ' '] ++ table ++ " or \x7b\x7d\n".toList

def registry : List Char := "Playline".toList

def registryOfCompiled : List Char := "Playline.Compiled".toList

/-- The field of a table. -/
def fieldText (table : List Char) (name : String) : List Char :=
  if isName name then table ++ '.' :: name.toList else table ++ bracketed name

/-- What is registered: the program, if there is one, and the lines of dialogue. -/
def chunkBody (c : Compilation) : Value :=
  .object
    [("Program", match c.program with
      | some p => p.toJson
      | none => .null),
     ("Lines", .ofTable Line.toJson (Line.ofEntries c.strings))]

/-- The text of the chunk. -/
def chunkText (name : String) (c : Compilation) : List Char :=
  guardText registry ++ guardText registryOfCompiled
    ++ fieldText registryOfCompiled name ++ [' ', '=', ' ']
    ++ text .dropped (chunkBody c) ++ ['\n']

end DialogueBuild.Lua
