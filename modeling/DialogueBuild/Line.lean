import DialogueBuild.Compilation
import DialogueBuild.Text.Blank
/-!
Lines of dialogue as a running game sees them.
-/
namespace DialogueBuild

open Json (Value)

/-! ## Tags -/

/-- Splits a tag at its first colon and trims both halves. A tag without a colon is a key with an
empty value. -/
def splitTag (raw : List Char) : List Char × List Char :=
  (Text.trim (raw.takeWhile (· ≠ ':')), Text.trim ((raw.dropWhile (· ≠ ':')).drop 1))

/-- The key and the value of a tag. -/
def parseTag (raw : String) : String × String :=
  let (key, value) := splitTag raw.toList
  (String.ofList key, String.ofList value)

/-! ## Lines -/

structure Line where
  text : String
  node : String
  /-- None for a line without any tag. -/
  tags : Option (Table String)
  lineNumber : Int32

namespace Line

/-- The tags of an entry by their keys. A repeated key keeps its place and takes the last value. -/
def tagsOf : List String → Option (Table String)
  | [] => none
  | raw => some (Table.ofList (raw.map parseTag))

def ofEntry (e : StringEntry) : Line := ⟨e.text, e.nodeName, tagsOf e.metadata, e.lineNumber⟩

/-- The lines of a string table, under the same names. -/
def ofEntries (entries : Table StringEntry) : Table Line := entries.map ofEntry

/-- The members of a line; absent tags are left out. -/
def toJson (l : Line) : Value :=
  .object <|
    [("Text", .string l.text), ("Node", .string l.node)]
    ++ (match l.tags with
      | some tags => [("Tags", .ofTable .string tags)]
      | none => [])
    ++ [("LineNumber", .ofInt32 l.lineNumber)]

end Line

end DialogueBuild
