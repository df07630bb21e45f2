import DialogueBuild.Lua.Literal
/-!
Values as Lua tables, one field a line and two spaces deeper for every level.
-/
namespace DialogueBuild.Lua

open Json (Value boolText newLine)

/-- What becomes of object members that are null. Null items of arrays are always written, so that
the others keep their positions. -/
inductive NullMembers
  | kept
  | dropped
  deriving DecidableEq, Repr

def NullMembers.keep (nulls : NullMembers) (v : Value) : Bool := nulls = .kept || !v.isNull

/-- A table of fields that are written already; its first line is at `level`. -/
def tableText (level : Nat) : List (List Char) → List Char
  | [] => ['{', '}']
  | field :: rest =>
    '{' :: newLine (level + 1) ++ field
      ++ rest.flatMap (fun f => ',' :: newLine (level + 1) ++ f)
      ++ newLine level ++ ['}']

mutual

/-- A value as an expression; `level` is that of its first line. -/
def expression (nulls : NullMembers) (level : Nat) : Value → List Char
  | .null => ['n', 'i', 'l']
  | .bool b => boolText b
  | .number n => n.text
  | .string s => stringText s
  | .array items => tableText level (itemFields nulls (level + 1) items)
  | .object members => tableText level (memberFields nulls (level + 1) members)

def itemFields (nulls : NullMembers) (level : Nat) : List Value → List (List Char)
  | [] => []
  | item :: rest => expression nulls level item :: itemFields nulls level rest

def memberFields (nulls : NullMembers) (level : Nat) :
    List (String × Value) → List (List Char)
  | [] => []
  | (key, value) :: rest =>
    if nulls.keep value then
      (keyText key ++ [' ', '=', ' '] ++ expression nulls level value)
        :: memberFields nulls level rest
    else memberFields nulls level rest

end

/-- The text of a value. -/
def text (nulls : NullMembers) (v : Value) : List Char := expression nulls 0 v

end DialogueBuild.Lua
