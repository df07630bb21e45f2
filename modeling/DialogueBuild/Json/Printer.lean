import DialogueBuild.Json.Value
import DialogueBuild.Decimal.Layout
/-!
JSON values as text: compact on one line, or indented.
-/
namespace DialogueBuild.Json

open Decimal

def intText (n : Int) : List Char :=
  if n < 0 then '-' :: digitsOf n.natAbs else digitsOf n.natAbs

def Number.text : Number → List Char
  | .int n => intText n
  | .float x => documentLayout.write x

/-- Two hexadecimal digits of a number below 256. -/
def hexPair (n : Nat) : List Char :=
  [Nat.digitChar (n / 16), Nat.digitChar (n % 16)]

/-- How a character stands inside a JSON string. -/
def escape (c : Char) : List Char :=
  if c = '"' then ['\\', '"']
  else if c = '\\' then ['\\', '\\']
  else if c = '\x08' then ['\\', 'b']
  else if c = '\x0c' then ['\\', 'f']
  else if c = '\n' then ['\\', 'n']
  else if c = '\r' then ['\\', 'r']
  else if c = '\t' then ['\\', 't']
  else if c.toNat < 0x20 then ['\\', 'u', '0', '0'] ++ hexPair c.toNat
  else [c]

/-- A JSON string. -/
def stringText (s : String) : List Char := '"' :: s.toList.flatMap escape ++ ['"']

def boolText : Bool → List Char
  | true => ['t', 'r', 'u', 'e']
  | false => ['f', 'a', 'l', 's', 'e']

/-! ## Compact text -/

mutual

/-- The text of a value without any space. -/
def Value.compact : Value → List Char
  | .null => ['n', 'u', 'l', 'l']
  | .bool b => boolText b
  | .number n => n.text
  | .string s => stringText s
  | .array items => '[' :: compactItems items ++ [']']
  | .object members => '{' :: compactMembers members ++ ['}']

def compactItems : List Value → List Char
  | [] => []
  | item :: rest => item.compact ++ compactItemsAfter rest

/-- Items that follow another one. -/
def compactItemsAfter : List Value → List Char
  | [] => []
  | item :: rest => ',' :: item.compact ++ compactItemsAfter rest

def compactMembers : List (String × Value) → List Char
  | [] => []
  | (key, value) :: rest => stringText key ++ ':' :: value.compact ++ compactMembersAfter rest

/-- Members that follow another one. -/
def compactMembersAfter : List (String × Value) → List Char
  | [] => []
  | (key, value) :: rest =>
    ',' :: stringText key ++ ':' :: value.compact ++ compactMembersAfter rest

end

/-! ## Indented text -/

/-- A line break and the indentation of a level. -/
def newLine (level : Nat) : List Char := '\n' :: List.replicate (2 * level) ' '

mutual

/-- The text of a value with one item or member a line; `level` is that of its first line. -/
def Value.indented (level : Nat) : Value → List Char
  | .null => ['n', 'u', 'l', 'l']
  | .bool b => boolText b
  | .number n => n.text
  | .string s => stringText s
  | .array [] => ['[', ']']
  | .array (item :: rest) =>
    '[' :: newLine (level + 1) ++ item.indented (level + 1) ++ indentedItems (level + 1) rest
      ++ newLine level ++ [']']
  | .object [] => ['{', '}']
  | .object ((key, value) :: rest) =>
    '{' :: newLine (level + 1) ++ stringText key ++ [':', ' '] ++ value.indented (level + 1)
      ++ indentedMembers (level + 1) rest ++ newLine level ++ ['}']

/-- Items that follow another one. -/
def indentedItems (level : Nat) : List Value → List Char
  | [] => []
  | item :: rest => ',' :: newLine level ++ item.indented level ++ indentedItems level rest

/-- Members that follow another one. -/
def indentedMembers (level : Nat) : List (String × Value) → List Char
  | [] => []
  | (key, value) :: rest =>
    ',' :: newLine level ++ stringText key ++ [':', ' '] ++ value.indented level
      ++ indentedMembers level rest

end

/-- The compact text as a string. -/
def Value.text (v : Value) : String := String.ofList v.compact

/-- The indented text as a string. -/
def Value.pretty (v : Value) : String := String.ofList (v.indented 0)

end DialogueBuild.Json
