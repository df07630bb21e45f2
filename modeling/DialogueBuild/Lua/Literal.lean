import DialogueBuild.Json.Printer
/-!
Names and strings as Lua writes them.
-/
namespace DialogueBuild.Lua

/-- The reserved words of the language. -/
def reserved : List String :=
  ["and", "break", "do", "else", "elseif", "end", "false", "for", "function", "goto", "if", "in",
   "local", "nil", "not", "or", "repeat", "return", "then", "true", "until", "while"]

def isNameStart (c : Char) : Bool := c.isAlpha || c = '_'

def isNamePart (c : Char) : Bool := c.isAlphanum || c = '_'

/-- Whether a text can stand as a bare name: ASCII letters, digits and underscores, no digit in
front, and no reserved word. -/
def isName (s : String) : Bool :=
  match s.toList with
  | [] => false
  | c :: rest => isNameStart c && rest.all isNamePart && !reserved.contains s

/-- Three decimal digits of a number below 1000. -/
def threeDigits (n : Nat) : List Char :=
  [Nat.digitChar (n / 100), Nat.digitChar (n / 10 % 10), Nat.digitChar (n % 10)]

/-- ASCII characters that control a device. -/
def isControl (c : Char) : Bool := c.toNat < 0x20 || c.toNat = 0x7F

/-- How a character stands inside a string. -/
def escape (c : Char) : List Char :=
  if c = '"' then ['\\', '"']
  else if c = '\\' then ['\\', '\\']
  else if c = '\n' then ['\\', 'n']
  else if c = '\r' then ['\\', 'r']
  else if c = '\t' then ['\\', 't']
  else if isControl c then '\\' :: threeDigits c.toNat
  else [c]

/-- A string in double quotes. -/
def stringText (s : String) : List Char := '"' :: s.toList.flatMap escape ++ ['"']

/-- A string in brackets, which can name any field. -/
def bracketed (s : String) : List Char := '[' :: stringText s ++ [']']

/-- The name of a field in a table. -/
def keyText (s : String) : List Char := if isName s then s.toList else bracketed s

end DialogueBuild.Lua
