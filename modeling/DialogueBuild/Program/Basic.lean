import DialogueBuild.Json.Decoder
import DialogueBuild.Json.Decoder
/-!
Compiled dialogue programs: nodes of instructions with operands.
-/
namespace DialogueBuild

/-- What an instruction does. -/
inductive OpCode
  | jumpTo
  | jump
  | runLine
  | runCommand
  | addOption
  | showOptions
  | pushString
  | pushFloat
  | pushBool
  | pushNull
  | jumpIfFalse
  | pop
  | callFunc
  | pushVariable
  | storeVariable
  | stop
  | runNode
  deriving DecidableEq, Repr

namespace OpCode

def all : List OpCode :=
  [.jumpTo, .jump, .runLine, .runCommand, .addOption, .showOptions, .pushString, .pushFloat,
   .pushBool, .pushNull, .jumpIfFalse, .pop, .callFunc, .pushVariable, .storeVariable, .stop,
   .runNode]

/-- The name that is written. -/
def name : OpCode → String
  | .jumpTo => "JumpTo"
  | .jump => "Jump"
  | .runLine => "RunLine"
  | .runCommand => "RunCommand"
  | .addOption => "AddOption"
  | .showOptions => "ShowOptions"
  | .pushString => "PushString"
  | .pushFloat => "PushFloat"
  | .pushBool => "PushBool"
  | .pushNull => "PushNull"
  | .jumpIfFalse => "JumpIfFalse"
  | .pop => "Pop"
  | .callFunc => "CallFunc"
  | .pushVariable => "PushVariable"
  | .storeVariable => "StoreVariable"
  | .stop => "Stop"
  | .runNode => "RunNode"

/-- The spelling in capitals that compilers use. -/
def capitals : OpCode → String
  | .jumpTo => "JUMP_TO"
  | .jump => "JUMP"
  | .runLine => "RUN_LINE"
  | .runCommand => "RUN_COMMAND"
  | .addOption => "ADD_OPTION"
  | .showOptions => "SHOW_OPTIONS"
  | .pushString => "PUSH_STRING"
  | .pushFloat => "PUSH_FLOAT"
  | .pushBool => "PUSH_BOOL"
  | .pushNull => "PUSH_NULL"
  | .jumpIfFalse => "JUMP_IF_FALSE"
  | .pop => "POP"
  | .callFunc => "CALL_FUNC"
  | .pushVariable => "PUSH_VARIABLE"
  | .storeVariable => "STORE_VARIABLE"
  | .stop => "STOP"
  | .runNode => "RUN_NODE"

/-- Every spelling that is read. -/
def variants : List (String × OpCode) := all.flatMap fun c => [(c.capitals, c), (c.name, c)]

end OpCode

/-- The operand of an instruction, or the first value of a variable. -/
inductive Operand
  | unset
  | float (x : Float)
  | bool (b : Bool)
  | string (s : String)

/-- A value in the form in which outputs hold it. -/
inductive Plain
  | number (x : Float)
  | bool (b : Bool)
  | string (s : String)
  | null

structure Instruction where
  opcode : OpCode
  operands : List Operand

/-- A line above the body of a node. -/
structure Header where
  key : String
  value : String
  deriving DecidableEq, Repr

structure Node where
  name : String
  instructions : List Instruction
  /-- The index of the instruction that each label stands before. -/
  labels : Table Int32
  tags : List String
  sourceTextId : Option String
  headers : List Header

structure Program where
  name : String
  nodes : Table Node
  /-- The variables that have a value from the start. -/
  initialValues : Table Operand

/-! ## Operands -/

namespace Operand

/-- Why a value is no operand. -/
inductive Refusal
  | array
  /-- A number without a double. -/
  | outOfRange (n : Json.Number)
  /-- An object with two members that are not null. -/
  | several (first second : String)
  /-- An object whose only member that is not null is no operand. -/
  | invalid (tag : String) (value : Json.Value)

def Refusal.message : Refusal → String
  | .array => "operand cannot be an array"
  | .outOfRange n => "operand number " ++ String.ofList n.text ++ " is out of range"
  | .several first second => "operand has both `" ++ first ++ "` and `" ++ second ++ "` set"
  | .invalid tag value => "invalid operand `" ++ tag ++ "`: " ++ value.text

/-- The double nearest to a number. -/
def ofNumber : Json.Number → Float
  | .int n => if n < 0 then -(Decimal.nearest n.natAbs) else Decimal.nearest n.natAbs
  | .float x => x

/-- The double of a number, if it has one. Numbers of documents always do: they are doubles or fit
into 64 bits. -/
def double? (n : Json.Number) : Option Float := some (ofNumber n)

/-- The float operand of a number. -/
def ofDouble (n : Json.Number) : Except Refusal Operand :=
  match double? n with
  | some x => .ok (.float x)
  | none => .error (.outOfRange n)

/-- The operand that a tag and its value stand for. -/
def ofTagged (tag : String) (value : Json.Value) : Except Refusal Operand :=
  match value with
  | .number n =>
    if tag = "floatValue" ∨ tag = "float_value" then ofDouble n
    else .error (.invalid tag value)
  | .bool b =>
    if tag = "boolValue" ∨ tag = "bool_value" then .ok (.bool b)
    else .error (.invalid tag value)
  | .string s =>
    if tag = "stringValue" ∨ tag = "string_value" then .ok (.string s)
    else .error (.invalid tag value)
  | _ => .error (.invalid tag value)

/-- The operand of a value: a plain value, or an object that names the kind of its only member.
Members that are null count for nothing; without any other the operand is unset. -/
def ofValue : Json.Value → Except Refusal Operand
  | .null => .ok .unset
  | .bool b => .ok (.bool b)
  | .number n => ofDouble n
  | .string s => .ok (.string s)
  | .array _ => .error .array
  | .object members =>
    match members.filter fun (_, value) => !value.isNull with
    | [] => .ok .unset
    | [(tag, value)] => ofTagged tag value
    | (first, _) :: (second, _) :: _ => .error (.several first second)

/-- The text of a string operand. -/
def text? : Operand → Option String
  | .string s => some s
  | _ => none

def plain : Operand → Plain
  | .unset => .null
  | .float x => .number x
  | .bool b => .bool b
  | .string s => .string s

/-- Operands of one kind with equal values; the two zeros are equal. -/
def same : Operand → Operand → Bool
  | .unset, .unset => true
  | .float x, .float y => x == y
  | .bool a, .bool b => a = b
  | .string s, .string t => s = t
  | _, _ => false

end Operand

def OpCode.plain (c : OpCode) : Plain := .string c.name

namespace Plain

def toJson : Plain → Json.Value
  | .number x => .ofFloat x
  | .bool b => .bool b
  | .string s => .string s
  | .null => .null

/-- How a listing shows the value. -/
def display : Plain → List Char
  | .number x => Decimal.listingLayout.write x
  | .bool b => Json.boolText b
  | .string s => Text.quoted s.toList
  | .null => ['n', 'u', 'l', 'l']

end Plain

end DialogueBuild
