import DialogueBuild.Table
/-!
JSON values. Objects keep their members in order.
-/
namespace DialogueBuild.Json

/-- A number: whole numbers of at most 64 bits stay whole, all others are doubles. -/
inductive Number
  | int (n : Int)
  | float (x : Float)

inductive Value
  | null
  | bool (b : Bool)
  | number (n : Number)
  | string (s : String)
  | array (items : List Value)
  | object (members : List (String × Value))

instance : Inhabited Value := ⟨.null⟩

namespace Value

def isNull : Value → Bool
  | .null => true
  | _ => false

/-- The text of a string value. -/
def text? : Value → Option String
  | .string s => some s
  | _ => none

/-- The items of an array. -/
def items? : Value → Option (List Value)
  | .array items => some items
  | _ => none

/-- The member of an object under a name; none if the value is no object. -/
def member? (key : String) : Value → Option Value
  | .object members => findEntry? key members
  | _ => none

/-- A whole number. -/
def ofInt (n : Int) : Value := .number (.int n)

/-- A whole number of 32 bits with a sign. -/
def ofInt32 (n : Int32) : Value := .ofInt n.toInt

/-- A double. Infinities and NaN have no JSON form and become null. -/
def ofFloat (x : Float) : Value := if x.isFinite then .number (.float x) else .null

/-- A list of texts. -/
def ofTexts (texts : List String) : Value := .array (texts.map .string)

/-- A table as an object. -/
def ofTable {α : Type} (f : α → Value) (t : Table α) : Value :=
  .object (t.entries.map fun (key, value) => (key, f value))

end Value

end DialogueBuild.Json
