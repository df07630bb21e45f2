import DialogueBuild.Json.Decoder
/-!
The types that a declaration can name.

Results:

1. `resolve?_name`          a type is found under its own name;
2. `resolve?_eq_some_iff`   a name stands for a type iff it is the type's name but for the case.
-/
namespace DialogueBuild

inductive ValueType
  | string
  | any
  | number
  | boolean
  deriving DecidableEq, Repr

namespace ValueType

def name : ValueType → String
  | .string => "string"
  | .any => "any"
  | .number => "number"
  | .boolean => "bool"

def all : List ValueType := [.string, .any, .number, .boolean]

/-- The letters of a name in lower case. The case of letters beyond ASCII is of no interest: no
name of a type is the lower case of one. -/
def fold (name : String) : List Char := name.toList.map Char.toLower

/-- The type that a name stands for, in any case. -/
def resolve? (name : String) : Option ValueType :=
  all.find? fun t => t.name.toList = fold name

/-- The types by their names. -/
def variants : List (String × ValueType) := all.map fun t => (t.name, t)

def decode : Json.Decoder ValueType := Json.decodeVariant variants

def toJson (t : ValueType) : Json.Value := .string t.name

theorem resolve?_eq_some_iff {name : String} {t : ValueType} :
    resolve? name = some t ↔ fold name = t.name.toList := by
  unfold resolve? all
  constructor
  · intro h
    have := List.find?_some h
    simpa using (of_decide_eq_true this).symm
  · intro h
    rw [h]
    cases t <;> decide

theorem resolve?_name (t : ValueType) : resolve? t.name = some t := by
  rw [resolve?_eq_some_iff]
  cases t <;> decide

end ValueType

/-- The message about a name that stands for no type. -/
def unknownTypeMessage (name : String) : String :=
  "invalid type `" ++ name ++ "` (expected one of: string, any, number, bool)"

end DialogueBuild
