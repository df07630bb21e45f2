import DialogueBuild.Failure
import DialogueBuild.FileSystem.Basic
import DialogueBuild.Job
/-!
Definitions documents, which declare the functions that a dialogue may call.

A document is read function by function; the first fault in text order decides.
-/
namespace DialogueBuild.Definitions

open Json (Value)

/-- The text of a function under a key. -/
def textOf (path : Path) (index : Nat) (key : String) (function : Value) :
    Except Failure String :=
  match (function.member? key).bind Value.text? with
  | some text => .ok text
  | none => .error (.definitions path (.missingText index key))

def resolveType (name : String) : Except Failure ValueType :=
  match ValueType.resolve? name with
  | some t => .ok t
  | none => .error (.unknownType name)

/-- The type of a parameter of the function with this name. -/
def parameterOf (path : Path) (name : String) (parameter : Value) : Except Failure ValueType :=
  match (parameter.member? "Type").bind Value.text? with
  | some type => resolveType type
  | none => .error (.definitions path (.missingParameterType name))

/-- The types of the parameters; absent or null stands for none. -/
def parametersOf (path : Path) (name : String) : Option Value → Except Failure (List ValueType)
  | none | some .null => .ok []
  | some (.array parameters) => parameters.mapM (parameterOf path name)
  | some _ => .error (.definitions path (.parametersNotArray name))

/-- The declaration of the function with this index. -/
def declarationOf (path : Path) (index : Nat) (function : Value) :
    Except Failure Declaration := do
  let name ← textOf path index "YarnName" function
  let returnType ← resolveType (← textOf path index "ReturnType" function)
  let parameters ← parametersOf path name (function.member? "Parameters")
  return ⟨name, returnType, parameters, (function.member? "Documentation").bind Value.text?⟩

/-- The declarations of functions, of which the first has this index. -/
def declarationsFrom (path : Path) (index : Nat) :
    List Value → Except Failure (List Declaration)
  | [] => .ok []
  | function :: rest => do
    let declaration ← declarationOf path index function
    return declaration :: (← declarationsFrom path (index + 1) rest)

/-- The functions that a document lists. -/
def functionsOf (root : Value) : List Value :=
  ((root.member? "Functions").bind Value.items?).getD []

/-- The declarations in the text of a document. Messages name it by its path. -/
def ofText (path : Path) (text : String) : Except Failure (List Declaration) :=
  match Value.ofText text with
  | .error problem => .error (.definitions path (.unreadable problem))
  | .ok root => declarationsFrom path 0 (functionsOf root)

/-- The declarations in a document; none if there is no document. -/
def load (fs : FileSystem) (path : Path) : Except Failure (List Declaration) :=
  match fs.readText path with
  | .ok text => ofText path text
  | .error .notFound => .ok []
  | .error fault => .error (.access path fault)

end DialogueBuild.Definitions
