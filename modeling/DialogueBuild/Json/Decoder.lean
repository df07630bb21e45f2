import DialogueBuild.FileSystem.Fault
import DialogueBuild.Json.Tree
import DialogueBuild.Json.Printer
import DialogueBuild.Text.Marks
/-!
Reading typed data out of documents. Every reader goes through the tree in text order and stops
at the first problem.
-/
namespace DialogueBuild.Json

/-! ## Problems -/

/-- What stands where something else is expected. -/
inductive Found
  | null
  | bool (b : Bool)
  | number (n : Number)
  | string (s : String)
  | sequence
  | map

/-- Why no data could be read from a document, or why a document could not be written. -/
inductive Problem
  /-- The text is no JSON. -/
  | fault (f : Fault)
  | invalidType (found : Found) (expected : String)
  /-- A whole number outside the range that is expected. -/
  | invalidValue (n : Int) (expected : String)
  /-- An array that stands for a record ends before a field that must be given. -/
  | invalidLength (length : Nat) (record : String) (fields : Nat)
  | missingField (name : String)
  | duplicateField (name : String)
  | unknownVariant (name : String) (expected : List String)
  /-- Well-formed data that the reader of its type refuses. -/
  | refused (message : String)
  /-- What takes the text of a document refuses it. -/
  | output (reason : FileSystem.Fault)

/-- Words for the two kinds of malformed text. What the library says tells more of them apart. -/
def Fault.message : Fault → String
  | .truncated => "<eof>"
  | .malformed => "<syntax>"

def Found.describe : Found → String
  | .null => "null"
  | .bool b => "boolean `" ++ String.ofList (boolText b) ++ "`"
  | .number (.int n) => "integer `" ++ String.ofList (intText n) ++ "`"
  | .number (.float x) => "floating point `" ++ String.ofList (Number.float x).text ++ "`"
  | .string s => "string " ++ String.ofList (Text.quoted s.toList)
  | .sequence => "sequence"
  | .map => "map"

/-- A problem without the place in the text, the line and column that the library adds. -/
def Problem.message : Problem → String
  | .fault f => f.message
  | .invalidType found expected => "invalid type: " ++ found.describe ++ ", expected " ++ expected
  | .invalidValue n expected =>
    "invalid value: integer `" ++ String.ofList (intText n) ++ "`, expected " ++ expected
  | .invalidLength length record fields =>
    "invalid length " ++ toString length ++ ", expected struct " ++ record ++ " with "
      ++ toString fields ++ " elements"
  | .missingField name => "missing field `" ++ name ++ "`"
  | .duplicateField name => "duplicate field `" ++ name ++ "`"
  | .unknownVariant name expected =>
    "unknown variant `" ++ name ++ "`, expected one of "
      ++ ", ".intercalate (expected.map fun v => "`" ++ v ++ "`")
  | .refused message => message
  | .output reason => reason.message

/-! ## Readers -/

/-- The levels of arrays and objects that a document may have. -/
def maxDepth : Nat := 127

/-- Reads a tree, with so many further levels of arrays and objects allowed in it. -/
abbrev Decoder (α : Type) := (room : Nat) → Tree → Except Problem α

def Ending.check : Ending → Except Problem Unit
  | .closed => .ok ()
  | .cut f => .error (.fault f)

/-- What a value without parts turns out to be once it is read. -/
def Scalar.found : Scalar → Except Problem Found
  | .null => .ok .null
  | .bool b => .ok (.bool b)
  | .number numeral => match numeral.number? with
    | some n => .ok (.number n)
    | none => .error (.fault .malformed)
  | .string text => match text with
    | some s => .ok (.string s)
    | none => .error (.fault .malformed)

/-- What stands at a tree. Of an array or object only the bracket is read. -/
def Tree.found : Tree → Except Problem Found
  | .scalar s => s.found
  | .array _ _ => .ok .sequence
  | .object _ _ => .ok .map
  | .broken b => .error (.fault b.whenRead)

/-- Refuses a tree where something else is expected. -/
def mismatch {α : Type} (t : Tree) (expected : String) : Except Problem α := do
  throw (.invalidType (← t.found) expected)

/-- Allows one level less, or refuses the array or object that would need it. -/
def enter (room : Nat) : Except Problem Nat :=
  match room with
  | 0 => .error (.fault .malformed)
  | room + 1 => .ok room

/-- A text; `expected` names what a message misses if there is none. -/
def decodeText (expected : String) : Decoder String := fun _ t => do
  match ← t.found with
  | .string s => return s
  | found => throw (.invalidType found expected)

def decodeString : Decoder String := decodeText "a string"

def decodeBool : Decoder Bool := fun _ t => do
  match ← t.found with
  | .bool b => return b
  | found => throw (.invalidType found "a boolean")

/-- Whole numbers of 32 bits with a sign. -/
def decodeInt32 : Decoder Int := fun _ t => do
  match ← t.found with
  | .number (.int n) =>
    if Int32.minValue.toInt ≤ n ∧ n ≤ Int32.maxValue.toInt then return n
    else throw (.invalidValue n "i32")
  | found => throw (.invalidType found "i32")

def int32 : Decoder Int32 := fun room t => Int32.ofInt <$> decodeInt32 room t

/-- Null stands for an absent value. -/
def decodeOption {α : Type} (d : Decoder α) : Decoder (Option α) := fun room t =>
  match t with
  | .scalar .null => .ok none
  | t => some <$> d room t

def decodeItems {α : Type} (d : Decoder α) (room : Nat) : List Tree → Except Problem (List α)
  | [] => .ok []
  | t :: rest => do
    let item ← d room t
    return item :: (← decodeItems d room rest)

def decodeList {α : Type} (d : Decoder α) : Decoder (List α) := fun room t => do
  match t with
  | .array items ending =>
    let room ← enter room
    let values ← decodeItems d room items
    ending.check
    return values
  | t => mismatch t "a sequence"

/-- Reads the key of a member. -/
def decodeKey (t : Tree) : Except Problem String :=
  match t with
  | .scalar (.string text) => match text with
    | some s => .ok s
    | none => .error (.fault .malformed)
  | .broken b => .error (.fault b.whenNamed)
  | _ => .error (.fault .malformed)

/-- Reads members into a table; a repeated name takes the last value. -/
def decodeEntries {α : Type} (d : Decoder α) (room : Nat) :
    List (Tree × Tree) → Table α → Except Problem (Table α)
  | [], table => .ok table
  | (key, value) :: rest, table => do
    let key ← decodeKey key
    let value ← d room value
    decodeEntries d room rest (table.insert key value)

def decodeTable {α : Type} (d : Decoder α) : Decoder (Table α) := fun room t => do
  match t with
  | .object members ending =>
    let room ← enter room
    let table ← decodeEntries d room members .empty
    ending.check
    return table
  | t => mismatch t "a map"

/-! ## Passing over a tree -/

/-- Passes over a key. Half surrogate pairs are of no interest in what is skipped. -/
def skipKey : Tree → Except Problem Unit
  | .scalar (.string _) => .ok ()
  | .broken (.string _ whenSkipped) => .error (.fault whenSkipped)
  | .broken .nothing => .error (.fault .truncated)
  | _ => .error (.fault .malformed)

mutual

/-- Passes over a tree of any depth; only text that is no JSON is a problem. -/
def skip : Tree → Except Problem Unit
  | .scalar _ => .ok ()
  | .array items ending => do
    skipItems items
    ending.check
  | .object members ending => do
    skipMembers members
    ending.check
  | .broken b => .error (.fault b.whenSkipped)

def skipItems : List Tree → Except Problem Unit
  | [] => .ok ()
  | t :: rest => do
    skip t
    skipItems rest

def skipMembers : List (Tree × Tree) → Except Problem Unit
  | [] => .ok ()
  | (key, value) :: rest => do
    skipKey key
    skip value
    skipMembers rest

end

/-! ## Any value -/

mutual

/-- Reads any value. -/
def decodeValue (room : Nat) : Tree → Except Problem Value
  | .scalar s => do
    match ← s.found with
    | .null => return .null
    | .bool b => return .bool b
    | .number n => return .number n
    | .string s => return .string s
    | .sequence => return .array []
    | .map => return .object []
  | .array items ending => do
    let room ← enter room
    let values ← decodeValues room items
    ending.check
    return .array values
  | .object members ending => do
    let room ← enter room
    let entries ← decodeMembers room members []
    ending.check
    return .object entries
  | .broken b => .error (.fault b.whenRead)

def decodeValues (room : Nat) : List Tree → Except Problem (List Value)
  | [] => .ok []
  | t :: rest => do
    let v ← decodeValue room t
    return v :: (← decodeValues room rest)

/-- A repeated name keeps its place and takes the last value. -/
def decodeMembers (room : Nat) :
    List (Tree × Tree) → List (String × Value) → Except Problem (List (String × Value))
  | [], entries => .ok entries
  | (key, value) :: rest, entries => do
    let key ← decodeKey key
    let value ← decodeValue room value
    decodeMembers room rest (insertEntry key value entries)

end

/-! ## Variants -/

/-- Finds a variant by its name. -/
def findVariant {α : Type} (variants : List (String × α)) (name : String) : Except Problem α :=
  match findEntry? name variants with
  | some v => .ok v
  | none => .error (.unknownVariant name (variants.map Prod.fst))

/-- One of several named values: the name alone, or an object with the name over null. The listed
names are those a message offers, in this order. -/
def decodeVariant {α : Type} (variants : List (String × α)) : Decoder α := fun room t => do
  match t with
  | .scalar (.string text) => match text with
    | some s => findVariant variants s
    | none => throw (.fault .malformed)
  | .object members ending =>
    let _ ← enter room
    match members with
    | [] => throw (.fault .malformed)
    | (key, value) :: rest =>
      let v ← findVariant variants (← decodeKey key)
      match ← value.found with
      | .null =>
        if rest.isEmpty then
          ending.check
          return v
        else throw (.fault .malformed)
      | found => throw (.invalidType found "unit")
  | .broken b => throw (.fault b.whenNamed)
  | _ => throw (.fault .malformed)

/-! ## Records -/

/-- A field of a record: how its value is read into a record that is being filled. -/
structure Field (α : Type) where
  name : String
  /-- The field must be given; otherwise it may be absent and keeps the blank value. -/
  required : Bool
  read : (room : Nat) → Tree → Except Problem (α → α)

/-- A field that must be given. -/
def Field.mustHave {α β : Type} (name : String) (d : Decoder β) (set : β → α → α) : Field α :=
  ⟨name, true, fun room t => set <$> d room t⟩

/-- A field that may be absent. -/
def Field.mayHave {α β : Type} (name : String) (d : Decoder β) (set : β → α → α) : Field α :=
  ⟨name, false, fun room t => set <$> d room t⟩

/-- How a record is written: its name in messages, its fields in order, and a blank to fill. -/
structure Form (α : Type) where
  record : String
  fields : List (Field α)
  blank : α
  /-- What becomes of a member that is no field. Without a word about it, it is passed over. -/
  keep? : Option (String → Value → α → α) := none

/-- A record that is being filled, and the fields that were given. -/
structure Draft (α : Type) where
  given : List String
  filled : α

namespace Form

variable {α : Type}

/-- Reads the members of an object. -/
def fill (form : Form α) (room : Nat) :
    List (Tree × Tree) → Draft α → Except Problem (Draft α)
  | [], draft => .ok draft
  | (key, value) :: rest, draft => do
    let key ← decodeKey key
    match form.fields.find? (·.name = key), form.keep? with
    | none, none =>
      skip value
      form.fill room rest draft
    | none, some keep =>
      let kept ← decodeValue room value
      form.fill room rest ⟨draft.given, keep key kept draft.filled⟩
    | some field, _ =>
      if key ∈ draft.given then throw (.duplicateField key)
      else
        let set ← field.read room value
        form.fill room rest ⟨key :: draft.given, set draft.filled⟩

/-- Refuses a record that lacks a field; the first one in order is named. -/
def complete (form : Form α) (draft : Draft α) : Except Problem α :=
  match form.fields.find? fun f => f.required && !draft.given.contains f.name with
  | some field => .error (.missingField field.name)
  | none => .ok draft.filled

/-- Reads the items of an array as the fields in order; `index` is the number of the next one. -/
def fillInOrder (form : Form α) (room : Nat) (ending : Ending) :
    List (Field α) → List Tree → (index : Nat) → α → Except Problem α
  | [], [], _, filled => do
    ending.check
    return filled
  | [], _ :: _, _, _ => .error (.fault .malformed)
  | field :: fields, t :: rest, index, filled => do
    let set ← field.read room t
    form.fillInOrder room ending fields rest (index + 1) (set filled)
  | field :: fields, [], index, filled => do
    ending.check
    if field.required then
      throw (.invalidLength index form.record form.fields.length)
    else form.fillInOrder room ending fields [] (index + 1) filled

/-- What a message calls the record. -/
def expectation (form : Form α) : String := "struct " ++ form.record

/-- Reads a record from an object. -/
def decodeObject (form : Form α) : Decoder α := fun room t => do
  match t with
  | .object members ending =>
    let room ← enter room
    let draft ← form.fill room members ⟨[], form.blank⟩
    ending.check
    form.complete draft
  | t => mismatch t form.expectation

/-- Reads a record from an object, or from an array of its fields in order. -/
def decode (form : Form α) : Decoder α := fun room t => do
  match t with
  | .array items ending =>
    let room ← enter room
    form.fillInOrder room ending form.fields items 0 form.blank
  | t => form.decodeObject room t

end Form

/-! ## Documents -/

/-- Reads a whole text. -/
def decodeText? {α : Type} (d : Decoder α) (text : String) : Except Problem α := do
  let document := Document.ofText text
  let value ← d maxDepth document.root
  if document.trailing then throw (.fault .malformed)
  return value

/-- The value that a text holds. -/
def Value.ofText (text : String) : Except Problem Value := decodeText? decodeValue text

end DialogueBuild.Json
